import ManyAiCli.Text.Strings

/-! The shared board of an orchestration. Sessions append sections to one file;
each poll parses the whole text again and credits every completion marker in it
to the writer of its last header, if the marker names that writer. -/

namespace ManyAiCli.Hub

open Text

/-- Characters of a role or label; a run of others becomes a dash. -/
def isSafeTokenChar (c : Char) : Bool :=
  ('a' ≤ c ∧ c ≤ 'z') || ('A' ≤ c ∧ c ≤ 'Z') || ('0' ≤ c ∧ c ≤ '9') || c = '.' || c = '_' || c = '-'

/-- `dashed` tells that the run at hand has its dash already. -/
def replaceUnsafe (dashed : Bool) : List Char → List Char
  | [] => []
  | c :: cs =>
    if isSafeTokenChar c then c :: replaceUnsafe false cs
    else if dashed then replaceUnsafe true cs
    else '-' :: replaceUnsafe true cs

def isTokenEdge (c : Char) : Bool := c = '-' || c = '_' || c = '.'

def safeToken (value : List Char) : List Char :=
  let value := trim isTokenEdge (replaceUnsafe false (trimSpace value))
  if value = [] then "item".toList else value.take 80

def sanitizeRole (role : List Char) : List Char :=
  trim isTokenEdge (safeToken (toLower (trimSpace role)))

structure BoardDoneEvent where
  role : List Char
  sessionID : ℕ
  deriving DecidableEq, Repr

/-- The zero value stands for no writer. -/
structure BoardWriter where
  role : List Char
  sessionID : ℕ
  deriving DecidableEq, Repr

structure OrchestrationChild where
  id : ℕ
  role : List Char
  lastBoardWrite : ℕ
  done : Bool
  deriving DecidableEq, Repr

/-- The keys of `sessions` and of `children` are distinct. -/
structure OrchestrationBoard where
  path : List Char
  sessions : List ℕ
  children : List OrchestrationChild
  done : List ℕ
  lastSize : ℕ
  lastMod : ℕ
  lastWrite : ℕ
  deriving DecidableEq, Repr

/-! ### Parsing -/

def donePrefix : List Char := "## DONE ".toList

def successPrefix : List Char := "## SUCCESS ".toList

def headerPrefix : List Char := "## ".toList

def parseBoardSessionID (fields : List (List Char)) : ℕ :=
  let id? := fields.findSome? fun field =>
    if hasPrefix field "session=".toList then
      (atoi (trimPrefix field "session=".toList)).filter (· > 0)
    else none
  (id?.getD 0).toNat

/-- The lines of a board, trimmed. -/
def boardLines (text : List Char) : List (List Char) := (splitLines text).map trimSpace

/-- The marker on a trimmed line. -/
def boardDoneEvent? (line : List Char) : Option BoardDoneEvent :=
  if !hasPrefix line donePrefix && !hasPrefix line successPrefix then none else
  let payload := if hasPrefix line successPrefix then trimPrefix line successPrefix
    else trimPrefix line donePrefix
  match fields (trimSpace payload) with
  | [] => none
  | field :: rest =>
    let role := sanitizeRole field
    if role = [] then none else some ⟨role, parseBoardSessionID rest⟩

def detectBoardDoneEvents (text : List Char) : List BoardDoneEvent :=
  ((boardLines text).filterMap boardDoneEvent?).eraseDups

/-- The writer after a trimmed line. -/
def nextBoardWriter (writer : BoardWriter) (line : List Char) : BoardWriter :=
  if !hasPrefix line headerPrefix || hasPrefix line donePrefix then writer else
  match fields (trimPrefix line headerPrefix) with
  | [] => writer
  | field :: rest => ⟨sanitizeRole field, parseBoardSessionID rest⟩

def detectLastBoardWriter (text : List Char) : BoardWriter :=
  (boardLines text).foldl nextBoardWriter ⟨[], 0⟩

/-! ### Crediting -/

namespace OrchestrationBoard

/-- The one child with the role, 0 when there is none or more than one. -/
def uniqueChildSessionForRole (b : OrchestrationBoard) (role : List Char) : ℕ :=
  if role = [] then 0 else
  match b.children.filter (·.role = role) with
  | [child] => child.id
  | _ => 0

def resolveBoardWriter (b : OrchestrationBoard) (writer : BoardWriter) : ℕ :=
  if writer.sessionID ≠ 0 ∧ writer.sessionID ∈ b.sessions then writer.sessionID
  else b.uniqueChildSessionForRole writer.role

/-- The session a marker names. -/
def claimedSession (b : OrchestrationBoard) (ev : BoardDoneEvent) : ℕ :=
  if ev.sessionID = 0 then b.uniqueChildSessionForRole ev.role else ev.sessionID

/-- A marker counts for the writer of the board only, and for a child only. -/
def authorizeBoardDone (b : OrchestrationBoard) (ev : BoardDoneEvent) (writerID : ℕ) : Option ℕ :=
  let sessionID := b.claimedSession ev
  if sessionID = 0 ∨ writerID = 0 ∨ sessionID ≠ writerID then none
  else if b.children.any (·.id = sessionID) then some sessionID
  else none

def markDone (b : OrchestrationBoard) (sessionID now : ℕ) : OrchestrationBoard :=
  { b with
    done := sessionID :: b.done
    children := b.children.map fun child =>
      if child.id = sessionID then { child with done := true, lastBoardWrite := now } else child }

/-- Note the change, and the writer's activity. -/
def touch (b : OrchestrationBoard) (writer : BoardWriter) (writerID size mod now : ℕ) :
    OrchestrationBoard :=
  { b with
    lastSize := size
    lastMod := mod
    lastWrite := now
    children := b.children.map fun child =>
      if writerID = child.id ∨ (writerID = 0 ∧ writer.role = child.role) then
        { child with lastBoardWrite := now }
      else child }

/-- Take the markers in order: the board, the sessions credited and the markers
rejected. -/
def creditDones (b : OrchestrationBoard) (writerID now : ℕ) :
    List BoardDoneEvent → OrchestrationBoard × List ℕ × List BoardDoneEvent
  | [] => (b, [], [])
  | ev :: dones =>
    match b.authorizeBoardDone ev writerID with
    | some sessionID =>
      let (b, authorized, rejected) := (b.markDone sessionID now).creditDones writerID now dones
      (b, sessionID :: authorized, rejected)
    | none =>
      let (b, authorized, rejected) := b.creditDones writerID now dones
      (b, authorized, ev :: rejected)

/-- Who is told about the change, and how. -/
def boardNotices (b : OrchestrationBoard) (writer : BoardWriter) (writerID : ℕ) : List (ℕ × List Char) :=
  let updatedBy := if writer.role = [] then "unknown".toList else writer.role
  (b.sessions.filter fun id => !(writerID ≠ 0 && id = writerID)).map fun id =>
    (id, "\n[orchestration] board updated by ".toList ++ updatedBy ++ ": ".toList ++ b.path ++ ['\n'])

end OrchestrationBoard

/-- What a poll does outside of the board. -/
structure BoardOutcome where
  notices : List (ℕ × List Char)
  rejected : List BoardDoneEvent
  authorized : List ℕ
  deriving DecidableEq, Repr

def handleBoardChange (b : OrchestrationBoard) (size mod : ℕ) (text : List Char) (now : ℕ) :
    OrchestrationBoard × BoardOutcome :=
  let dones := detectBoardDoneEvents text
  let writer := detectLastBoardWriter text
  let writerID := b.resolveBoardWriter writer
  let (b, authorized, rejected) := (b.touch writer writerID size mod now).creditDones writerID now dones
  (b, ⟨b.boardNotices writer writerID, rejected, authorized⟩)

example : detectBoardDoneEvents
    "## implementer session=10 x\nbody\n## DONE implementer session=10\n".toList =
      [⟨"implementer".toList, 10⟩] := by decide

end ManyAiCli.Hub
