import ManyAiCli.Text.Blocks
import ManyAiCli.Wrapper.TrimSpace

/-! A commit message by an AI session. The output of the session is collected chunk by chunk until
it has a block between two markers, of which the first line is the subject. A terminal may have
put a marker and the text next to it on one line. -/

namespace ManyAiCli.Hub.CommitMessage

open Text Wrapper

def commitMsgMarkerOpen : Bytes := ascii "[MANY-AI-CLI-COMMIT]"

def commitMsgMarkerClose : Bytes := ascii "[/MANY-AI-CLI-COMMIT]"

def commitMsgScanBufMax : ℕ := 64 * 1024

def gitCommitSubjectMaxLen : ℕ := 200

def gitCommitBodyMaxLen : ℕ := 8192

/-! ### The block in the buffer -/

/-- What a terminal draws in front of a line. -/
def gutters : List Bytes :=
  ['│', '┃', '┆', '┊', '╎', '▏', '|', '⏺', '●', '•', '◦', '·', ' ', '\t'].map String.utf8EncodeChar

def carriageReturn : UInt8 := 0x0D

def cleanTUILine (ln : Bytes) : Bytes := dropEncoded gutters 0 (ln.rdropWhile (· = carriageReturn))

def isOpenLine (line : Bytes) : Bool := commitMsgMarkerOpen.isPrefixOf (trimSpaceBytes line)

/-- The last line that begins with the marker, and the lines after it. -/
def fromLastOpen : List Bytes → Option (Bytes × List Bytes)
  | [] => none
  | line :: lines => (fromLastOpen lines).or (if isOpenLine line then some (line, lines) else none)

/-- The lines before the first one with the marker, and what it has in front of the marker. -/
def upToClose : List Bytes → Option (List Bytes × Bytes)
  | [] => none
  | line :: lines =>
    match index commitMsgMarkerClose line with
    | some idx => some ([], trimSpaceBytes (line.take idx))
    | none => (upToClose lines).map fun (inner, closeLeading) => (line :: inner, closeLeading)

def isBlank (line : Bytes) : Bool := trimSpaceBytes line = []

def joinLines (lines : List Bytes) : Bytes := [newline].intercalate lines

/-- Subject and body of the lines of a block. -/
def subjectAndBody (inner : List Bytes) : Option (Bytes × Bytes) :=
  match (inner.dropWhile isBlank).rdropWhile isBlank with
  | [] => none
  | first :: more =>
    let subject := trimSpaceBytes first
    if subject = [] then none else some (subject, trimSpaceBytes (joinLines more))

def textLines (text : Bytes) : List Bytes := if text = [] then [] else [text]

def extractCommitMarker (buf : Bytes) : Option (Bytes × Bytes) :=
  match fromLastOpen ((buf.splitOn newline).map cleanTUILine) with
  | none => none
  | some (line, lines) =>
    let openRemainder := trimSpaceBytes ((trimSpaceBytes line).drop commitMsgMarkerOpen.length)
    match upToClose lines with
    | none => none
    | some (inner, closeLeading) => subjectAndBody
        (textLines openRemainder ++ inner ++ textLines closeLeading)

/-! ### What is broadcast -/

/-- The offsets at which the runes begin. -/
def runeStarts (s : Bytes) : List ℕ := go s.length 0 s
where
  go : ℕ → ℕ → Bytes → List ℕ
    | 0, _, _ => []
    | _, _, [] => []
    | n + 1, offset, s => offset :: go n (offset + (decodeRune s).2) (s.drop (decodeRune s).2)

def truncateUTF8Bytes (s : Bytes) (max : ℕ) : Bytes :=
  if max = 0 then []
  else if s.length ≤ max then s
  else
    let cut := ((runeStarts s).takeWhile (· ≤ max)).getLast?.getD 0
    if cut = 0 then [] else trimSpaceBytes (s.take cut)

/-- Neither a control character other than a tab and a line end, nor DEL. -/
def isMessageRune (r : Char) : Bool := !((r.toNat < 0x20 && r ≠ '\t' && r ≠ '\n') || r.toNat = 0x7F)

def sanitizeCommitMessage (s : Bytes) (maxLen : ℕ) : Bytes :=
  let s := replaceAll (fun t => if [carriageReturn, newline] <+: t then some 2 else none) [newline] 0 s
  let s := s.map fun b => if b = carriageReturn then newline else b
  let s := ((runes s).filter isMessageRune).flatMap String.utf8EncodeChar
  let s := trimSpaceBytes s
  if maxLen > 0 ∧ s.length > maxLen then truncateUTF8Bytes s maxLen else s

inductive Broadcast
  | error (reason : String)
  | progress
  | suggested (subject body : Bytes)
  deriving DecidableEq, Repr

/-- The fields of a session that are about its commit message. -/
structure Await where
  await : Bool
  deadline : ℕ
  lang : List Char
  buf : Bytes
  progressed : Bool

def commitMsgTimeoutReason (language : List Char) : String :=
  if toLower language = "ja".toList ∨ language = [] then "AI からの応答がタイムアウトしました。"
  else "Timed out waiting for the AI response."

def handleCommitMsgChunk (ses : Await) (now : ℕ) (cleanText : Bytes) : Await × List Broadcast :=
  if !ses.await then (ses, [])
  else if ses.deadline < now then
    ({ ses with await := false, buf := [] }, [.error (commitMsgTimeoutReason ses.lang)])
  else
    let buf := ses.buf ++ cleanText
    let buf := if buf.length > commitMsgScanBufMax then buf.drop (buf.length - commitMsgScanBufMax) else buf
    let progressed := !ses.progressed && trimSpaceBytes cleanText ≠ []
    let ses := { ses with buf := buf, progressed := ses.progressed || progressed }
    match extractCommitMarker buf with
    | none => (ses, if progressed then [.progress] else [])
    | some (subject, body) =>
      ({ ses with await := false, buf := [] },
        [.suggested (sanitizeCommitMessage subject gitCommitSubjectMaxLen)
          (sanitizeCommitMessage body gitCommitBodyMaxLen)])

/-- The chunks with the times at which they come. -/
def handleAll : Await → List (ℕ × Bytes) → List Broadcast
  | _, [] => []
  | ses, (now, cleanText) :: chunks =>
    let (ses, out) := handleCommitMsgChunk ses now cleanText
    out ++ handleAll ses chunks

/-! ### What the session puts out -/

/-- A line of a message: without markers, and what is drawn in front of a line is not its own. -/
structure MessageLine (line : Bytes) : Prop where
  trimmed : trimSpaceBytes line = line
  one : newline ∉ line
  no_gutter : ∀ g ∈ gutters, ¬ g <+: line
  no_open : ¬ commitMsgMarkerOpen <:+: line
  no_close : ¬ commitMsgMarkerClose <:+: line

structure Message where
  subject : Bytes
  body : List Bytes
  subject_ne : subject ≠ []
  subject_line : MessageLine subject
  body_lines : ∀ line ∈ body, MessageLine line

namespace Message

variable (m : Message)

/-- The lines up to the last one of the message, with or without a break after the marker. -/
def openLines (dropFirst : Bool) : List Bytes :=
  if dropFirst then (commitMsgMarkerOpen ++ m.subject) :: m.body
  else commitMsgMarkerOpen :: m.subject :: m.body

/-- Those before the line with the closing marker. -/
def blockLines (dropFirst dropLast : Bool) : List Bytes :=
  if dropLast then (m.openLines dropFirst).dropLast else m.openLines dropFirst

/-- The line with the closing marker, up to it. -/
def closeLine (dropFirst dropLast : Bool) : Bytes :=
  (if dropLast then (m.openLines dropFirst).getLastD [] else []) ++ commitMsgMarkerClose

end Message

/-- As a terminal draws a line. -/
def Drawn (line raw : Bytes) : Prop :=
  ∃ (front : List Bytes) (crs : ℕ), (∀ g ∈ front, g ∈ gutters) ∧ raw = front.flatten ++
    (line ++ List.replicate crs carriageReturn)

/-- A stream with the block of the message. No other line of it begins with the opening marker. -/
structure IsStream (m : Message) (dropFirst dropLast : Bool) (text : Bytes) (before drawn after : List Bytes)
    (front : List Bytes) (tail : Bytes) : Prop where
  text_eq : text = joinLines (before ++ drawn ++
    (front.flatten ++ (m.closeLine dropFirst dropLast ++ tail)) :: after)
  drawn_lines : List.Forall₂ Drawn (m.blockLines dropFirst dropLast) drawn
  front_gutters : ∀ g ∈ front, g ∈ gutters
  tail_one : newline ∉ tail
  others : ∀ line ∈ before ++ after, newline ∉ line ∧ isOpenLine (cleanTUILine line) = false

/-- A session that waits, with nothing read yet. -/
def Await.Fresh (ses : Await) : Prop := ses.await = true ∧ ses.buf = []

def suggestions (out : List Broadcast) : List Broadcast := out.filter fun b => match b with
  | .suggested _ _ => true
  | _ => false

/-- However it is drawn and cut, the message is suggested once. -/
def Suggested (m : Message) (dropFirst dropLast : Bool) : Prop :=
  ∀ text before drawn after front tail, IsStream m dropFirst dropLast text before drawn after front tail →
    text.length ≤ commitMsgScanBufMax →
    ∀ chunks : List (ℕ × Bytes), (chunks.map Prod.snd).flatten = text →
    ∀ ses : Await, ses.Fresh → (∀ chunk ∈ chunks, chunk.1 ≤ ses.deadline) →
      suggestions (handleAll ses chunks) =
        [.suggested (sanitizeCommitMessage m.subject gitCommitSubjectMaxLen)
          (sanitizeCommitMessage (trimSpaceBytes (joinLines m.body)) gitCommitBodyMaxLen)]

end ManyAiCli.Hub.CommitMessage
