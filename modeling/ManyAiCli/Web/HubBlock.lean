import ManyAiCli.Text.Blocks
import ManyAiCli.Web.UngluedLines

/-! The block of an approval that an agent prints between its markers: the question blocks of the
documented layout, a yes/no question, or a choice of several options. Are the questions of a block read
as they were asked? -/

namespace ManyAiCli.Web.HubBlock

open Text (BlockMarks cutAll replaceAll)
open UngluedLines

/-! ### Line expressions

All are tried on trimmed lines, where `\s*$` is the end. -/

/-- What `.` does not match. -/
def isLineEnd (u : UInt16) : Bool := among "\n\r\u2028\u2029" u

/-- `(.+?)\s*$`. -/
def whole (s : Line) : Option Line := if s ≠ [] ∧ s.all (!isLineEnd ·) then some s else none

/-- `[ \t]*`. -/
def dropBlanks (s : Line) : Line := s.dropWhile (among " \t")

/-- `/^(\d+)\.\s*(.+?)\s*$/`. -/
def optionHere (line : Line) : Option (ℕ × Line) :=
  let ds := line.takeWhile isDigit
  match ds, line.drop ds.length with
  | _ :: _, u :: s => if u = unit '.' then (whole (s.dropWhile isSpace)).map (value ds, ·) else none
  | _, _ => none

/-- `/^(\d{1,2})[ \t]{2,}(\S.*?)\s*$/`. -/
def dotlessOptionHere (line : Line) : Option (ℕ × Line) :=
  let ds := line.takeWhile isDigit
  let rest := line.drop ds.length
  let label := dropBlanks rest
  if ds ≠ [] ∧ ds.length ≤ 2 ∧ 2 ≤ (rest.takeWhile (among " \t")).length ∧ ¬ label.head?.any isSpace then
    (whole label).map (value ds, ·)
  else none

/-- `[ \t]*[.:：]?[ \t]*(\S.*?)\s*$`. -/
def titleHere (s : Line) : Option Line :=
  match dropBlanks s with
  | [] => none
  | u :: rest =>
    let after := dropBlanks rest
    if among ".:：" u ∧ after ≠ [] ∧ ¬ after.head?.any isSpace then whole after
    else if isSpace u then none
    -- A separator without a title behind it is the title.
    else whole (u :: rest)

/-- `[ \t]*(\d+)[ \t]*[.:：]?[ \t]*(\S.*?)\s*$`. -/
def questionHeading (s : Line) : Option (ℕ × Line) :=
  let s := dropBlanks s
  let ds := s.takeWhile isDigit
  match titleHere (s.drop ds.length) with
  | some title => if ds = [] then none else some (value ds, title)
  | none =>
    -- Of two digits the last one can be the title's first character.
    if 2 ≤ ds.length then
      (whole (s.drop (ds.length - 1))).map (value (ds.take (ds.length - 1)), ·)
    else none

/-- `(\d+)[ \t]*[.:：]?[ \t]+(.+?)\s*$`. -/
def numberHeading (line : Line) : Option (ℕ × Line) :=
  let ds := line.takeWhile isDigit
  let rest := line.drop ds.length
  if ds = [] then none
  else
    match dropBlanks rest with
    | [] => none
    | u :: after =>
      if among ".:：" u ∧ after.head?.any (among " \t") then (whole (dropBlanks after)).map (value ds, ·)
      else if rest.head?.any (among " \t") then (whole (u :: after)).map (value ds, ·)
      else none

/-- `headingRe`. -/
def headingHere : Line → Option (ℕ × Line)
  | [] => none
  | u :: s => if among "QqＱｑ" u then questionHeading s else numberHeading (u :: s)

/-- `/^#multi\b[ \t]*(.*)$/i`: the question, trimmed. -/
def multiSelectDirective (line : Line) : Option Line := do
  let s ← strip (units "#multi") line
  let question := dropBlanks s
  if ¬ s.head?.any isWord ∧ question.all (!isLineEnd ·) then some (trim question) else none

/-- `/^N\.\s*(?:user specifies|その他指定)/i`. -/
def userSpecifiesLine (line : Line) : Bool :=
  match strip (units "N.") line with
  | none => false
  | some s =>
    let s := s.dropWhile isSpace
    (strip (units "user specifies") s).isSome || (strip (units "その他指定") s).isSome

/-! ### Yes or no -/

/-- Characters of these classes, with white space between. -/
def spacedHere : List String → Line → Bool
  | [], _ => true
  | _ :: _, [] => false
  | chars :: rest, u :: s => among chars u && spacedHere rest (s.dropWhile isSpace)

/-- `yesNoApprovalMarkerRe`. -/
def yesNoMarker : List String := ["（(", "YＹyｙ", ":：", "1", "/／", "NＮnｎ", ":：", "0", "）)"]

/-- Where the marker is. Two of them do not overlap, as each has one opening bracket. -/
def yesNoMarkers (text : Line) : List ℕ :=
  (List.range text.length).filter fun i => spacedHere yesNoMarker (text.drop i)

def hasYesNoApprovalMarker (text : Line) : Bool := yesNoMarkers text ≠ []

/-- `replace(/\s+/g, ' ')`. -/
def collapse (s : Line) : Line :=
  replaceAll (fun s => some (s.takeWhile isSpace).length) (units " ") 0 s

/-- The markers of a block. -/
def opening : Line := units "[MANY-AI-CLI]"

def closing : Line := units "[/MANY-AI-CLI]"

/-- The length of a marker that stands here. -/
def markerLength (s : Line) : Option ℕ :=
  if opening.isPrefixOf s then some opening.length
  else if closing.isPrefixOf s then some closing.length else none

def yesNoQuestionText (text : Line) : Line :=
  match (yesNoMarkers text).getLast? with
  | none => []
  | some i => trim (collapse (cutAll markerLength 0 (text.take i)))

/-- `/^question\s*\d*\s*[?？]$/i`. -/
def isPlaceholderYesNoQuestion (text : Line) : Bool :=
  match strip (units "question") (yesNoQuestionText text) with
  | none => false
  | some s =>
    match ((s.dropWhile isSpace).dropWhile isDigit).dropWhile isSpace with
    | [u] => among "?？" u
    | _ => false

/-- `slice(-200)`. -/
def yesNoCtxFromText (text : Line) : Line := (yesNoQuestionText text).rtake 200

/-- A 32-bit number, which the source writes to base 36. -/
def approvalCtxHash (s : Line) : UInt32 :=
  (trim (collapse s)).foldl (fun h u => (h <<< 5) + h + u.toUInt32) 5381

/-! ### Blocks -/

structure Choice where
  num : ℕ
  label : Line
  shortLabel : Option Line := none
  deriving DecidableEq

structure Section where
  num : ℕ
  title : Line
  options : List Choice := []
  freeInput : Bool := false
  deriving DecidableEq

/-- What a block asks. -/
inductive Form
  /-- Yes or no: the hash of the context, if there is one, and the question. -/
  | yesNo (ctx : Option UInt32) (question : Line)
  | multiSelect (question : Line) (options : List Choice)
  | batch (sections : List Section)
  | options (options : List Choice) (freeInput : Bool) (question : Line)
  deriving DecidableEq

structure Parsed where
  form : Form
  preamble : Line
  deriving DecidableEq

/-- The short label, if any, and the label. -/
def splitShortLabel (label : Line) : Option Line × Line :=
  match label with
  | [] => (none, [])
  | u :: s =>
    let inner := s.takeWhile fun u => !among "[]" u
    let body := (s.drop (inner.length + 1)).dropWhile isSpace
    if u = unit '[' ∧ inner ≠ [] ∧ inner.length ≤ 12 ∧ (s.drop inner.length).head? = some (unit ']') then
      match whole body with
      | some body => (some (trim inner), trim body)
      | none => (none, trim label)
    else (none, trim label)

/-- An option as a section has it; an empty short label is none. -/
def choice (num : ℕ) (label : Line) : Choice :=
  let split := splitShortLabel (trim label)
  ⟨num, split.2, split.1.filter (· ≠ [])⟩

/-- `line.match(optionRe) || line.match(dotlessOptionRe)`. -/
def optionOf (line : Line) : Option (ℕ × Line) := optionHere line <|> dotlessOptionHere line

/-- A text and its next piece on a line of its own. -/
def joined (text line : Line) : Line := trim (collapse (text ++ line))

def Choice.join (line : Line) (c : Choice) : Choice := { c with label := joined c.label line }

/-- The last option goes on. -/
def joinLast (line : Line) (options : List Choice) : List Choice :=
  options.dropLast ++ (options.getLast?.map (Choice.join line)).toList

/-! ### `parseHubBlock` -/

def newline : UInt16 := unit '\n'

def joinLines (lines : List Line) : Line := [newline].intercalate lines

/-- The first line that is no preamble. -/
def startsBlock (raw : Line) : Bool :=
  let line := trim raw
  (optionHere line).isSome || (dotlessOptionHere line).isSome || (headingHere line).isSome ||
    (multiSelectDirective line).isSome || hasYesNoApprovalMarker line

/-- The lines in front, and whether the rest goes without them: blank ones stay. -/
def preambleOf (lines : List Line) : List Line × List Line :=
  let front := lines.takeWhile (!startsBlock ·)
  let preamble := (front.map trim).filter (· ≠ [])
  (preamble, if preamble = [] then lines else lines.drop front.length)

/-- The variables of the loop that looks for a choice of several options. -/
structure MultiScan where
  question : Option Line := none
  options : List Choice := []
  /-- A line may go on with the last option. -/
  goesOn : Bool := false

def MultiScan.step (s : MultiScan) (raw : Line) : MultiScan :=
  let line := trim raw
  if line = [] then s
  else
    match multiSelectDirective line with
    | some question => { s with question := some question, goesOn := false }
    | none =>
      match optionOf line with
      | some (num, label) => { s with options := s.options ++ [⟨num, trim label, none⟩], goesOn := true }
      | none =>
        if userSpecifiesLine line then { s with goesOn := false }
        else if s.goesOn then { s with options := joinLast line s.options }
        else s

/-- The variables of the main loop: the sections that are done and the current one. -/
structure Scan where
  done : List Section := []
  cur : Option Section := none
  loose : List Choice := []
  /-- A line may go on with the last option. -/
  goesOn : Bool := false
  freeInput : Bool := false
  question : List Line := []

def Scan.step (s : Scan) (raw : Line) : Scan :=
  let line := trim raw
  if line = [] then s
  else
    match optionOf line with
    | some (num, label) =>
      let c := choice num label
      match s.cur with
      | some cur => { s with cur := some { cur with options := cur.options ++ [c] }, goesOn := true }
      | none => { s with loose := s.loose ++ [c], goesOn := true }
    | none =>
      match headingHere line with
      | some (num, title) =>
        { s with done := s.done ++ s.cur.toList, cur := some { num, title := trim title }, goesOn := false }
      | none =>
        if userSpecifiesLine line then
          match s.cur with
          | some cur => { s with cur := some { cur with freeInput := true }, goesOn := false }
          | none => { s with freeInput := true, goesOn := false }
        else
          match s.cur, s.goesOn with
          | some cur, true => { s with cur := some { cur with options := joinLast line cur.options } }
          | some cur, false => { s with cur := some { cur with title := joined cur.title line } }
          | none, true => { s with loose := joinLast line s.loose }
          | none, false => { s with question := s.question ++ [line] }

/-- The question above loose options. -/
def Scan.looseQuestion (s : Scan) : Line := trim (collapse ([unit ' '].intercalate s.question))

/-- What the main loop has found. -/
def Scan.form (s : Scan) : Option Form :=
  match (s.done ++ s.cur.toList).filter (·.options ≠ []) with
  | [] => if s.loose = [] then none else some (.options s.loose s.freeInput s.looseQuestion)
  | [one] => some (.options one.options false [])
  | sections => some (.batch sections)

def formOf (lines questionLines : List Line) : Option Form :=
  let text := joinLines questionLines
  if hasYesNoApprovalMarker text then
    if isPlaceholderYesNoQuestion text then none
    else
      let ctx := yesNoCtxFromText text
      some (.yesNo (if ctx = [] then none else some (approvalCtxHash ctx)) (yesNoQuestionText text))
  else
    let multi := lines.foldl MultiScan.step {}
    match multi.question, multi.options with
    | some question, c :: cs => some (.multiSelect question (c :: cs))
    | _, _ => (lines.foldl Scan.step {}).form

def parseHubBlock (rawLines : List Line) : Option Parsed :=
  let lines := ungluedApprovalLines rawLines
  let (preamble, questionLines) := preambleOf lines
  (formOf lines questionLines).map (⟨·, trim (joinLines preamble)⟩)

/-! ### `extractHubMarkerApproval` -/

theorem notMem_marks : unit '[' ∉ units "MANY-AI-CLI]" ∧ unit '[' ∉ units "/MANY-AI-CLI]" := by decide

theorem marks_differ : ¬ units "MANY-AI-CLI]" <+: units "/MANY-AI-CLI]" ∧
    ¬ units "/MANY-AI-CLI]" <+: units "MANY-AI-CLI]" := by decide

def hubMarks : BlockMarks UInt16 where
  first := unit '['
  openRest := units "MANY-AI-CLI]"
  closeRest := units "/MANY-AI-CLI]"
  first_notMem_open := notMem_marks.1
  first_notMem_close := notMem_marks.2
  open_not_starts := marks_differ.1
  close_not_starts := marks_differ.2

/-- `map(l => l.trim()).filter(Boolean)`. -/
def trimmedLines (lines : List Line) : List Line := (lines.map trim).filter (· ≠ [])

def hasMarker (marker line : Line) : Bool := (Text.index marker line).isSome

/-- The text of a line that has both markers, behind the first opening and before the first closing
one of what is left. -/
def betweenMarkers (line : Line) : Line :=
  let line := (Text.index opening line).elim line fun i => line.drop (i + opening.length)
  trim ((Text.index closing line).elim line line.take)

/-- The loop from the last line back, when the text has no whole block: the lines of one. -/
def linesFromEnd (inner : List Line) (closed : Bool) : List Line → Option (List Line)
  | [] => none
  | line :: before =>
    if hasMarker opening line && hasMarker closing line then some [betweenMarkers line]
    else if hasMarker closing line && !closed then linesFromEnd [] true before
    else if hasMarker opening line && closed then some (trimmedLines inner)
    else linesFromEnd (line :: inner) closed before

/-- The lines of the last block. -/
def blockLines (source : List Line) : Option (List Line) :=
  match (hubMarks.bodies (joinLines source)).getLast? with
  | some body => some (trimmedLines (body.splitOn newline))
  | none => linesFromEnd [] false source.reverse

/-- What is asked, and the hash that all its elements have as `_blockSig`. -/
def extractHubMarkerApproval (source : List Line) : Option (Parsed × UInt32) :=
  (blockLines source).bind fun inner =>
    (parseHubBlock inner).map (·, approvalCtxHash (joinLines inner))

end ManyAiCli.Web.HubBlock
