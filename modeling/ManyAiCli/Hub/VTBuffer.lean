import ManyAiCli.Text.Strings

/-! The Hub's mirror of a provider's terminal: a grid of runes with a cursor, fed
with the raw bytes of the PTY. A write may stop inside an escape sequence, a
string sequence or a rune, so each of these is carried over to the next write. -/

namespace ManyAiCli.Hub

open Text

def defaultVTCols : ℤ := 200

def defaultVTRows : ℤ := 50

/-- Length above which an unterminated escape sequence is dropped. -/
def maxEscapeSeqBytes : ℕ := 256

/-- Bytes skipped in a string sequence before it counts as unterminated. -/
def maxStringSeqSkipBytes : ℕ := 1 <<< 20

/-- The escape byte. -/
abbrev escByte : UInt8 := 0x1B

structure VTBuffer where
  cols : ℤ
  rows : ℤ
  cells : List (List Char)
  row : ℤ
  col : ℤ
  savedRow : ℤ
  savedCol : ℤ
  utf8Pending : List UInt8
  esc : List UInt8
  inOSC : Bool
  inStringSeq : Bool
  stringSeqSkipBytes : ℕ
  deriving DecidableEq, Repr

def clampInt (v lo hi : ℤ) : ℤ :=
  if hi < lo then lo else if v < lo then lo else if v > hi then hi else v

/-- `]`, `P`, `X`, `^` and `_` open a payload that is skipped to its terminator. -/
def isStringSequenceIntroducer (c : UInt8) : Bool :=
  c = 0x5D || c = 0x50 || c = 0x58 || c = 0x5E || c = 0x5F

namespace VTBuffer

def blankLine (cols : ℤ) : List Char := List.replicate cols.toNat ' '

def cellAt (b : VTBuffer) (r c : ℕ) : Char := ((b.cells[r]?.getD [])[c]?).getD ' '

def resize (b : VTBuffer) (cols rows : ℤ) : VTBuffer :=
  let cols := if cols ≤ 0 then defaultVTCols else cols
  let rows := if rows ≤ 0 then defaultVTRows else rows
  let copyRows := min rows b.rows
  let copyCols := min cols b.cols
  { b with
    cols := cols
    rows := rows
    cells := (List.range rows.toNat).map fun r : ℕ => (List.range cols.toNat).map fun c : ℕ =>
      if (r : ℤ) < copyRows ∧ (c : ℤ) < copyCols then b.cellAt r c else ' '
    row := clampInt b.row 0 (rows - 1)
    col := clampInt b.col 0 (cols - 1)
    savedRow := clampInt b.savedRow 0 (rows - 1)
    savedCol := clampInt b.savedCol 0 (cols - 1) }

/-- The zero value of the Go structure. -/
def zero : VTBuffer := ⟨0, 0, [], 0, 0, 0, 0, [], [], false, false, 0⟩

end VTBuffer

def newVTBuffer (cols rows : ℤ) : VTBuffer :=
  let cols := if cols ≤ 0 then defaultVTCols else cols
  let rows := if rows ≤ 0 then defaultVTRows else rows
  VTBuffer.zero.resize cols rows

namespace VTBuffer

def reset (b : VTBuffer) : VTBuffer := newVTBuffer b.cols b.rows

/-! ### Drawing -/

def clearRow (b : VTBuffer) (row first last : ℤ) : VTBuffer :=
  if row < 0 ∨ row ≥ b.rows then b else
  let first := clampInt first 0 (b.cols - 1)
  let last := clampInt last 0 (b.cols - 1)
  { b with cells := b.cells.modify row.toNat fun line =>
      line.mapIdx fun c x => if first ≤ c ∧ c ≤ last then ' ' else x }

/-- Clear the whole rows from `first` up to `last`, which is left out. -/
def clearRows (b : VTBuffer) (first last : ℤ) : VTBuffer :=
  (List.range (last - first).toNat).foldl
    (fun b (i : ℕ) => b.clearRow (first + (i : ℤ)) 0 (b.cols - 1)) b

def clearAll (b : VTBuffer) : VTBuffer := b.clearRows 0 b.rows

def eraseDisplay (b : VTBuffer) (mode : ℤ) : VTBuffer :=
  if mode = 1 then (b.clearRows 0 b.row).clearRow b.row 0 b.col
  else if mode = 2 ∨ mode = 3 then { b.clearAll with row := 0, col := 0 }
  else (b.clearRow b.row b.col (b.cols - 1)).clearRows (b.row + 1) b.rows

def eraseLine (b : VTBuffer) (mode : ℤ) : VTBuffer :=
  if mode = 1 then b.clearRow b.row 0 b.col
  else if mode = 2 then b.clearRow b.row 0 (b.cols - 1)
  else b.clearRow b.row b.col (b.cols - 1)

/-- Down one row; on the last row the screen scrolls. -/
def newLine (b : VTBuffer) : VTBuffer :=
  if b.row + 1 < b.rows then { b with row := b.row + 1 }
  else { b with cells := b.cells.drop 1 ++ [blankLine b.cols], row := b.rows - 1 }

def setCell (b : VTBuffer) (row col : ℤ) (r : Char) : VTBuffer :=
  { b with cells := b.cells.modify row.toNat fun line => line.set col.toNat r }

def writeRune (b : VTBuffer) (r : Char) : VTBuffer :=
  if r = '\r' then { b with col := 0 }
  else if r = '\n' then b.newLine
  else if r = '\x08' then (if b.col > 0 then { b with col := b.col - 1 } else b)
  else if r = '\t' then { b with col := clampInt (wrap64 ((b.col / 8 + 1) * 8)) 0 (b.cols - 1) }
  else if r.toNat < 0x20 then b
  else
    let b := b.setCell b.row b.col r
    if b.col + 1 ≥ b.cols then ({ b with col := 0 }).newLine else { b with col := b.col + 1 }

/-! ### Escape sequences -/

def parseCSIParams (body : List Char) : List ℤ :=
  if body = [] then [] else
  (body.splitOn ';').map fun part => (atoi (trimSpace part)).getD 0

/-- Parameter `idx`, where a missing or zero one reads as `dflt`. -/
def param (params : List ℤ) (idx : ℕ) (dflt : ℤ) : ℤ :=
  match params[idx]? with
  | none => dflt
  | some n => if n = 0 then dflt else n

def escapeComplete (b : VTBuffer) : Bool :=
  match b.esc with
  | _ :: c :: rest =>
    if c ≠ 0x5B then
      -- `(`, `)`, `*` and `+` take one more byte
      if c = 0x28 || c = 0x29 || c = 0x2A || c = 0x2B then 1 ≤ rest.length else true
    else
      match rest.getLast? with
      | none => false
      | some ch => 0x40 ≤ ch && ch ≤ 0x7E
  | _ => false

/-- A control sequence `ESC [ body final`. -/
def controlSequence (b : VTBuffer) (body : List Char) (final : Char) : VTBuffer :=
  let isPrivate := body.head? = some '?'
  let params := parseCSIParams (if isPrivate then body.tail else body)
  let p := param params
  match final with
  | 'A' => { b with row := clampInt (wrap64 (b.row - p 0 1)) 0 (b.rows - 1) }
  | 'B' => { b with row := clampInt (wrap64 (b.row + p 0 1)) 0 (b.rows - 1) }
  | 'C' => { b with col := clampInt (wrap64 (b.col + p 0 1)) 0 (b.cols - 1) }
  | 'D' => { b with col := clampInt (wrap64 (b.col - p 0 1)) 0 (b.cols - 1) }
  | 'G' => { b with col := clampInt (wrap64 (p 0 1 - 1)) 0 (b.cols - 1) }
  | 'H' | 'f' => { b with
      row := clampInt (wrap64 (p 0 1 - 1)) 0 (b.rows - 1)
      col := clampInt (wrap64 (p 1 1 - 1)) 0 (b.cols - 1) }
  | 'J' => b.eraseDisplay (p 0 0)
  | 'K' => b.eraseLine (p 0 0)
  | 's' => { b with savedRow := b.row, savedCol := b.col }
  | 'u' => { b with row := b.savedRow, col := b.savedCol }
  | 'h' | 'l' =>
    if isPrivate ∧ params.head? = some 1049 then { b.clearAll with row := 0, col := 0 } else b
  | _ => b

def processEscape (b : VTBuffer) (seq : List UInt8) : VTBuffer :=
  match seq with
  | [0x1B, 0x37] => { b with savedRow := b.row, savedCol := b.col }
  | [0x1B, 0x38] => { b with row := b.savedRow, col := b.savedCol }
  | 0x1B :: 0x5B :: c :: rest =>
    let bs := c :: rest
    b.controlSequence (runes bs.dropLast) (Char.ofNat (bs.getLast (by simp [bs])).toNat)
  | _ => b

/-! ### Writing -/

def inString (b : VTBuffer) : Bool := b.inOSC || b.inStringSeq

/-- Leave the string sequence being skipped. An OSC is looked at first. -/
def endString (b : VTBuffer) : VTBuffer :=
  if b.inOSC then { b with inOSC := false, stringSeqSkipBytes := 0 }
  else { b with inStringSeq := false, stringSeqSkipBytes := 0 }

/-- Count one skipped byte; past the limit the sequence counts as unterminated
and is left. -/
def skipByte (b : VTBuffer) : VTBuffer :=
  let b := { b with stringSeqSkipBytes := b.stringSeqSkipBytes + 1 }
  if b.stringSeqSkipBytes > maxStringSeqSkipBytes then b.endString else b

/-- One byte of a skipped payload. `BEL` ends it, and `ESC \` does when both
bytes are in the chunk at hand. -/
def skipString (b : VTBuffer) (c : UInt8) (rest : List UInt8) : VTBuffer × List UInt8 :=
  if c = 0x07 then (b.endString, rest)
  else if c = escByte ∧ rest.head? = some 0x5C then (b.endString, rest.tail)
  else (b.skipByte, rest)

/-- One byte more of the escape sequence being collected. -/
def extendEscape (b : VTBuffer) (c : UInt8) : VTBuffer :=
  let b := { b with esc := b.esc ++ [c] }
  if b.esc[0]? = some escByte ∧ b.esc[1]? = some 0x5D then
    { b with esc := [], inOSC := true, stringSeqSkipBytes := 0 }
  else if b.esc[0]? = some escByte ∧ b.esc[1]?.map isStringSequenceIntroducer = some true then
    { b with esc := [], inStringSeq := true, stringSeqSkipBytes := 0 }
  else if b.escapeComplete then { b.processEscape b.esc with esc := [] }
  else if b.esc.length > maxEscapeSeqBytes then { b with esc := [] }
  else b

/-- One turn of the loop of `Write` on the bytes `c :: rest`: the buffer after
it and the bytes left. -/
def writeOne (b : VTBuffer) (c : UInt8) (rest : List UInt8) : VTBuffer × List UInt8 :=
  if b.inString then b.skipString c rest
  else if b.esc ≠ [] then (b.extendEscape c, rest)
  else if c = escByte then ({ b with esc := [escByte] }, rest)
  else
    let (r, size) := decodeRune (c :: rest)
    if r = runeError ∧ size = 1 ∧ fullRune (c :: rest) = false then
      ({ b with utf8Pending := c :: rest }, [])
    else (b.writeRune r, (c :: rest).drop size)

/-- `n` turns of the loop, fewer when the bytes run out. -/
def writeLoop : ℕ → VTBuffer → List UInt8 → VTBuffer
  | 0, b, _ => b
  | _, b, [] => b
  | n + 1, b, c :: rest => writeLoop n (b.writeOne c rest).1 (b.writeOne c rest).2

/-- The loop of `Write`: each turn takes a byte at least. -/
def writeAll (b : VTBuffer) (buf : List UInt8) : VTBuffer := writeLoop buf.length b buf

def write (b : VTBuffer) (data : List UInt8) : VTBuffer :=
  if data = [] then b
  else writeAll { b with utf8Pending := [] } (b.utf8Pending ++ data)

def lines (b : VTBuffer) : List (List Char) := b.cells.map (trimRight (· = ' '))

def tailLines (b : VTBuffer) (n : ℕ) : List (List Char) :=
  if n = 0 ∨ n ≥ b.lines.length then b.lines else b.lines.drop (b.lines.length - n)

end VTBuffer

/-- The buffers of a running Hub. -/
inductive VTReachable : VTBuffer → Prop
  | new (cols rows : ℤ) : VTReachable (newVTBuffer cols rows)
  | write {b : VTBuffer} (h : VTReachable b) (data : List UInt8) : VTReachable (b.write data)
  | resize {b : VTBuffer} (h : VTReachable b) (cols rows : ℤ) : VTReachable (b.resize cols rows)
  | reset {b : VTBuffer} (h : VTReachable b) : VTReachable b.reset

example : ((newVTBuffer 8 1).write [0x6F, 0x6B, 0x1B, 0x5B, 0x31, 0x47, 0x4F]).lines = [['O', 'k']] := by
  decide

end ManyAiCli.Hub
