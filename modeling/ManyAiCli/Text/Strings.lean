import ManyAiCli.Text.Utf8
import Mathlib.Data.List.DropRight
import Mathlib.Data.List.Infix
import Mathlib.Data.Int.Basic

/-! Go's `strings` and `strconv` functions on text, a text being its list of
runes. White space is `unicode.IsSpace`. -/

namespace ManyAiCli.Text

/-- `unicode.IsSpace`. -/
def isSpace (c : Char) : Bool :=
  let n := c.toNat
  (0x09 ≤ n && n ≤ 0x0D) || n = 0x20 || n = 0x85 || n = 0xA0 || n = 0x1680 ||
    (0x2000 ≤ n && n ≤ 0x200A) || n = 0x2028 || n = 0x2029 || n = 0x202F || n = 0x205F || n = 0x3000

/-- `strings.TrimRightFunc`, `strings.TrimFunc` and `strings.TrimSpace`. -/
def trimRight (p : Char → Bool) (s : List Char) : List Char := s.rdropWhile p

def trim (p : Char → Bool) (s : List Char) : List Char := trimRight p (s.dropWhile p)

def trimSpace (s : List Char) : List Char := trim isSpace s

/-- `strings.ToLower`, as far as the result is compared with ASCII: two letters
outside of ASCII have a lower case in it. -/
def lowerChar (c : Char) : Char :=
  if 'A' ≤ c ∧ c ≤ 'Z' then Char.ofNat (c.toNat + 32)
  else if c = '\u0130' then 'i'
  else if c = '\u212A' then 'k'
  else c

def toLower (s : List Char) : List Char := s.map lowerChar

/-- `strings.Split` at line ends. -/
def splitLines (s : List Char) : List (List Char) := s.splitOn '\n'

/-- `strings.Fields`. -/
def fields (s : List Char) : List (List Char) := (s.splitOnP isSpace).filter (· ≠ [])

/-- `strings.HasPrefix`. -/
def hasPrefix (s pre : List Char) : Bool := pre.isPrefixOf s

/-- `strings.TrimPrefix`. -/
def trimPrefix (s pre : List Char) : List Char := if hasPrefix s pre then s.drop pre.length else s

/-- `strings.HasSuffix`. -/
def hasSuffix (s suf : List Char) : Bool := suf.isSuffixOf s

/-- `strings.Contains`. -/
def contains (s sub : List Char) : Bool := s.tails.any fun t => hasPrefix t sub

theorem contains_iff {s sub : List Char} : contains s sub = true ↔ sub <:+: s := by
  simp [contains, hasPrefix, List.infix_iff_prefix_suffix, and_comm]

/-- `strings.ReplaceAll` by nothing; the first number of runes is gone already. -/
def removeAll (sub : List Char) : ℕ → List Char → List Char
  | _, [] => []
  | skip + 1, _ :: s => removeAll sub skip s
  | 0, c :: s =>
    if hasPrefix (c :: s) sub then removeAll sub (sub.length - 1) s else c :: removeAll sub 0 s

/-- `strings.Join` with line ends. -/
def joinLines (lines : List (List Char)) : List Char := ['\n'].intercalate lines

/-- The runes of a byte string; each invalid byte reads as `runeError`. -/
def runes (bs : List UInt8) : List Char :=
  go bs.length bs
where
  go : ℕ → List UInt8 → List Char
    | 0, _ => []
    | _, [] => []
    | n + 1, p :: ps => (decodeRune (p :: ps)).1 :: go n ((p :: ps).drop (decodeRune (p :: ps)).2)

/-- Value of a non-empty digit string. -/
def digitsValue (s : List Char) : Option ℤ :=
  if s ≠ [] ∧ s.all Char.isDigit then some (s.foldl (fun n c => n * 10 + (c.toNat - 48 : ℕ)) 0) else none

/-- `strconv.Atoi` on a 64-bit platform: an optional sign and decimal digits in
the range of `int64`. -/
def atoi (s : List Char) : Option ℤ :=
  let v := match s with
    | '-' :: ds => (digitsValue ds).map (-·)
    | '+' :: ds => digitsValue ds
    | _ => digitsValue s
  v.filter fun n => -9223372036854775808 ≤ n ∧ n ≤ 9223372036854775807

/-- Two's-complement wrap-around of 64-bit integer arithmetic. -/
def wrap64 (n : ℤ) : ℤ := Int.bmod n 18446744073709551616

end ManyAiCli.Text
