import ManyAiCli.Text.Blocks
import ManyAiCli.Text.Strings
import ManyAiCli.Wrapper.TrimSpace

/-! The numbers of added and removed lines of a commit. They stand next to the path of the file,
and a file that was moved has both paths there, with what they share written once. -/

namespace ManyAiCli.Hub.GitNumstat

open Text Wrapper

def slash : UInt8 := 0x2F

def lBrace : UInt8 := 0x7B

def rBrace : UInt8 := 0x7D

def tab : UInt8 := 0x09

def carriageReturn : UInt8 := 0x0D

def arrow : Bytes := ascii " => "

/-! ### The new path -/

def slashes (t : Bytes) : Option ℕ := if [slash, slash] <+: t then some 2 else none

/-- Slash by slash, until no two are next to each other; one round for each byte is enough. -/
def foldSlashes : ℕ → Bytes → Bytes
  | 0, result => result
  | rounds + 1, result =>
    if [slash, slash] <:+: result then foldSlashes rounds (replaceAll slashes [slash] 0 result) else result

def trimSlash (s : Bytes) : Bytes := if [slash] <:+ s then s.dropLast else s

def cleanPath (result : Bytes) : Bytes := trimSlash (foldSlashes result.length result)

/-- The first brace of either kind, in this order. -/
def bracePair (path : Bytes) : Option (ℕ × ℕ) :=
  match index [lBrace] path, index [rBrace] path with
  | some l, some r => if l < r then some (l, r) else none
  | _, _ => none

def between (path : Bytes) (l r : ℕ) : Bytes := (path.drop (l + 1)).take (r - l - 1)

def gitNumstatRestoreRenamePath (path : Bytes) : Bytes :=
  match bracePair path with
  | some (l, r) =>
    let inner := between path l r
    match index arrow inner with
    | none => path
    | some arrowIdx =>
      let newSeg := trimSpaceBytes (inner.drop (arrowIdx + 4))
      cleanPath (path.take l ++ newSeg ++ path.drop (r + 1))
  | none =>
    match lastIndex arrow path with
    | some idx => trimSpaceBytes (path.drop (idx + 4))
    | none => path

/-! ### The numbers -/

structure NumstatEntry where
  added : ℤ
  removed : ℤ
  deriving DecidableEq, Repr

def maxInt : ℤ := 9223372036854775807

/-- `strconv.Atoi` with its error left aside: what is too large is the bound, no number is zero. -/
def atoiValue (s : Bytes) : ℤ :=
  let v := match s.map fun b => Char.ofNat b.toNat with
    | '-' :: ds => (digitsValue ds).map (-·)
    | '+' :: ds => digitsValue ds
    | ds => digitsValue ds
  max (-maxInt - 1) (min maxInt (v.getD 0))

/-- `strings.SplitN` at tabs, with three parts. -/
def tabFields (line : Bytes) : Option (Bytes × Bytes × Bytes) :=
  match line.splitOn tab with
  | added :: removed :: path :: more => some (added, removed, [tab].intercalate (path :: more))
  | _ => none

def dropCarriageReturns (s : Bytes) : Bytes := s.rdropWhile (· = carriageReturn)

/-- What a line enters; a later line of the same path stands before it. -/
def numstatLine (line : Bytes) : Option (Bytes × NumstatEntry) :=
  let line := dropCarriageReturns line
  if line = [] then none
  else (tabFields line).map fun (added, removed, path) =>
    (gitNumstatRestoreRenamePath (dropCarriageReturns path), ⟨atoiValue added, atoiValue removed⟩)

def parseNumstatRaw (raw : Bytes) : List (Bytes × NumstatEntry) :=
  ((raw.splitOn newline).filterMap numstatLine).reverse

structure GitShowFile where
  status : Bytes
  path : Bytes
  added : ℤ
  removed : ℤ
  diff : Bytes

def applyNumstat (files : List GitShowFile) (raw : Bytes) : List GitShowFile :=
  let m := parseNumstatRaw raw
  files.map fun file =>
    match m.lookup file.path with
    | some v => { file with added := v.added, removed := v.removed }
    | none => file

/-! ### What git writes -/

def commonPrefix : Bytes → Bytes → Bytes
  | a :: as, b :: bs => if a = b then a :: commonPrefix as bs else []
  | _, _ => []

/-- The longest that ends at a slash. -/
def slashPrefix (a b : Bytes) : Bytes := (commonPrefix a b).rdropWhile (· ≠ slash)

/-- The longest common one that begins at a slash. -/
def slashSuffix (a b : Bytes) : Bytes := (slashPrefix a.reverse b.reverse).reverse

structure Rename where
  old : Bytes
  new : Bytes

namespace Rename

variable (r : Rename)

def pre : Bytes := slashPrefix r.old r.new

/-- What the suffix may be taken from. It may share the last slash of the prefix. -/
def sharing (path : Bytes) : Bytes := path.drop (r.pre.length - 1)

def suf : Bytes := slashSuffix (r.sharing r.old) (r.sharing r.new)

/-- Between the two, or nothing where they share a slash. -/
def middle (path : Bytes) : Bytes := (path.drop r.pre.length).take (path.length - r.pre.length - r.suf.length)

def line : Bytes :=
  if r.pre = [] ∧ r.suf = [] then r.middle r.old ++ arrow ++ r.middle r.new
  else r.pre ++ [lBrace] ++ r.middle r.old ++ arrow ++ r.middle r.new ++ [rBrace] ++ r.suf

end Rename

/-- Written within quotes. -/
def IsQuoted (b : UInt8) : Prop := b < 0x20 ∨ b = 0x22 ∨ b = 0x5C ∨ b = 0x7F

instance : DecidablePred IsQuoted := fun b => inferInstanceAs (Decidable (b < 0x20 ∨ b = 0x22 ∨ b = 0x5C ∨ b = 0x7F))

structure IsPath (path : Bytes) : Prop where
  components : ∀ c ∈ path.splitOn slash, c ≠ []
  unquoted : ∀ b ∈ path, ¬ IsQuoted b

namespace Rename

/-- No brace before the notation's own, its arrow is the first one after that, and braces in the new middle
are only at its end, after no white space. -/
def BracedDecodes (r : Rename) : Prop :=
  (lBrace ∉ r.pre ∧ rBrace ∉ r.pre) ∧ rBrace ∉ r.middle r.old ∧ ¬ arrow <:+: r.middle r.old ++ ascii " =>" ∧
    (∀ b ∈ (r.middle r.new).dropWhile (· ≠ rBrace), b = rBrace) ∧
    trimSpaceBytes ((r.middle r.new).takeWhile (· ≠ rBrace)) = (r.middle r.new).takeWhile (· ≠ rBrace)

/-- No pair of braces, the arrow is the last one, and no white space around the new path. -/
def PlainDecodes (r : Rename) : Prop :=
  bracePair r.line = none ∧ ¬ arrow <:+: 0x20 :: r.new ∧ trimSpaceBytes r.new = r.new

instance (r : Rename) : Decidable r.BracedDecodes := inferInstanceAs (Decidable ((_ ∧ _) ∧ _ ∧ _ ∧ _ ∧ _))

instance (r : Rename) : Decidable r.PlainDecodes := inferInstanceAs (Decidable (_ ∧ _ ∧ _))

def Decodes (r : Rename) : Prop := if r.pre = [] ∧ r.suf = [] then r.PlainDecodes else r.BracedDecodes

instance (r : Rename) : Decidable r.Decodes :=
  inferInstanceAs (Decidable (if r.pre = [] ∧ r.suf = [] then r.PlainDecodes else r.BracedDecodes))

end Rename

/-- An arrow in the first pair of braces, or anywhere if there is none. -/
def LooksRenamed (path : Bytes) : Prop :=
  match bracePair path with
  | some (l, r) => arrow <:+: between path l r
  | none => arrow <:+: path

end ManyAiCli.Hub.GitNumstat
