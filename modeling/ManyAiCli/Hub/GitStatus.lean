import ManyAiCli.Wrapper.TrimSpace

/-! The short status of a repository, as git writes it with NULs. A field is an entry, or the
origin of the rename or copy before it. Do the fields keep in step with the entries? -/

namespace ManyAiCli.Hub.GitStatus

open Wrapper (Bytes ascii spaces dropEncoded trimSpaceBytes infix_trimSpaceBytes)

/-! ### The parser -/

structure GitStatusFile where
  status : Bytes
  path : Bytes
  deriving DecidableEq, Repr

def shortStatus (status : Bytes) : Bytes :=
  if status.length > 1 then
    if status = ascii "??" then ascii "??"
    else if status.head? ≠ some 0x20 ∧ status.head? ≠ some 0x3F then status.take 1
    else status.drop 1
  else status

/-- `status` of an entry, without blanks. -/
def statusOf (entry : Bytes) : Bytes :=
  let status := trimSpaceBytes (entry.take 2)
  if status = [] then trimSpaceBytes (entry.take 1) else status

def hasLetter (status : Bytes) (letter : UInt8) : Bool := [letter].isPrefixOf status || status.contains letter

/-- Where the origin follows. -/
def isMoved (status : Bytes) : Bool := hasLetter status 0x52 || hasLetter status 0x43

/-- The loop over the fields; so many of them go without a look. -/
def parseFields : ℕ → List Bytes → List GitStatusFile
  | _, [] => []
  | skip + 1, _ :: entries => parseFields skip entries
  | 0, entry :: entries =>
    if entry.length < 4 then parseFields 0 entries
    else
      let status := statusOf entry
      { status := shortStatus status, path := entry.drop 3 } ::
        parseFields (if isMoved status && entries.head?.any (· ≠ []) then 1 else 0) entries

def parseGitStatusPorcelainZ (raw : Bytes) : List GitStatusFile :=
  if raw = [] then [] else parseFields 0 (raw.splitOn 0)

/-! ### What git writes -/

/-- With `R` or `C` in one of the two letters. -/
def movedCode (x y : UInt8) : Bool := x = 0x52 || x = 0x43 || y = 0x52 || y = 0x43

/-- An entry of git's; no text in it has a NUL. -/
structure StatusEntry where
  x : UInt8
  y : UInt8
  path : Bytes
  orig : Option Bytes
  code_ne : ¬ (x = 0x20 ∧ y = 0x20)
  x_ne : x ≠ 0
  y_ne : y ≠ 0
  path_ne : path ≠ []
  path_clean : 0 ∉ path
  orig_iff : orig.isSome = movedCode x y
  orig_clean : ∀ o ∈ orig, 0 ∉ o

def StatusEntry.field (e : StatusEntry) : Bytes := [e.x, e.y, 0x20] ++ e.path

def StatusEntry.encode (e : StatusEntry) : Bytes :=
  e.field ++ 0 :: (match e.orig with
    | none => []
    | some orig => orig ++ [0])

/-- `git status --porcelain=v1 -z`. -/
def porcelainZ (entries : List StatusEntry) : Bytes := entries.flatMap StatusEntry.encode

def StatusEntry.file (e : StatusEntry) : GitStatusFile where
  status := shortStatus (statusOf [e.x, e.y])
  path := e.path

/-! ### The letters stay -/

variable {b letter : UInt8} {s : Bytes}

/-- A byte that no white space has is trimmed nowhere. -/
theorem mem_trimSpaceBytes_iff (hb : ∀ e ∈ spaces, e ≠ [] ∧ b ∉ e) : b ∈ trimSpaceBytes s ↔ b ∈ s := by
  rw [← List.count_pos_iff, Wrapper.count_trimSpaceBytes hb, List.count_pos_iff]

/-- No white space has an `R` or a `C`. -/
theorem letters_clean : ∀ letter ∈ [(0x52 : UInt8), 0x43], ∀ e ∈ spaces, e ≠ [] ∧ letter ∉ e := by
  decide +kernel

theorem hasLetter_iff {status : Bytes} : hasLetter status letter = true ↔ letter ∈ status := by
  rw [hasLetter, Bool.or_eq_true, List.contains_iff_mem, List.isPrefixOf_iff_prefix]
  constructor
  · rintro (hstarts | hmem)
    · exact hstarts.subset (List.mem_singleton_self letter)
    · exact hmem
  · exact Or.inr

theorem mem_statusOf_iff (hletter : letter ∈ [(0x52 : UInt8), 0x43]) (x y : UInt8) (path : Bytes) :
    letter ∈ statusOf ([x, y, 0x20] ++ path) ↔ letter = x ∨ letter = y := by
  have hclean := letters_clean letter hletter
  have htwo : letter ∈ trimSpaceBytes [x, y] ↔ letter = x ∨ letter = y := by
    rw [mem_trimSpaceBytes_iff hclean, List.mem_pair]
  show letter ∈ (if trimSpaceBytes [x, y] = [] then trimSpaceBytes [x] else trimSpaceBytes [x, y]) ↔ _
  split_ifs with hempty
  · rw [hempty] at htwo
    rw [mem_trimSpaceBytes_iff hclean, List.mem_singleton]
    constructor
    · exact Or.inl
    · intro hxy
      exact absurd (htwo.2 hxy) List.not_mem_nil
  · exact htwo

theorem isMoved_statusOf (x y : UInt8) (path : Bytes) :
    isMoved (statusOf ([x, y, 0x20] ++ path)) = movedCode x y := by
  rw [Bool.eq_iff_iff, isMoved, Bool.or_eq_true, hasLetter_iff, hasLetter_iff]
  rw [mem_statusOf_iff (by decide), mem_statusOf_iff (by decide)]
  simp only [movedCode, Bool.or_eq_true, decide_eq_true_eq, eq_comm (a := x), eq_comm (a := y)]
  tauto

theorem statusOf_field (e : StatusEntry) : statusOf e.field = statusOf [e.x, e.y] := rfl

/-! ### The fields keep in step -/

theorem nul_not_mem_field (e : StatusEntry) : 0 ∉ e.field := by
  intro h
  rcases List.mem_append.1 h with hcode | hpath
  · rcases List.mem_cons.1 hcode with hx | hrest
    · exact e.x_ne hx.symm
    · rcases List.mem_cons.1 hrest with hy | hblank
      · exact e.y_ne hy.symm
      · exact absurd hblank (by decide)
  · exact e.path_clean hpath

theorem field_length (e : StatusEntry) : ¬ e.field.length < 4 := by
  have hpos := List.length_pos_iff.2 e.path_ne
  rw [StatusEntry.field, List.length_append]
  show ¬ 3 + e.path.length < 4
  omega

/-- An entry without an origin takes one field. -/
theorem parseFields_plain (e : StatusEntry) (h : movedCode e.x e.y = false) (entries : List Bytes) :
    parseFields 0 (e.field :: entries) = e.file :: parseFields 0 entries := by
  rw [parseFields, if_neg (field_length e)]
  show _ :: parseFields (if isMoved (statusOf ([e.x, e.y, 0x20] ++ e.path)) && _ then 1 else 0) entries = _
  rw [isMoved_statusOf, h, Bool.false_and, if_neg Bool.false_ne_true]
  rfl

/-- With an origin it takes two, also where the origin is empty. -/
theorem parseFields_moved (e : StatusEntry) (h : movedCode e.x e.y = true) (orig : Bytes)
    (entries : List Bytes) :
    parseFields 0 (e.field :: orig :: entries) = e.file :: parseFields 0 entries := by
  rw [parseFields, if_neg (field_length e)]
  show _ :: parseFields (if isMoved (statusOf ([e.x, e.y, 0x20] ++ e.path)) && decide (orig ≠ []) then 1 else 0)
    (orig :: entries) = _
  rw [isMoved_statusOf, h, Bool.true_and]
  by_cases horig : orig = []
  · subst horig
    rfl
  · rw [if_pos (decide_eq_true horig)]
    rfl

theorem parseFields_encode (e : StatusEntry) (more : Bytes) :
    parseFields 0 ((e.encode ++ more).splitOn 0) = e.file :: parseFields 0 (more.splitOn 0) := by
  have hmoved := e.orig_iff
  have hclean := e.orig_clean
  unfold StatusEntry.encode
  cases horig : e.orig with
  | none =>
    rw [horig] at hmoved
    rw [List.append_assoc, List.cons_append, List.nil_append]
    rw [List.splitOn_append_cons_self_of_not_mem (nul_not_mem_field e)]
    exact parseFields_plain e hmoved.symm _
  | some orig =>
    rw [horig] at hmoved hclean
    rw [List.append_assoc, List.cons_append, List.append_assoc, List.singleton_append]
    rw [List.splitOn_append_cons_self_of_not_mem (nul_not_mem_field e)]
    rw [List.splitOn_append_cons_self_of_not_mem (hclean orig rfl)]
    exact parseFields_moved e hmoved.symm orig _

theorem parse_porcelainZ (entries : List StatusEntry) :
    parseGitStatusPorcelainZ (porcelainZ entries) = entries.map StatusEntry.file := by
  have hfields : parseFields 0 ((porcelainZ entries).splitOn 0) = entries.map StatusEntry.file := by
    induction entries with
    | nil => rfl
    | cons e entries ih =>
      rw [porcelainZ, List.flatMap_cons, parseFields_encode, List.map_cons, ← ih]
      rfl
  rw [parseGitStatusPorcelainZ]
  split_ifs with hempty
  · rw [hempty] at hfields
    exact hfields
  · exact hfields

/-- One file for each entry, in order, with its path. -/
theorem paths_recovered (entries : List StatusEntry) :
    (parseGitStatusPorcelainZ (porcelainZ entries)).map GitStatusFile.path = entries.map StatusEntry.path := by
  rw [parse_porcelainZ, List.map_map]
  rfl

/-- A rename between two other entries. -/
example : parseGitStatusPorcelainZ (ascii " M a\x00R  new\x00old\x00?? b\x00") =
    [⟨ascii "M", ascii "a"⟩, ⟨ascii "R", ascii "new"⟩, ⟨ascii "??", ascii "b"⟩] := by
  decide +kernel

end ManyAiCli.Hub.GitStatus
