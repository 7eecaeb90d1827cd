import ManyAiCli.Text.Parts
import ManyAiCli.Text.Trim
import Mathlib.Data.Char

/-! Paths in a terminal's text (`path-links.ts`): a path relative to a directory, and the path such a
one is of. Does the relative path lead back to the file? -/

namespace ManyAiCli.Web.PathLinks

open Text

abbrev Str := List Char

/-! ### Relative paths -/

/-- `[\\/]`. -/
def isSep (c : Char) : Bool := c = '/' || c = '\\'

/-- `[A-Za-z]`. -/
def isLetter (c : Char) : Bool := 'A' ≤ c && c ≤ 'Z' || 'a' ≤ c && c ≤ 'z'

/-- `/^([A-Za-z]:)[\\/]/`, the letter of it. -/
def driveOf : Str → Option Char
  | c :: colon :: sep :: _ => if isLetter c ∧ colon = ':' ∧ isSep sep then some c else none
  | _ => none

def isUnix (s : Str) : Bool := s.head? = some '/'

def dots : Str := ['.', '.']

/-- The separator of a path. -/
def sepOf (s : Str) : Char := if '\\' ∈ s then '\\' else '/'

/-- The loop over `common`. -/
def common : List Str → List Str → ℕ
  | a :: as, b :: bs => if a = b then common as bs + 1 else 0
  | _, _ => 0

/-- From one list of parts to another. -/
def relParts (src dst : List Str) : List Str :=
  List.replicate (src.length - common src dst) dots ++ dst.drop (common src dst)

/-- `rel || '.'`. -/
def relText (sep : Char) (src dst : List Str) : Str :=
  let rel := [sep].intercalate (relParts src dst)
  if rel = [] then ['.'] else rel

def computeRelPath (src dst : Str) : Str :=
  match driveOf src, driveOf dst with
  | some c, some d =>
    if c.toUpper ≠ d.toUpper then dst else relText (sepOf dst) (parts isSep src) (parts isSep dst)
  | none, none =>
    if isUnix src ≠ isUnix dst then dst else relText (sepOf dst) (parts isSep src) (parts isSep dst)
  | _, _ => dst

/-! ### Joined paths -/

/-- `/^[A-Za-z]:/`. -/
def hasDrive : Str → Bool
  | c :: colon :: _ => isLetter c && colon = ':'
  | _ => false

/-- One turn of the loop over the parts. -/
def pushPart (rooted : Bool) (out : List Str) (part : Str) : List Str :=
  if part = [] ∨ part = ['.'] then out
  else if part = dots ∧ out ≠ [] ∧ out.getLast? ≠ some dots then out.dropLast
  else if part ≠ dots ∨ !rooted then out ++ [part]
  else out

def normalizePathSegments (path : Str) (sep : Char) : Str :=
  let drive := if hasDrive path then path.take 2 else []
  let rest := if hasDrive path then path.drop 2 else path
  let rooted : Bool := rest.head? = some sep
  let out := (rest.splitOnP isSep).foldl (pushPart rooted) []
  drive ++ ((if rooted then [sep] else []) ++ [sep].intercalate out)

def joinPath (base rel : Str) : Str :=
  if base = [] ∨ rel = [] then (if rel = [] then base else rel)
  else
    let sep := sepOf base
    let baseNorm := base.rdropWhile isSep
    normalizePathSegments (baseNorm ++ sep :: (rel.dropWhile isSep).map fun c => if isSep c then sep else c) sep

/-! ### Files -/

inductive Root
  | posix
  | drive (letter : Char)
  | unc
  deriving DecidableEq

/-- The root and the components of an absolute path; a backslash separates them but on POSIX. -/
def fileOf : Str → Option (Root × List Str)
  | '/' :: s => some (.posix, parts (· = '/') s)
  | '\\' :: '\\' :: s => some (.unc, parts isSep s)
  | c :: ':' :: sep :: s => if isLetter c ∧ isSep sep then some (.drive c.toUpper, parts isSep s) else none
  | _ => none

def rootOf (s : Str) : Option Root := (fileOf s).map Prod.fst

/-- An absolute path without `.` and `..`. -/
def IsPath (s : Str) : Prop := ∃ root ps, fileOf s = some (root, ps) ∧ ['.'] ∉ ps ∧ dots ∉ ps

/-- A path with no drive and no separator in front. -/
def IsRelative (r : Str) : Prop := hasDrive r = false ∧ ∀ c ∈ r.head?, isSep c = false

/-- The relative path is one, and is that of the file; or it is the path itself. -/
def LeadsBack (src dst : Str) : Prop :=
  computeRelPath src dst = dst ∨
    IsRelative (computeRelPath src dst) ∧ fileOf (joinPath src (computeRelPath src dst)) = fileOf dst

def KeepsRoot (src : Str) : Prop := ∀ r, r ≠ [] → IsRelative r → rootOf (joinPath src r) = rootOf src

/-- POSIX and without a backslash, or with a drive and after it the separator that the path is
joined with: a backslash, or a slash if the names have no backslash between them. -/
inductive Plain : Str → Prop
  | posix {t : Str} (h : '\\' ∉ t) : Plain ('/' :: t)
  | backslash {c : Char} {t : Str} (hc : isLetter c = true) : Plain (c :: ':' :: '\\' :: t)
  | slash {c : Char} {t : Str} (hc : isLetter c = true) (h : '\\' ∈ t → parts isSep t = []) :
    Plain (c :: ':' :: '/' :: t)

/-- Below the directory, the first name is none that looks like a drive. -/
def NoDriveNext (src dst : Str) : Prop :=
  ∀ next rest, parts isSep dst = parts isSep src ++ next :: rest → hasDrive next = false

/-- Where a relative path is made, the drives are spelled alike, and POSIX names have no backslash. -/
def Relatable (src dst : Str) : Prop :=
  match driveOf src, driveOf dst with
  | some c, some d => c.toUpper = d.toUpper → c = d ∧ NoDriveNext src dst
  | none, none => isUnix src → isUnix dst → '\\' ∉ dst ∧ NoDriveNext src dst
  | _, _ => True

/-! ### Parts of a path -/

theorem pushPart_nil (rooted : Bool) (out : List Str) : pushPart rooted out [] = out := if_pos (.inl rfl)

theorem foldl_pushPart_parts (rooted : Bool) (s : Str) (out : List Str) :
    (s.splitOnP isSep).foldl (pushPart rooted) out = (parts isSep s).foldl (pushPart rooted) out := by
  rw [parts]
  induction s.splitOnP isSep generalizing out with
  | nil => rfl
  | cons part rest ih =>
    by_cases hPart : part = []
    · rw [hPart, List.foldl_cons, pushPart_nil, ih]
      rfl
    · rw [List.foldl_cons, ih, List.filter_cons_of_pos (by simpa using hPart), List.foldl_cons]

/-- What the loop keeps is a part that was there. -/
theorem mem_pushPart {rooted : Bool} {out : List Str} {part q : Str} (h : q ∈ pushPart rooted out part) :
    q ∈ out ∨ q = part ∧ part ≠ [] := by
  rw [pushPart] at h
  split_ifs at h with hSkip hUp
  · exact .inl h
  · exact .inl (List.dropLast_subset _ h)
  · obtain h | h := List.mem_append.1 h
    · exact .inl h
    · exact .inr ⟨List.mem_singleton.1 h, fun he => hSkip (.inl he)⟩
  · exact .inl h

theorem mem_foldl_pushPart {rooted : Bool} {ps out : List Str} {q : Str}
    (h : q ∈ ps.foldl (pushPart rooted) out) :
    q ∈ out ∨ q ∈ ps := by
  induction ps generalizing out with
  | nil => exact .inl h
  | cons part ps ih =>
    obtain h | h := ih h
    · exact (mem_pushPart h).imp_right fun hPart => List.mem_cons.2 (.inl hPart.1)
    · exact .inr (List.mem_cons_of_mem _ h)

/-- Names alone. -/
def Names (ps : List Str) : Prop := ∀ q ∈ ps, IsPart isSep q ∧ q ≠ ['.'] ∧ q ≠ dots

theorem pushPart_name {rooted : Bool} {out : List Str} {q : Str} (hne : q ≠ []) (hDot : q ≠ ['.'])
    (hDots : q ≠ dots) :
    pushPart rooted out q = out ++ [q] := by
  rw [pushPart, if_neg (by simp [hne, hDot]), if_neg (by simp [hDots]), if_pos (.inl hDots)]

theorem foldl_pushPart_names {rooted : Bool} {ps : List Str} (h : Names ps) (out : List Str) :
    ps.foldl (pushPart rooted) out = out ++ ps := by
  induction ps generalizing out with
  | nil => rw [List.foldl_nil, List.append_nil]
  | cons q ps ih =>
    obtain ⟨hPart, hDot, hDots⟩ := h q List.mem_cons_self
    rw [List.foldl_cons, pushPart_name hPart.1 hDot hDots, ih fun r hr => h r (List.mem_cons_of_mem _ hr),
      List.append_assoc, List.singleton_append]

theorem pushPart_dots {out : List Str} (h : dots ∉ out) : pushPart true out dots = out.dropLast := by
  rw [pushPart, if_neg (by decide)]
  cases out with
  | nil => rfl
  | cons first rest =>
    have hLast : (first :: rest).getLast? ≠ some dots := fun he => h (List.mem_of_getLast? he)
    rw [if_pos ⟨rfl, List.cons_ne_nil _ _, hLast⟩]

/-- Upwards, and from the root no further. -/
theorem foldl_pushPart_ups {out : List Str} (h : dots ∉ out) (n : ℕ) :
    (List.replicate n dots).foldl (pushPart true) out = out.take (out.length - n) := by
  induction n generalizing out with
  | zero => simp
  | succ n ih =>
    have hDrop : dots ∉ out.dropLast := fun hMem => h (List.dropLast_subset _ hMem)
    rw [List.replicate_succ, List.foldl_cons, pushPart_dots h, ih hDrop, List.dropLast_eq_take, List.take_take,
      List.length_take]
    congr 1
    omega

/-! ### From one list of names to another -/

theorem common_spec (src dst : List Str) :
    common src dst ≤ src.length ∧ src.take (common src dst) = dst.take (common src dst) := by
  induction src generalizing dst with
  | nil => exact ⟨Nat.le_refl _, by simp [common]⟩
  | cons a src ih =>
    cases dst with
    | nil => exact ⟨Nat.zero_le _, by simp [common]⟩
    | cons b dst =>
      rw [common]
      split_ifs with hab
      · obtain ⟨hle, hTake⟩ := ih dst
        exact ⟨Nat.succ_le_succ hle, by rw [List.take_succ_cons, List.take_succ_cons, hTake, hab]⟩
      · exact ⟨Nat.zero_le _, by rw [List.take_zero, List.take_zero]⟩

theorem isPart_of_mem_relParts (src : List Str) {dst : List Str} (h : ∀ q ∈ dst, IsPart isSep q) :
    ∀ q ∈ relParts src dst, IsPart isSep q := by
  intro q hq
  obtain hUp | hDown := List.mem_append.1 hq
  · rw [List.eq_of_mem_replicate hUp]
    exact ⟨by decide, by simp [dots, isSep]⟩
  · exact h q (List.mem_of_mem_drop hDown)

/-- The relative parts, from the directory on, lead to the file. -/
theorem foldl_relParts {src dst : List Str} (hSrc : Names src) (hDst : Names dst) :
    (src ++ relParts src dst).foldl (pushPart true) [] = dst := by
  obtain ⟨hle, hTake⟩ := common_spec src dst
  have hDots : dots ∉ src := fun h => (hSrc dots h).2.2 rfl
  have hDown : Names (dst.drop (common src dst)) := fun q hq => hDst q (List.mem_of_mem_drop hq)
  rw [List.foldl_append, foldl_pushPart_names hSrc, List.nil_append, relParts, List.foldl_append,
    foldl_pushPart_ups hDots, foldl_pushPart_names hDown, Nat.sub_sub_self hle, hTake, List.take_append_drop]

theorem isSep_of_eq {sep : Char} (h : sep = '/' ∨ sep = '\\') : isSep sep = true := by
  obtain rfl | rfl := h <;> rfl

/-- `rel || '.'` by its parts. -/
theorem parts_relText {sep : Char} (hSep : isSep sep = true) (src : List Str) {dst : List Str}
    (h : ∀ q ∈ dst, IsPart isSep q) :
    parts isSep (relText sep src dst) = relParts src dst ∨
      parts isSep (relText sep src dst) = [['.']] ∧ relParts src dst = [] := by
  have hParts := parts_intercalate hSep (isPart_of_mem_relParts src h)
  rw [relText]
  split_ifs with hNil
  · rw [hNil, parts_nil] at hParts
    exact .inr ⟨by decide, hParts.symm⟩
  · exact .inl hParts

theorem foldl_relText {sep : Char} (hSep : isSep sep = true) {src dst : List Str} (hSrc : Names src)
    (hDst : Names dst) : (src ++ parts isSep (relText sep src dst)).foldl (pushPart true) [] = dst := by
  have hRel := foldl_relParts hSrc hDst
  obtain hParts | ⟨hDot, hNil⟩ := parts_relText hSep src fun q hq => (hDst q hq).1
  · rw [hParts, hRel]
  · rw [hNil, List.append_nil] at hRel
    rw [hDot, List.foldl_append, hRel]
    rfl

/-! ### Roots -/

theorem not_isSep_of_isLetter {c : Char} (h : isLetter c = true) : isSep c = false := by
  by_contra hSep
  rw [Bool.not_eq_false, isSep, Bool.or_eq_true, decide_eq_true_eq, decide_eq_true_eq] at hSep
  obtain rfl | rfl := hSep <;> exact absurd h (by decide)

theorem isSep_iff {c : Char} : isSep c = true ↔ c = '/' ∨ c = '\\' := by
  rw [isSep, Bool.or_eq_true, decide_eq_true_eq, decide_eq_true_eq]

theorem isSep_sepOf (s : Str) : isSep (sepOf s) = true := by
  rw [sepOf]
  split_ifs <;> rfl

theorem fileOf_colon {c : Char} (hc : isLetter c = true) (x : Char) (t : Str) :
    fileOf (c :: ':' :: x :: t) = if isSep x then some (.drive c.toUpper, parts isSep t) else none := by
  have hSep := not_isSep_of_isLetter hc
  unfold fileOf
  split
  next he =>
    obtain ⟨rfl, -⟩ := List.cons.inj he
    cases hSep
  next he =>
    obtain ⟨rfl, -⟩ := List.cons.inj he
    cases hSep
  next he =>
    simp only [List.cons.injEq, true_and] at he
    obtain ⟨rfl, rfl, rfl⟩ := he
    simp [hc]
  next hNone => exact absurd rfl (hNone c x t)

/-- An absolute path is of one of three kinds. -/
theorem fileOf_cases {s : Str} {root : Root} {ps : List Str} (h : fileOf s = some (root, ps)) :
    (∃ t, s = '/' :: t ∧ root = .posix ∧ ps = parts (· = '/') t) ∨
    (∃ t, s = '\\' :: '\\' :: t ∧ root = .unc) ∨
    ∃ c x t, s = c :: ':' :: x :: t ∧ isLetter c = true ∧ isSep x = true ∧ root = .drive c.toUpper ∧
      ps = parts isSep t := by
  unfold fileOf at h
  split at h
  next t =>
    obtain ⟨rfl, rfl⟩ := Prod.mk.inj (Option.some.inj h)
    exact .inl ⟨t, rfl, rfl, rfl⟩
  next t =>
    obtain ⟨rfl, -⟩ := Prod.mk.inj (Option.some.inj h)
    exact .inr (.inl ⟨t, rfl, rfl⟩)
  next _ c x t _ =>
    obtain ⟨⟨hc, hx⟩, hFile⟩ := Option.ite_none_right_eq_some.1 h
    obtain ⟨rfl, rfl⟩ := Prod.mk.inj (Option.some.inj hFile)
    exact .inr (.inr ⟨c, x, t, rfl, hc, hx, rfl, rfl⟩)
  next => exact absurd h.symm (Option.some_ne_none _)

theorem parts_drive {c x : Char} (hc : isLetter c = true) (hx : isSep x = true) (t : Str) :
    parts isSep (c :: ':' :: x :: t) = [c, ':'] :: parts isSep t := by
  have hDrive : parts isSep [c, ':'] = [[c, ':']] :=
    parts_of_part (List.cons_ne_nil _ _) (by simpa using ⟨not_isSep_of_isLetter hc, rfl⟩)
  exact (parts_append_sep hx [c, ':'] t).trans (by rw [hDrive, List.singleton_append])

/-! ### Joined paths -/

/-- What is normalized. -/
def joined (base rel : Str) : Str :=
  base.rdropWhile isSep ++ sepOf base :: (rel.dropWhile isSep).map fun c => if isSep c then sepOf base else c

theorem joinPath_eq {base rel : Str} (hBase : base ≠ []) (hRel : rel ≠ []) :
    joinPath base rel = normalizePathSegments (joined base rel) (sepOf base) :=
  if_neg (by simp [hBase, hRel])

theorem parts_joined (base rel : Str) :
    parts isSep (joined base rel) = parts isSep base ++ parts isSep rel := by
  have hMap : parts isSep ((rel.dropWhile isSep).map fun c => if isSep c then sepOf base else c) =
    parts isSep rel := by
    rw [parts_map, parts_dropWhile]
    · intro c
      split_ifs with hc
      · rw [isSep_sepOf, hc]
      · rfl
    · exact fun c hc => if_neg (by simp [hc])
  rw [joined, parts_append_sep (isSep_sepOf base), parts_rdropWhile, hMap]

theorem head_joined {first : Char} {t : Str} (rel : Str) :
    (joined (first :: t) rel).head? = some first ∨
      (joined (first :: t) rel).head? = some (sepOf (first :: t)) := by
  rw [joined]
  cases hNorm : (first :: t).rdropWhile isSep with
  | nil => exact .inr rfl
  | cons c rest =>
    obtain ⟨u, hu⟩ := List.rdropWhile_prefix isSep (first :: t)
    rw [hNorm] at hu
    exact .inl (congrArg some (List.cons.inj hu).1)

theorem hasDrive_of_head {s : Str} {c : Char} (h : s.head? = some c) (hc : isSep c = true) :
    hasDrive s = false := by
  cases s with
  | nil => rfl
  | cons d s =>
    obtain rfl := Option.some.inj h
    have hLetter : isLetter d = false := by
      by_contra hLetter
      rw [not_isSep_of_isLetter (Bool.not_eq_false _ ▸ hLetter)] at hc
      cases hc
    cases s with
    | nil => rfl
    | cons => simp [hasDrive, hLetter]

/-- A path with a separator in front. -/
theorem normalize_of_head {path : Str} {c : Char} (h : path.head? = some c) (hc : isSep c = true) (sep : Char) :
    normalizePathSegments path sep = (if c = sep then [sep] else []) ++
      [sep].intercalate ((parts isSep path).foldl (pushPart (c = sep)) []) := by
  rw [normalizePathSegments, hasDrive_of_head h hc]
  simp [h, foldl_pushPart_parts]

/-- A path with a drive. -/
theorem normalize_drive {c : Char} (hc : isLetter c = true) (x : Char) (rest : Str) (sep : Char) :
    normalizePathSegments (c :: ':' :: x :: rest) sep = c :: ':' :: ((if x = sep then [sep] else []) ++
      [sep].intercalate ((parts isSep (x :: rest)).foldl (pushPart (x = sep)) [])) := by
  have hDrive : hasDrive (c :: ':' :: x :: rest) = true := by simp [hasDrive, hc]
  rw [normalizePathSegments, hDrive]
  simp [foldl_pushPart_parts]

theorem joinPath_posix {t rel : Str} (ht : '\\' ∉ t) (hRel : rel ≠ []) :
    joinPath ('/' :: t) rel =
      '/' :: ['/'].intercalate ((parts isSep t ++ parts isSep rel).foldl (pushPart true) []) := by
  have hSep : sepOf ('/' :: t) = '/' := if_neg (by simp [ht])
  have hHead : (joined ('/' :: t) rel).head? = some '/' := by
    obtain h | h := head_joined rel
    · exact h
    · exact h.trans (congrArg some hSep)
  rw [joinPath_eq (List.cons_ne_nil _ _) hRel, normalize_of_head hHead rfl, parts_joined, hSep,
    parts_cons_sep rfl]
  rfl

/-- A path with a drive, joined: the separator after the drive stays unless nothing follows it. -/
theorem joined_drive (c : Char) {x : Char} (hx : isSep x = true) (t rel : Str) :
    ∃ rest, joined (c :: ':' :: x :: t) rel =
      c :: ':' :: (if parts isSep t = [] then sepOf (c :: ':' :: x :: t) else x) :: rest := by
  by_cases hNone : parts isSep t = []
  · have hSeps : ∀ d ∈ x :: t, isSep d = true := by
      intro d hd
      obtain rfl | hd := List.mem_cons.1 hd
      · exact hx
      · by_contra hNot
        obtain ⟨part, hPart, -⟩ := exists_mem_parts hd (Bool.not_eq_true _ ▸ hNot)
        rw [hNone] at hPart
        exact absurd hPart List.not_mem_nil
    have hNorm : (c :: ':' :: x :: t).rdropWhile isSep = [c, ':'] :=
      (rdropWhile_append_of_pos hSeps [c, ':']).trans (rdropWhile_append_cons (p := isSep) rfl [c] [])
    rw [joined, hNorm, if_pos hNone]
    exact ⟨_, rfl⟩
  · obtain ⟨part, hPart⟩ := List.exists_mem_of_ne_nil _ hNone
    obtain ⟨n, hn⟩ : ∃ n ∈ t, isSep n = false := by
      by_contra hAll
      exact hNone (parts_of_seps fun d hd => by
        by_contra hd'
        exact hAll ⟨d, hd, Bool.not_eq_true _ ▸ hd'⟩)
    obtain ⟨a, b, rfl⟩ := List.append_of_mem hn.1
    have hNorm : (c :: ':' :: x :: (a ++ n :: b)).rdropWhile isSep =
      c :: ':' :: x :: (a ++ n :: b.rdropWhile isSep) :=
      rdropWhile_append_cons hn.2 (c :: ':' :: x :: a) b
    rw [joined, hNorm, if_neg hNone]
    exact ⟨_, rfl⟩

/-- A plain path with a drive, joined. -/
theorem joinPath_drive {c x : Char} {t rel : Str} (hc : isLetter c = true) (hx : isSep x = true)
    (hPlain : Plain (c :: ':' :: x :: t)) (hRel : rel ≠ []) :
    joinPath (c :: ':' :: x :: t) rel = c :: ':' :: sepOf (c :: ':' :: x :: t) ::
      [sepOf (c :: ':' :: x :: t)].intercalate
        ((parts isSep t ++ parts isSep rel).foldl (pushPart true) []) := by
  have hSep : (if parts isSep t = [] then sepOf (c :: ':' :: x :: t) else x) = sepOf (c :: ':' :: x :: t) := by
    split_ifs with hNone
    · rfl
    · cases hPlain with
      | posix => cases hc
      | backslash => exact (if_pos (by simp)).symm
      | slash _ h =>
        have hNot : c ≠ '\\' := fun he => by
          rw [he] at hc
          cases hc
        exact (if_neg (by simpa [hNot.symm] using fun ht => hNone (h ht))).symm
  obtain ⟨rest, hRest⟩ := joined_drive c hx t rel
  have hParts := parts_joined (c :: ':' :: x :: t) rel
  rw [hRest, hSep] at hParts
  rw [parts_drive hc (isSep_sepOf _), parts_drive hc hx, List.cons_append] at hParts
  rw [joinPath_eq (List.cons_ne_nil _ _) hRel, hRest, hSep, normalize_drive hc, parts_cons_sep (isSep_sepOf _),
    (List.cons.inj hParts).2]
  simp

variable {src dst rel : Str}

theorem rootOf_joinPath (hPlain : Plain src) (hRel : rel ≠ []) : rootOf (joinPath src rel) = rootOf src := by
  cases hPlain with
  | posix ht =>
    rw [joinPath_posix ht hRel]
    rfl
  | backslash hc =>
    rw [joinPath_drive hc rfl (.backslash hc) hRel, rootOf, rootOf, fileOf_colon hc, fileOf_colon hc,
      if_pos (isSep_sepOf _), if_pos (show isSep '\\' = true from rfl)]
    rfl
  | slash hc h =>
    rw [joinPath_drive hc rfl (.slash hc h) hRel, rootOf, rootOf, fileOf_colon hc, fileOf_colon hc,
      if_pos (isSep_sepOf _), if_pos (show isSep '/' = true from rfl)]
    rfl

/-! ### Roots that are lost -/

/-- After a name at the end something is left, which begins with no separator. -/
theorem intercalate_foldl_name (sep : Char) (rooted : Bool) {ps : List Str} (h : ∀ q ∈ ps, IsPart isSep q)
    {name : Str}
    (hName : Names [name]) : ∃ y z, isSep y = false ∧
      [sep].intercalate ((ps ++ [name]).foldl (pushPart rooted) []) = y :: z := by
  obtain ⟨hPart, hDot, hDots⟩ := hName name List.mem_cons_self
  rw [List.foldl_append, List.foldl_cons, List.foldl_nil, pushPart_name hPart.1 hDot hDots]
  have hAll : ∀ q ∈ ps.foldl (pushPart rooted) [] ++ [name], IsPart isSep q := by
    intro q hq
    obtain hq | hq := List.mem_append.1 hq
    · exact h q ((mem_foldl_pushPart hq).resolve_left List.not_mem_nil)
    · rw [List.mem_singleton.1 hq]
      exact hPart
  obtain ⟨first, rest, hOut⟩ := List.exists_cons_of_ne_nil
    (List.append_ne_nil_of_right_ne_nil (ps.foldl (pushPart rooted) []) (List.cons_ne_nil name []))
  rw [hOut] at hAll ⊢
  obtain ⟨hne, hFirst⟩ := hAll first List.mem_cons_self
  obtain ⟨y, z, rfl⟩ := List.exists_cons_of_ne_nil hne
  cases rest with
  | nil => exact ⟨y, z, hFirst y List.mem_cons_self, List.intercalate_singleton ..⟩
  | cons next rest => exact ⟨y, _, hFirst y List.mem_cons_self, List.intercalate_cons_cons ..⟩

theorem names_x : Names [['x']] := by
  intro q hq
  rw [List.mem_singleton.1 hq]
  exact ⟨⟨List.cons_ne_nil _ _, by simp [isSep]⟩, by decide, by decide⟩

theorem parts_joined_x (base : Str) : parts isSep (joined base ['x']) = parts isSep base ++ [['x']] := by
  rw [parts_joined]
  rfl

theorem isSep_of_head_joined (first : Char) (t : Str) (hFirst : isSep first = true) (rel : Str) :
    ∃ c, (joined (first :: t) rel).head? = some c ∧ isSep c = true ∧ (c = first ∨ c = sepOf (first :: t)) := by
  obtain h | h := head_joined rel
  · exact ⟨first, h, hFirst, .inl rfl⟩
  · exact ⟨_, h, isSep_sepOf _, .inr rfl⟩

/-- From a separator that is not the path's the root is gone, and a backslash alone is none. -/
theorem rootOf_backslash {y : Char} (hy : isSep y = false) (z : Str) : rootOf ('\\' :: y :: z) = none := by
  cases h : fileOf ('\\' :: y :: z) with
  | none => rw [rootOf, h, Option.map_none]
  | some f =>
    obtain ⟨root, ps⟩ := f
    obtain ⟨t, he, -⟩ | ⟨t, he, -⟩ | ⟨c, x, t, he, hc, -⟩ := fileOf_cases h
    · exact absurd (List.cons.inj he).1 (by decide)
    · rw [(List.cons.inj (List.cons.inj he).2).1] at hy
      cases hy
    · rw [← (List.cons.inj he).1] at hc
      cases hc

theorem rootOf_unc_join (t : Str) : rootOf (joinPath ('\\' :: '\\' :: t) ['x']) = none := by
  have hSep : sepOf ('\\' :: '\\' :: t) = '\\' := if_pos List.mem_cons_self
  obtain ⟨c, hHead, hc, he⟩ := isSep_of_head_joined '\\' ('\\' :: t) rfl ['x']
  obtain rfl : c = '\\' := by
    rw [hSep, or_self] at he
    exact he
  obtain ⟨y, z, hy, hText⟩ := intercalate_foldl_name '\\' (decide ('\\' = '\\'))
    (fun q hq => isPart_of_mem_parts (s := '\\' :: '\\' :: t) hq) names_x
  rw [joinPath_eq (List.cons_ne_nil _ _) (List.cons_ne_nil _ _), hSep, normalize_of_head hHead rfl,
    parts_joined_x,
    hText, if_pos rfl]
  exact rootOf_backslash hy z

theorem rootOf_posix_iff {s : Str} : rootOf s = some .posix ↔ s.head? = some '/' := by
  constructor
  · intro h
    obtain ⟨⟨root, ps⟩, hFile, rfl⟩ := Option.map_eq_some_iff.1 h
    obtain ⟨t, rfl, -⟩ | ⟨t, -, he⟩ | ⟨c, x, t, -, -, -, he, -⟩ := fileOf_cases hFile
    · rfl
    · cases he
    · cases he
  · intro h
    cases s with
    | nil => cases h
    | cons c s =>
      obtain rfl := Option.some.inj h
      rfl

/-- With a backslash in a POSIX path the root is lost. -/
theorem rootOf_posix_join {t : Str} (ht : '\\' ∈ t) : rootOf (joinPath ('/' :: t) ['x']) ≠ some .posix := by
  have hSep : sepOf ('/' :: t) = '\\' := if_pos (List.mem_cons_of_mem _ ht)
  obtain ⟨c, hHead, hc, -⟩ := isSep_of_head_joined '/' t rfl ['x']
  obtain ⟨y, z, hy, hText⟩ := intercalate_foldl_name '\\' (decide (c = '\\'))
    (fun q hq => isPart_of_mem_parts (s := '/' :: t) hq) names_x
  rw [joinPath_eq (List.cons_ne_nil _ _) (List.cons_ne_nil _ _), hSep, normalize_of_head hHead hc,
    parts_joined_x,
    hText, Ne, rootOf_posix_iff]
  split_ifs
  · exact fun h => absurd (Option.some.inj h) (by decide)
  · intro h
    rw [Option.some.inj h] at hy
    cases hy

/-- With a slash after the drive and a backslash between names the path is joined without a root. -/
theorem rootOf_drive_join {c : Char} {t : Str} (hc : isLetter c = true) (ht : '\\' ∈ t)
    (hParts : parts isSep t ≠ []) :
    rootOf (joinPath (c :: ':' :: '/' :: t) ['x']) = none := by
  have hSep : sepOf (c :: ':' :: '/' :: t) = '\\' := if_pos (by simp [ht])
  obtain ⟨rest, hRest⟩ := joined_drive c (x := '/') rfl t ['x']
  rw [if_neg hParts] at hRest
  have hJoined := parts_joined_x (c :: ':' :: '/' :: t)
  rw [hRest, parts_drive hc rfl, parts_drive hc rfl, List.cons_append] at hJoined
  obtain ⟨y, z, hy, hText⟩ := intercalate_foldl_name '\\' (decide ('/' = '\\'))
    (fun q hq => isPart_of_mem_parts (s := t) hq) names_x
  rw [joinPath_eq (List.cons_ne_nil _ _) (List.cons_ne_nil _ _), hRest, hSep, normalize_drive hc,
    parts_cons_sep rfl,
    (List.cons.inj hJoined).2, hText, if_neg (by decide), List.nil_append, rootOf, fileOf_colon hc,
    if_neg (by simp [hy]), Option.map_none]

theorem isRelative_x : IsRelative ['x'] := ⟨rfl, fun c hc => by
  obtain rfl := Option.some.inj hc
  rfl⟩

/-- The root is kept just where the path is plain. -/
theorem keepsRoot_iff (hSrc : IsPath src) : KeepsRoot src ↔ Plain src := by
  refine ⟨fun h => ?_, fun hPlain r hr _ => rootOf_joinPath hPlain hr⟩
  have hKeep := h ['x'] (List.cons_ne_nil _ _) isRelative_x
  obtain ⟨root, ps, hFile, -, -⟩ := hSrc
  have hRoot : rootOf src = some root := congrArg (Option.map Prod.fst) hFile
  rw [hRoot] at hKeep
  obtain ⟨t, rfl, rfl, -⟩ | ⟨t, rfl, -⟩ | ⟨c, x, t, rfl, hc, hx, -⟩ := fileOf_cases hFile
  · exact .posix fun ht => rootOf_posix_join ht hKeep
  · exact absurd ((rootOf_unc_join t).symm.trans hKeep).symm (Option.some_ne_none _)
  · obtain rfl | rfl := isSep_iff.1 hx
    · refine .slash hc fun ht => ?_
      by_contra hParts
      exact Option.some_ne_none _ (hKeep.symm.trans (rootOf_drive_join hc ht hParts))
    · exact .backslash hc

/-! ### Relative texts -/

theorem common_append (src rest : List Str) : common src (src ++ rest) = src.length := by
  induction src with
  | nil => simp [common]
  | cons a src ih => rw [List.cons_append, common, if_pos rfl, ih, List.length_cons]

theorem relParts_append (src rest : List Str) : relParts src (src ++ rest) = rest := by
  rw [relParts, common_append, Nat.sub_self, List.replicate_zero, List.nil_append, List.drop_left]

theorem relParts_cons (a : Str) (src dst : List Str) : relParts (a :: src) (a :: dst) = relParts src dst := by
  rw [relParts, common, if_pos rfl, List.length_cons, Nat.add_sub_add_right, List.drop_succ_cons, relParts]

/-- The way up comes first, or the file is below the directory. -/
theorem relParts_cases (src dst : List Str) :
    (∃ rest, relParts src dst = dots :: rest) ∨ dst = src ++ relParts src dst := by
  obtain ⟨hle, hTake⟩ := common_spec src dst
  obtain hEq | hlt := Nat.eq_or_lt_of_le hle
  · right
    have hPrefix : dst = src ++ dst.drop src.length := by
      conv_lhs => rw [← List.take_append_drop src.length dst, ← hEq, ← hTake, hEq, List.take_length]
    rw [hPrefix, relParts_append]
  · left
    obtain ⟨n, hn⟩ := Nat.exists_eq_succ_of_ne_zero (Nat.sub_ne_zero_of_lt hlt)
    exact ⟨_, by rw [relParts, hn, List.replicate_succ, List.cons_append]⟩

variable {sep : Char} {as bs : List Str}

/-- The text begins as its first part does. -/
theorem relText_of_cons (sep : Char) {first : Str} {rest : List Str} (h : relParts as bs = first :: rest)
    (hne : first ≠ []) :
    relText sep as bs = first ∨ ∃ z, relText sep as bs = first ++ sep :: z := by
  have hText : ∀ s, first ++ s ≠ [] := fun s he => hne (List.append_eq_nil_iff.1 he).1
  rw [relText, h]
  cases rest with
  | nil =>
    rw [List.intercalate_singleton, if_neg hne]
    exact .inl rfl
  | cons next rest =>
    rw [List.intercalate_cons_cons, List.append_assoc, if_neg (hText _)]
    exact .inr ⟨_, rfl⟩

theorem relText_of_nil (h : relParts as bs = []) : relText sep as bs = ['.'] := by
  rw [relText, h]
  rfl

theorem hasDrive_append {first : Str} (hne : first ≠ []) (hSep : isSep sep = true) (z : Str) :
    hasDrive (first ++ sep :: z) = hasDrive first := by
  cases first with
  | nil => exact absurd rfl hne
  | cons c first =>
    cases first with
    | cons d first => rfl
    | nil =>
      obtain rfl | rfl := isSep_iff.1 hSep <;> simp [hasDrive]

theorem relText_first (hSep : isSep sep = true) (h : ∀ q ∈ bs, IsPart isSep q) {first : Str} {rest : List Str}
    (hFirst : relParts as bs = first :: rest) :
    hasDrive (relText sep as bs) = hasDrive first ∧ ∀ c ∈ (relText sep as bs).head?, isSep c = false := by
  obtain ⟨hne, hPart⟩ := isPart_of_mem_relParts as h first (hFirst ▸ List.mem_cons_self)
  obtain ⟨y, z, rfl⟩ := List.exists_cons_of_ne_nil hne
  have hHead : ∀ c ∈ some y, isSep c = false := fun c hc => by
    obtain rfl := Option.some.inj hc
    exact hPart y List.mem_cons_self
  obtain hText | ⟨more, hText⟩ := relText_of_cons sep hFirst hne
  · rw [hText]
    exact ⟨rfl, hHead⟩
  · rw [hText]
    exact ⟨hasDrive_append hne hSep more, hHead⟩

theorem head_relText (as : List Str) (hSep : isSep sep = true) (h : ∀ q ∈ bs, IsPart isSep q) :
    ∀ c ∈ (relText sep as bs).head?, isSep c = false := by
  cases hParts : relParts as bs with
  | nil =>
    rw [relText_of_nil hParts]
    intro c hc
    obtain rfl := Option.some.inj hc
    rfl
  | cons first rest => exact (relText_first hSep h hParts).2

/-- The text is that of a relative path, but where the first name below looks like a drive. -/
theorem isRelative_relText_iff (hSep : isSep sep = true) (h : ∀ q ∈ bs, IsPart isSep q) :
    IsRelative (relText sep as bs) ↔ ∀ next rest, bs = as ++ next :: rest → hasDrive next = false := by
  constructor
  · rintro ⟨hDrive, -⟩ next rest rfl
    rwa [(relText_first hSep h (relParts_append as (next :: rest))).1] at hDrive
  · intro hNext
    refine ⟨?_, head_relText as hSep h⟩
    cases hParts : relParts as bs with
    | nil =>
      rw [relText_of_nil hParts]
      rfl
    | cons first rest =>
      rw [(relText_first hSep h hParts).1]
      obtain ⟨more, hUp⟩ | hDown := relParts_cases as bs
      · rw [hParts] at hUp
        rw [(List.cons.inj hUp).1]
        rfl
      · exact hNext first rest (hParts ▸ hDown)

theorem relText_ne_nil (sep : Char) (as bs : List Str) : relText sep as bs ≠ [] := by
  rw [relText]
  split_ifs with h
  · exact List.cons_ne_nil _ _
  · exact h

/-! ### There and back -/

theorem names_parts {s : Str} (hDot : ['.'] ∉ parts isSep s) (hDots : dots ∉ parts isSep s) :
    Names (parts isSep s) := fun _ hq =>
  ⟨isPart_of_mem_parts hq, fun he => hDot (he ▸ hq), fun he => hDots (he ▸ hq)⟩

/-- Without a backslash both ways of cutting are one. -/
theorem parts_slash {s : Str} (h : '\\' ∉ s) : parts (· = '/') s = parts isSep s :=
  parts_congr fun c hc => by
    have : c ≠ '\\' := fun he => h (he ▸ hc)
    simp [isSep, this]

theorem isPart_slash {q : Str} (h : IsPart isSep q) : IsPart (· = '/') q :=
  ⟨h.1, fun c hc => by
    have hNot := h.2 c hc
    simp only [isSep, Bool.or_eq_false_iff] at hNot
    exact hNot.1⟩

theorem isPart_of_mem_joined {s r q : Str} (h : q ∈ (parts isSep s ++ parts isSep r).foldl (pushPart true) []) :
    IsPart isSep q := by
  obtain h | h := List.mem_append.1 ((mem_foldl_pushPart h).resolve_left List.not_mem_nil)
  · exact isPart_of_mem_parts h
  · exact isPart_of_mem_parts h

theorem driveOf_of_head {s : Str} {c : Char} (h : s.head? = some c) (hc : isSep c = true) :
    driveOf s = none := by
  unfold driveOf
  split
  next d colon sep rest =>
    obtain rfl := Option.some.inj h
    refine if_neg fun hAll => ?_
    rw [not_isSep_of_isLetter hAll.1] at hc
    cases hc
  next => rfl

theorem driveOf_colon {c x : Char} (hc : isLetter c = true) (hx : isSep x = true) (t : Str) :
    driveOf (c :: ':' :: x :: t) = some c := if_pos ⟨hc, rfl, hx⟩

theorem leadsBack_posix {t u : Str} (ht : '\\' ∉ t) (hSrc : IsPath ('/' :: t)) (hDst : IsPath ('/' :: u)) :
    LeadsBack ('/' :: t) ('/' :: u) ↔ '\\' ∉ '/' :: u ∧ NoDriveNext ('/' :: t) ('/' :: u) := by
  have hUp : parts isSep ('/' :: t) = parts isSep t := parts_cons_sep rfl t
  have hDown : parts isSep ('/' :: u) = parts isSep u := parts_cons_sep rfl u
  have hDrive := fun s => driveOf_of_head (s := '/' :: s) (c := '/') rfl rfl
  have hRel : computeRelPath ('/' :: t) ('/' :: u) =
    relText (sepOf ('/' :: u)) (parts isSep t) (parts isSep u) := by
    rw [computeRelPath, hDrive, hDrive]
    exact (if_neg (by simp [isUnix])).trans (by rw [hUp, hDown])
  have hSep := isSep_sepOf ('/' :: u)
  have hParts : ∀ q ∈ parts isSep u, IsPart isSep q := fun q hq => isPart_of_mem_parts hq
  rw [LeadsBack, hRel, joinPath_posix ht (relText_ne_nil _ _ _), isRelative_relText_iff hSep hParts,
    NoDriveNext, hUp, hDown]
  have hSlash : decide ('/' = '/') = true := rfl
  have hJoined := parts_intercalate (p := (· = '/')) hSlash (l := (parts isSep t ++
    parts isSep (relText (sepOf ('/' :: u)) (parts isSep t) (parts isSep u))).foldl (pushPart true) [])
    fun q hq => isPart_slash (isPart_of_mem_joined hq)
  have hFile : ∀ s, fileOf ('/' :: s) = some (.posix, parts (· = '/') s) := fun s => rfl
  rw [hFile, hFile, hJoined]
  constructor
  · rintro (hSelf | ⟨hNext, hSame⟩)
    · have hHead := head_relText (parts isSep t) hSep hParts '/'
      rw [hSelf] at hHead
      exact absurd (hHead rfl) (by decide)
    · refine ⟨fun hBack => ?_, hNext⟩
      have hMem : '\\' ∈ u := by simpa using hBack
      obtain ⟨part, hPart, hIn⟩ := exists_mem_parts (p := (· = '/')) hMem (by decide)
      rw [← (Prod.mk.inj (Option.some.inj hSame)).2] at hPart
      exact absurd ((isPart_of_mem_joined hPart).2 _ hIn) (by decide)
  · rintro ⟨hBack, hNext⟩
    have hu : '\\' ∉ u := fun h => hBack (List.mem_cons_of_mem _ h)
    obtain ⟨_, _, hSrcFile, hSrcDot, hSrcDots⟩ := hSrc
    obtain ⟨_, _, hDstFile, hDstDot, hDstDots⟩ := hDst
    obtain ⟨-, rfl⟩ := Prod.mk.inj (Option.some.inj hSrcFile)
    obtain ⟨-, rfl⟩ := Prod.mk.inj (Option.some.inj hDstFile)
    rw [parts_slash ht] at hSrcDot hSrcDots
    rw [parts_slash hu] at hDstDot hDstDots ⊢
    exact .inr ⟨hNext, by rw [foldl_relText hSep (names_parts hSrcDot hSrcDots) (names_parts hDstDot hDstDots)]⟩

/-- A relative text is not the path with its drive. -/
theorem relText_ne_drive {c y : Char} {u : Str} (hSep : isSep sep = true) (hNames : Names (parts isSep u))
    (hc : isLetter c = true) (hy : isSep y = true) : relText sep as (parts isSep u) ≠ c :: ':' :: y :: u := by
  intro he
  have hDrive := parts_drive hc hy u
  rw [← he] at hDrive
  have hLength : ∀ ps, ps = parts isSep u → relParts as ps ≠ [c, ':'] :: ps := by
    rintro ps - hRel
    obtain ⟨rest, hUp⟩ | hDown := relParts_cases as ps
    · rw [hUp] at hRel
      exact absurd (List.cons.inj (List.cons.inj hRel).1).1 fun hDot => by
        rw [← hDot] at hc
        cases hc
    · rw [hRel] at hDown
      have := congrArg List.length hDown
      simp only [List.length_append, List.length_cons] at this
      omega
  obtain hParts | ⟨hParts, -⟩ :=
    parts_relText hSep as fun q hq => (hNames q hq).1
  · exact hLength _ rfl (hParts.symm.trans hDrive)
  · rw [hParts] at hDrive
    cases hDrive

theorem leadsBack_drive {c x d y : Char} {t u : Str} (hc : isLetter c = true) (hx : isSep x = true)
    (hd : isLetter d = true) (hy : isSep y = true) (hPlain : Plain (c :: ':' :: x :: t))
    (hSrc : IsPath (c :: ':' :: x :: t)) (hDst : IsPath (d :: ':' :: y :: u))
      (hLetter : c.toUpper = d.toUpper) :
    LeadsBack (c :: ':' :: x :: t) (d :: ':' :: y :: u) ↔
      c = d ∧ NoDriveNext (c :: ':' :: x :: t) (d :: ':' :: y :: u) := by
  obtain ⟨_, _, hSrcFile, hSrcDot, hSrcDots⟩ := hSrc
  obtain ⟨_, _, hDstFile, hDstDot, hDstDots⟩ := hDst
  rw [fileOf_colon hc, if_pos hx] at hSrcFile
  rw [fileOf_colon hd, if_pos hy] at hDstFile
  obtain ⟨-, rfl⟩ := Prod.mk.inj (Option.some.inj hSrcFile)
  obtain ⟨-, rfl⟩ := Prod.mk.inj (Option.some.inj hDstFile)
  have hUp := parts_drive hc hx t
  have hDown := parts_drive hd hy u
  have hRel : computeRelPath (c :: ':' :: x :: t) (d :: ':' :: y :: u) =
      relText (sepOf (d :: ':' :: y :: u)) ([c, ':'] :: parts isSep t) ([d, ':'] :: parts isSep u) := by
    rw [computeRelPath, driveOf_colon hc hx, driveOf_colon hd hy]
    exact (if_neg (by simp [hLetter])).trans (by rw [hUp, hDown])
  have hSep := isSep_sepOf (d :: ':' :: y :: u)
  have hFile : ∀ {sep : Char} {ps : List Str}, isSep sep = true → (∀ q ∈ ps, IsPart isSep q) →
      fileOf (c :: ':' :: sep :: [sep].intercalate ps) = some (.drive c.toUpper, ps) := fun hSep hPs => by
    rw [fileOf_colon hc, if_pos hSep, parts_intercalate hSep hPs]
  have hNames := names_parts hDstDot hDstDots
  have hDriveName : Names ([d, ':'] :: parts isSep u) := by
    intro q hq
    obtain rfl | hq := List.mem_cons.1 hq
    · exact ⟨⟨List.cons_ne_nil _ _, by simpa using ⟨not_isSep_of_isLetter hd, rfl⟩⟩, by simp, by simp [dots]⟩
    · exact hNames q hq
  have hParts : ∀ q ∈ [d, ':'] :: parts isSep u, IsPart isSep q := fun q hq => (hDriveName q hq).1
  rw [LeadsBack, hRel, joinPath_drive hc hx hPlain (relText_ne_nil _ _ _), fileOf_colon hd, if_pos hy,
    hFile (isSep_sepOf _) fun q hq => isPart_of_mem_joined hq, NoDriveNext, hUp, hDown, hLetter]
  by_cases hcd : c = d
  · subst hcd
    have hSame : ∀ sep, relText sep ([c, ':'] :: parts isSep t) ([c, ':'] :: parts isSep u) =
        relText sep (parts isSep t) (parts isSep u) := fun sep => by rw [relText, relParts_cons, relText]
    have hNext : (∀ next rest, [c, ':'] :: parts isSep u = [c, ':'] :: parts isSep t ++ next :: rest →
        hasDrive next = false) ↔
          IsRelative (relText (sepOf (c :: ':' :: y :: u)) (parts isSep t) (parts isSep u)) := by
      rw [isRelative_relText_iff hSep fun q hq => (hNames q hq).1]
      simp only [List.cons_append, List.cons.injEq, true_and]
    rw [hSame, hNext, foldl_relText hSep (names_parts hSrcDot hSrcDots) hNames]
    have hNot : relText (sepOf (c :: ':' :: y :: u)) (parts isSep t) (parts isSep u) ≠ c :: ':' :: y :: u :=
      fun he => relText_ne_drive hSep hNames hd hy he
    simp [hNot]
  · have hRelParts : relParts ([c, ':'] :: parts isSep t) ([d, ':'] :: parts isSep u) =
        List.replicate ((parts isSep t).length + 1) dots ++ [d, ':'] :: parts isSep u := by
      rw [relParts, common, if_neg (by simpa using hcd)]
      rfl
    refine iff_of_false ?_ fun h => hcd h.1
    rintro (hSelf | ⟨-, hSame⟩)
    · -- It begins with the way up.
      have hFirst := relText_of_cons (sepOf (d :: ':' :: y :: u)) hRelParts (by decide)
      rw [hSelf] at hFirst
      have hDot : d = '.' := by
        obtain hText | ⟨z, hText⟩ := hFirst <;> exact (List.cons.inj hText).1
      rw [hDot] at hd
      cases hd
    · have hText : parts isSep (relText (sepOf (d :: ':' :: y :: u)) ([c, ':'] :: parts isSep t)
          ([d, ':'] :: parts isSep u)) =
            List.replicate ((parts isSep t).length + 1) dots ++ [d, ':'] :: parts isSep u := by
        obtain h | ⟨-, h⟩ := parts_relText hSep ([c, ':'] :: parts isSep t) hParts
        · rw [h, hRelParts]
        · rw [hRelParts] at h
          cases h
      have hTop : (parts isSep t).length - ((parts isSep t).length + 1) = 0 := by omega
      rw [hText, List.foldl_append, List.foldl_append, foldl_pushPart_names (names_parts hSrcDot hSrcDots),
        List.nil_append, foldl_pushPart_ups hSrcDots, hTop, List.take_zero, foldl_pushPart_names hDriveName,
        List.nil_append] at hSame
      have := congrArg List.length (Prod.mk.inj (Option.some.inj hSame)).2
      rw [List.length_cons] at this
      omega

/-! ### All paths -/

theorem leadsBack_iff (hPlain : Plain src) (hSrc : IsPath src) (hDst : IsPath dst) :
    LeadsBack src dst ↔ Relatable src dst := by
  obtain ⟨_, _, hSrcFile, -⟩ := id hSrc
  obtain ⟨_, _, hDstFile, -⟩ := id hDst
  have hSelf : computeRelPath src dst = dst → Relatable src dst → (LeadsBack src dst ↔ Relatable src dst) :=
    fun h h' => iff_of_true (.inl h) h'
  have hHead := fun {c : Char} (hc : isSep c = true) s => driveOf_of_head (s := c :: s) rfl hc
  obtain ⟨t, rfl, -⟩ | ⟨t, rfl, -⟩ | ⟨c, x, t, rfl, hc, hx, -⟩ := fileOf_cases hSrcFile
  · have ht : '\\' ∉ t := by
      cases hPlain with
      | posix ht => exact ht
      | backslash hc => cases hc
      | slash hc => cases hc
    have hUnix := hHead (c := '/') rfl t
    obtain ⟨u, rfl, -⟩ | ⟨u, rfl, -⟩ | ⟨d, y, u, rfl, hd, hy, -⟩ := fileOf_cases hDstFile
    · rw [leadsBack_posix ht hSrc hDst, Relatable, hUnix, hHead (c := '/') rfl]
      exact ⟨fun h _ _ => h, fun h => h rfl rfl⟩
    · have hUnc := hHead (c := '\\') rfl ('\\' :: u)
      refine hSelf ?_ ?_
      · rw [computeRelPath, hUnix, hUnc]
        exact if_pos (by simp [isUnix])
      · rw [Relatable, hUnix, hUnc]
        exact fun _ h => absurd h (by simp [isUnix])
    · have hDrive := driveOf_colon hd hy u
      refine hSelf ?_ ?_
      · rw [computeRelPath, hUnix, hDrive]
      · rw [Relatable, hUnix, hDrive]
        trivial
  · cases hPlain
  · have hDrive := driveOf_colon hc hx t
    obtain ⟨u, rfl, -⟩ | ⟨u, rfl, -⟩ | ⟨d, y, u, rfl, hd, hy, -⟩ := fileOf_cases hDstFile
    · refine hSelf ?_ ?_
      · rw [computeRelPath, hDrive, hHead (c := '/') rfl]
      · rw [Relatable, hDrive, hHead (c := '/') rfl]
        trivial
    · refine hSelf ?_ ?_
      · rw [computeRelPath, hDrive, hHead (c := '\\') rfl]
      · rw [Relatable, hDrive, hHead (c := '\\') rfl]
        trivial
    · have hDrive' := driveOf_colon hd hy u
      by_cases hLetter : c.toUpper = d.toUpper
      · rw [leadsBack_drive hc hx hd hy hPlain hSrc hDst hLetter, Relatable, hDrive, hDrive']
        exact ⟨fun h _ => h, fun h => h hLetter⟩
      · refine hSelf ?_ ?_
        · rw [computeRelPath, hDrive, hDrive']
          exact if_pos hLetter
        · rw [Relatable, hDrive, hDrive']
          exact fun h => absurd h hLetter

/-- The relative path leads back, and every path joined keeps the root, just where the directory is
written plainly and the two paths are relatable. -/
theorem relPath_leads_back (src dst : Str) (hSrc : IsPath src) (hDst : IsPath dst) :
    LeadsBack src dst ∧ KeepsRoot src ↔ Plain src ∧ Relatable src dst := by
  rw [keepsRoot_iff hSrc, and_comm]
  exact and_congr_right fun hPlain => leadsBack_iff hPlain hSrc hDst

theorem isPath_app : IsPath "C:\\dev\\app".toList := ⟨.drive 'C', ["dev".toList, "app".toList], by decide⟩

/-- A file below the directory, written with the other separator. -/
theorem below_leads_back :
    LeadsBack "C:\\dev\\app".toList "C:/dev/app/go.mod".toList ∧ KeepsRoot "C:\\dev\\app".toList := by
  have hDst : IsPath "C:/dev/app/go.mod".toList :=
    ⟨.drive 'C', ["dev".toList, "app".toList, "go.mod".toList], by decide⟩
  refine (relPath_leads_back _ _ isPath_app hDst).2 ⟨.backslash rfl, fun _ => ⟨rfl, fun next rest h => ?_⟩⟩
  have hSrcParts : parts isSep "C:\\dev\\app".toList = ["C:".toList, "dev".toList, "app".toList] := by decide
  have hDstParts : parts isSep "C:/dev/app/go.mod".toList =
      ["C:".toList, "dev".toList, "app".toList] ++ ["go.mod".toList] := by decide
  rw [hSrcParts, hDstParts] at h
  obtain ⟨rfl, -⟩ := List.cons.inj (List.append_cancel_left h)
  rfl

/-- A drive in two spellings: the text goes up out of the drive, and the drive is a name in it. -/
theorem drive_respelled : ¬ ∀ src dst : Str, IsPath src → IsPath dst → LeadsBack src dst ∧ KeepsRoot src := by
  intro h
  have hDst : IsPath "c:\\dev\\app\\go.mod".toList :=
    ⟨.drive 'C', ["dev".toList, "app".toList, "go.mod".toList], by decide⟩
  have hRelatable := (leadsBack_iff (.backslash rfl) isPath_app hDst).1 (h _ _ isPath_app hDst).1
  exact absurd (hRelatable (by decide)).1 (by decide)

end ManyAiCli.Web.PathLinks
