import Mathlib.Data.List.TakeWhile
import ManyAiCli.Text.Encode
import ManyAiCli.Text.Trim

/-! What an attachment is called (`store.go`): its extension is the one of the original name, or what
its first bytes tell, and of the name only letters, numbers, marks, `_`, `-` and `.` are kept. -/

namespace ManyAiCli.Attach

open Text

abbrev Bytes := List UInt8

def maxSanitizedFilenameBytes : ℕ := 180

def isAsciiLetter (r : Char) : Bool := ('A' ≤ r && r ≤ 'Z') || ('a' ≤ r && r ≤ 'z')

def isAsciiDigit (r : Char) : Bool := '0' ≤ r && r ≤ '9'

/-- The tables of `unicode`, which are fixed for ASCII. -/
structure Unicode where
  isLetter : Char → Bool
  isNumber : Char → Bool
  isMark : Char → Bool
  /-- `unicode.Is(unicode.Cf, _)`. -/
  isFormat : Char → Bool
  isLetter_ascii : ∀ r, r.toNat < 128 → isLetter r = isAsciiLetter r
  isNumber_ascii : ∀ r, r.toNat < 128 → isNumber r = isAsciiDigit r
  isMark_ascii : ∀ r, r.toNat < 128 → isMark r = false
  isFormat_ascii : ∀ r, r.toNat < 128 → isFormat r = false

/-- `unicode.IsControl`. -/
def isControl (r : Char) : Bool := r.toNat < 32 || (127 ≤ r.toNat && r.toNat < 160)

/-- What `filepath` knows of the platform. -/
structure Platform where
  separator : UInt8
  isPathSeparator : UInt8 → Bool
  /-- `len(filepath.VolumeName(_))`. -/
  volumeNameLen : Bytes → ℕ
  slashes : ∀ b, isPathSeparator b = true → b = 0x2F ∨ b = 0x5C

variable (U : Unicode) (P : Platform)

namespace Platform

/-- `filepath.Base`. -/
def base (path : Bytes) : Bytes :=
  if path = [] then [0x2E]
  else
    let path := path.rdropWhile P.isPathSeparator
    let path := path.drop (P.volumeNameLen path)
    let path := path.rtakeWhile fun b => !P.isPathSeparator b
    if path = [] then [P.separator] else path

/-- `filepath.Ext`. -/
def ext (path : Bytes) : Bytes :=
  let last := path.rtakeWhile fun b => !P.isPathSeparator b
  if 0x2E ∈ last then 0x2E :: last.rtakeWhile (· ≠ 0x2E) else []

end Platform

/-! ### The extension -/

def detectExt (data : Bytes) : Bytes :=
  encode <| String.toList <|
    if 8 ≤ data.length ∧ data.take 4 = 0x89 :: encode ['P', 'N', 'G'] then ".png"
    else if 3 ≤ data.length ∧ data.take 3 = [0xFF, 0xD8, 0xFF] then ".jpg"
    else if 6 ≤ data.length ∧ (data.take 6 = encode "GIF87a".toList ∨ data.take 6 = encode "GIF89a".toList)
      then ".gif"
    else if 12 ≤ data.length ∧ data.take 4 = encode "RIFF".toList ∧
      (data.drop 8).take 4 = encode "WEBP".toList then
      ".webp"
    else if 5 ≤ data.length ∧ data.take 5 = encode "%PDF-".toList then ".pdf"
    else ".bin"

def isExtRune (r : Char) : Bool :=
  ('a' ≤ r && r ≤ 'z') || ('0' ≤ r && r ≤ '9') || r = '_' || r = '-'

def extFromFilename (filename : Bytes) : Bytes :=
  let ext := encode (toLower (runes (P.ext (P.base filename))))
  if ext.length < 2 ∨ 32 < ext.length then []
  else if (runes (ext.drop 1)).all isExtRune then ext else []

/-- The extension of the name, else the one of the data. -/
def chosenExt (filename data : Bytes) : Bytes :=
  let ext := extFromFilename P filename
  if ext = [] then detectExt data else ext

/-! ### The name -/

/-- What takes its place is `_`, if anything. -/
def replaces (r : Char) : Bool :=
  let allowed := U.isLetter r || U.isNumber r || U.isMark r || r = '_' || r = '-' || r = '.'
  !allowed || isControl r || U.isFormat r

/-- The loop over the runes of the name, with what is built so far. -/
def gather (stemByteLimit : ℕ) : List Char → List Char → Bool → List Char
  | [], b, _ => b
  | r :: rs, b, lastUnderscore =>
    if replaces U r then
      if 0 < (encode b).length ∧ lastUnderscore = false ∧ (encode b).length + 1 ≤ stemByteLimit then
        gather stemByteLimit rs (b ++ ['_']) true
      else gather stemByteLimit rs b lastUnderscore
    else if stemByteLimit < (encode b).length + r.utf8Size then b
    else gather stemByteLimit rs (b ++ [r]) (r = '_')

/-- Unicode case folding, as far as the result is compared with ASCII. -/
def fold (r : Char) : Char :=
  if 'A' ≤ r ∧ r ≤ 'Z' then Char.ofNat (r.toNat + 32)
  else if r = '\u017F' then 's'
  else if r = '\u212A' then 'k'
  else r

/-- `strings.EqualFold`. -/
def equalFold (s t : Bytes) : Bool := (runes s).map fold = (runes t).map fold

/-- The cutset `._-`. -/
def isCut (r : Char) : Bool := r = '.' || r = '_' || r = '-'

def stem (filename ext : Bytes) : Bytes :=
  let name := filename.rtakeWhile fun b => b ≠ 0x2F ∧ b ≠ 0x5C
  let nameExt := P.ext name
  if ext ≠ [] ∧ equalFold nameExt ext then name.take (name.length - nameExt.length) else name

def sanitizeFilename (filename ext : Bytes) : Bytes :=
  let stemByteLimit := max 1 (maxSanitizedFilenameBytes - ext.length)
  let sanitized := trim isCut (gather U stemByteLimit (runes (stem P filename ext)) [] false)
  if sanitized = [] then encode "attachment".toList ++ ext else encode sanitized ++ ext

/-! ### What an extension is -/

variable {U P}

/-- A dot and up to 31 of `a` to `z`, `0` to `9`, `_` and `-`. -/
def IsExt (ext : Bytes) : Prop :=
  ∃ x : List Char, x ≠ [] ∧ x.length ≤ 31 ∧ (∀ r ∈ x, isExtRune r = true) ∧ ext = encode ('.' :: x)

theorem isExtRune_bounds {r : Char} (h : isExtRune r = true) : 32 < r.toNat ∧ r.toNat < 127 ∧ r ≠ '.' ∧
    r ≠ '/' ∧ r ≠ '\\' := by
  simp only [isExtRune, Bool.or_eq_true, Bool.and_eq_true, decide_eq_true_eq, Char.le_def,
    UInt32.le_iff_toNat_le,
    Char.ext_iff, ne_eq, ← UInt32.toNat_inj] at h ⊢
  simp only [Char.toNat] at h ⊢
  have hRange : ('a'.val.toNat = 97 ∧ 'z'.val.toNat = 122) ∧ ('0'.val.toNat = 48 ∧ '9'.val.toNat = 57) ∧
    ('_'.val.toNat = 95 ∧ '-'.val.toNat = 45) ∧
      ('.'.val.toNat = 46 ∧ '/'.val.toNat = 47 ∧ '\\'.val.toNat = 92) := by decide
  omega

theorem isExt_detectExt (data : Bytes) : IsExt (detectExt data) := by
  rw [detectExt]
  split_ifs
  · exact ⟨['p', 'n', 'g'], by decide, by decide, by simp [isExtRune], rfl⟩
  · exact ⟨['j', 'p', 'g'], by decide, by decide, by simp [isExtRune], rfl⟩
  · exact ⟨['g', 'i', 'f'], by decide, by decide, by simp [isExtRune], rfl⟩
  · exact ⟨['w', 'e', 'b', 'p'], by decide, by decide, by simp [isExtRune], rfl⟩
  · exact ⟨['p', 'd', 'f'], by decide, by decide, by simp [isExtRune], rfl⟩
  · exact ⟨['b', 'i', 'n'], by decide, by decide, by simp [isExtRune], rfl⟩

theorem ext_eq_cons {path : Bytes} (h : P.ext path ≠ []) : ∃ x, P.ext path = 0x2E :: x := by
  rw [Platform.ext] at h ⊢
  split_ifs with hDot
  · exact ⟨_, rfl⟩
  · rw [if_neg hDot] at h
    exact absurd rfl h

theorem isExt_extFromFilename {filename : Bytes} (h : extFromFilename P filename ≠ []) :
    IsExt (extFromFilename P filename) := by
  have hDot : runes [0x2E] = ['.'] := by decide
  simp only [extFromFilename] at h ⊢
  split_ifs at h ⊢ with hLen hRunes
  · exact absurd rfl h
  · have hExt : P.ext (P.base filename) ≠ [] := by
      intro hNil
      rw [hNil] at hLen
      exact hLen (.inl (by decide))
    obtain ⟨x, hx⟩ := ext_eq_cons hExt
    have hText : toLower (runes (P.ext (P.base filename))) = '.' :: toLower (runes x) := by
      rw [hx]
      exact congrArg toLower (runes_append '.' x)
    have hDrop : (encode ('.' :: toLower (runes x))).drop 1 = encode (toLower (runes x)) := rfl
    have hOne : (encode ('.' :: toLower (runes x))).length = (encode (toLower (runes x))).length + 1 := rfl
    rw [hText] at hLen hRunes ⊢
    rw [hOne] at hLen
    rw [hDrop, runes_encode] at hRunes
    refine ⟨toLower (runes x), fun hNil => ?_, ?_, List.all_eq_true.1 hRunes, rfl⟩
    · rw [hNil] at hLen
      exact hLen (.inl (by decide))
    · have hShort := length_le_length_encode (toLower (runes x))
      omega
  · exact absurd rfl h

/-- Every extension `Save` chooses is one. -/
theorem isExt_chosenExt (filename data : Bytes) : IsExt (chosenExt P filename data) := by
  simp only [chosenExt]
  split_ifs with h
  · exact isExt_detectExt data
  · exact isExt_extFromFilename h

/-! ### What is kept -/

theorem replaces_eq_false_iff {r : Char} : replaces U r = false ↔
    (U.isLetter r = true ∨ U.isNumber r = true ∨ U.isMark r = true ∨ r = '_' ∨ r = '-' ∨ r = '.') ∧
      isControl r = false ∧ U.isFormat r = false := by
  simp only [replaces, Bool.or_eq_false_iff, Bool.not_eq_false', Bool.or_eq_true, decide_eq_true_eq, or_assoc,
    and_assoc]

/-- Letters, digits and `_`, `-` and `.` of ASCII are kept. -/
theorem kept_ascii {r : Char}
    (h : isAsciiLetter r = true ∨ isAsciiDigit r = true ∨ r = '_' ∨ r = '-' ∨ r = '.') : replaces U r = false := by
  have hBounds : 32 ≤ r.toNat ∧ r.toNat < 127 := by
    have hRange : ('A'.val.toNat = 65 ∧ 'Z'.val.toNat = 90) ∧ ('a'.val.toNat = 97 ∧ 'z'.val.toNat = 122) ∧
        '0'.val.toNat = 48 ∧ '9'.val.toNat = 57 := by decide
    simp only [isAsciiLetter, isAsciiDigit, Bool.or_eq_true, Bool.and_eq_true, decide_eq_true_eq, Char.le_def,
      UInt32.le_iff_toNat_le] at h
    simp only [Char.toNat]
    rcases h with h | h | rfl | rfl | rfl
    · omega
    · omega
    all_goals decide
  have hControl : isControl r = false := by
    simp only [isControl, Bool.or_eq_false_iff, Bool.and_eq_false_imp, decide_eq_true_eq, decide_eq_false_iff_not]
    omega
  refine replaces_eq_false_iff.2 ⟨?_, hControl, U.isFormat_ascii r (by omega)⟩
  rw [U.isLetter_ascii r (by omega), U.isNumber_ascii r (by omega)]
  exact h.imp_right (Or.imp_right .inr)

theorem kept_of_isDigit {r : Char} (h : r.isDigit = true) : replaces U r = false := by
  refine kept_ascii (.inr (.inl ?_))
  rw [Char.isDigit_iff_toNat] at h
  simp only [isAsciiDigit, Bool.and_eq_true, decide_eq_true_eq, Char.le_def, UInt32.le_iff_toNat_le]
  exact h

/-- No separator is kept. -/
theorem kept_ne_slash {r : Char} (h : replaces U r = false) : r ≠ '/' ∧ r ≠ '\\' := by
  have hSlash (c : Char) (hc : c.toNat < 128) (hAlpha : isAsciiLetter c = false)
      (hDigit : isAsciiDigit c = false)
      (hPlain : c ≠ '_' ∧ c ≠ '-' ∧ c ≠ '.') : r ≠ c := by
    rintro rfl
    have hAllowed := (replaces_eq_false_iff.1 h).1
    rw [U.isLetter_ascii r hc, U.isNumber_ascii r hc, U.isMark_ascii r hc, hAlpha, hDigit] at hAllowed
    simp [hPlain] at hAllowed
  exact ⟨hSlash '/' (by decide) (by decide) (by decide) (by decide),
    hSlash '\\' (by decide) (by decide) (by decide) (by decide)⟩

/-- What the loop builds is kept, whatever the name is of. -/
theorem kept_gather {limit : ℕ} (rs : List Char) :
    ∀ (b : List Char) (last : Bool), (∀ r ∈ b, replaces U r = false) →
    ∀ r ∈ gather U limit rs b last, replaces U r = false := by
  induction rs with
  | nil => exact fun b last hb => hb
  | cons c rs ih =>
    intro b last hb
    have hSnoc (d : Char) (hd : replaces U d = false) : ∀ r ∈ b ++ [d], replaces U r = false :=
      List.forall_mem_append.2 ⟨hb, List.forall_mem_singleton.2 hd⟩
    rw [gather]
    split_ifs with hc
    · exact ih _ _ (hSnoc '_' (kept_ascii (.inr (.inr (.inl rfl)))))
    · exact ih b last hb
    · exact hb
    · exact ih _ _ (hSnoc c (Bool.eq_false_iff.2 hc))

/-- It does not outgrow the limit. -/
theorem length_gather {limit : ℕ} (rs : List Char) :
    ∀ (b : List Char) (last : Bool), (encode b).length ≤ limit →
    (encode (gather U limit rs b last)).length ≤ limit := by
  induction rs with
  | nil => exact fun b last hb => hb
  | cons c rs ih =>
    intro b last hb
    have hSnoc (d : Char) : (encode (b ++ [d])).length = (encode b).length + d.utf8Size := by
      simp
    rw [gather]
    split_ifs with hc hRoom hFull
    · apply ih
      rw [hSnoc]
      exact hRoom.2.2
    · exact ih b last hb
    · exact hb
    · apply ih
      rw [hSnoc]
      omega

/-- Where nothing is to be replaced and all of it fits, it is the name. -/
theorem gather_of_kept {limit : ℕ} (rs : List Char) : ∀ (b : List Char) (last : Bool),
    (∀ r ∈ rs, replaces U r = false) → (encode (b ++ rs)).length ≤ limit →
      gather U limit rs b last = b ++ rs := by
  induction rs with
  | nil => exact fun b last _ _ => (List.append_nil b).symm
  | cons c rs ih =>
    intro b last hrs hLen
    obtain ⟨hc, hrs⟩ := List.forall_mem_cons.1 hrs
    have hSplit : b ++ c :: rs = b ++ [c] ++ rs := by rw [List.append_assoc, List.singleton_append]
    have hRoom : (encode b).length + c.utf8Size ≤ limit := by
      rw [encode_append, encode_cons, List.length_append, List.length_append,
        String.length_utf8EncodeChar] at hLen
      omega
    rw [gather, if_neg (Bool.eq_false_iff.1 hc), if_neg (by omega), hSplit]
    exact ih _ _ hrs (hSplit ▸ hLen)

/-! ### The sanitized name -/

/-- Kept as it is, with nothing to be cut off at an end, and short enough. -/
structure IsStem (U : Unicode) (limit : ℕ) (t : List Char) : Prop where
  ne_nil : t ≠ []
  kept : ∀ r ∈ t, replaces U r = false
  trimmed : trim isCut t = t
  short : (encode t).length ≤ limit

theorem IsExt.length_le {ext : Bytes} (h : IsExt ext) : ext.length ≤ 32 := by
  obtain ⟨x, -, hLen, hx, rfl⟩ := h
  have hBytes : ∀ s : List Char, (∀ r ∈ s, isExtRune r = true) → (encode s).length = s.length := by
    intro s hs
    induction s with
    | nil => rfl
    | cons r s ih =>
      obtain ⟨hr, hs⟩ := List.forall_mem_cons.1 hs
      have hOne : r.utf8Size = 1 := by
        rw [Char.utf8Size_eq_one_iff, UInt32.le_iff_toNat_le]
        exact Nat.le_of_lt_succ (Nat.lt_succ_of_lt (isExtRune_bounds hr).2.1)
      rw [encode_cons, List.length_append, String.length_utf8EncodeChar, ih hs, hOne, List.length_cons,
        Nat.add_comm]
  have hDot : (encode ('.' :: x)).length = (encode x).length + 1 := rfl
  rw [hDot, hBytes x hx]
  omega

/-- A sanitized name is such a stem, and the extension. -/
theorem sanitizeFilename_spec (filename : Bytes) {ext : Bytes} (h : IsExt ext) :
    ∃ t, IsStem U (maxSanitizedFilenameBytes - ext.length) t ∧
      sanitizeFilename U P filename ext = encode t ++ ext := by
  have hLen := h.length_le
  have hLimit : max 1 (maxSanitizedFilenameBytes - ext.length) = maxSanitizedFilenameBytes - ext.length := by
    rw [maxSanitizedFilenameBytes]
    omega
  rw [sanitizeFilename, hLimit]
  obtain ⟨b, hb⟩ : ∃ b, gather U (maxSanitizedFilenameBytes - ext.length) (runes (stem P filename ext))
    [] false = b :=
    ⟨_, rfl⟩
  have hKept : ∀ r ∈ b, replaces U r = false := hb ▸ kept_gather _ _ _ fun _ hr => absurd hr List.not_mem_nil
  have hShort : (encode b).length ≤ maxSanitizedFilenameBytes - ext.length :=
    hb ▸ length_gather _ _ _ (Nat.zero_le _)
  rw [hb]
  split_ifs with hNil
  · refine ⟨"attachment".toList, ⟨by decide, ?_, by decide, ?_⟩, rfl⟩
    · have hAll : "attachment".toList.all isAsciiLetter = true := by decide
      exact fun r hr => kept_ascii (.inl (List.all_eq_true.1 hAll r hr))
    · have hTen : (encode "attachment".toList).length = 10 := by decide
      rw [hTen, maxSanitizedFilenameBytes]
      omega
  · obtain ⟨front, back, hSplit⟩ := trim_within isCut b
    refine ⟨trim isCut b,
      ⟨hNil, fun r hr => hKept r ((trim_within isCut b).subset hr), trim_trim isCut b, ?_⟩, rfl⟩
    rw [← hSplit, encode_append, encode_append, List.length_append, List.length_append] at hShort
    omega

/-- With nothing to be taken off a name but its extension. -/
theorem stem_encode {t x : List Char} (ht : ∀ r ∈ t, r ≠ '/' ∧ r ≠ '\\')
    (hx : ∀ r ∈ x, r ≠ '.' ∧ r ≠ '/' ∧ r ≠ '\\') :
    stem P (encode t ++ encode ('.' :: x)) (encode ('.' :: x)) = encode t := by
  have hWhole : encode t ++ encode ('.' :: x) = encode (t ++ '.' :: x) := (encode_append ..).symm
  have hByte : ∀ b ∈ encode (t ++ '.' :: x), b ≠ 0x2F ∧ b ≠ 0x5C := by
    have hNot (c : Char) (hc : c.toNat < 0x80) (hMem : ∀ r ∈ t ++ '.' :: x, r ≠ c) :
        ∀ b ∈ encode (t ++ '.' :: x), b ≠ UInt8.ofNat c.toNat := by
      rintro b hb rfl
      have hNat : (UInt8.ofNat c.toNat).toNat = c.toNat := ofNat_toNat_of_lt (by omega)
      obtain ⟨r, hr, hEq⟩ := (mem_encode (by omega)).1 hb
      exact hMem r hr (Char.toNat_inj.1 (hEq.symm.trans hNat))
    have hChars : ∀ r ∈ t ++ '.' :: x, r ≠ '/' ∧ r ≠ '\\' := by
      refine List.forall_mem_append.2 ⟨ht, List.forall_mem_cons.2 ⟨by decide, fun r hr => (hx r hr).2⟩⟩
    exact fun b hb => ⟨hNot '/' (by decide) (fun r hr => (hChars r hr).1) b hb,
      hNot '\\' (by decide) (fun r hr => (hChars r hr).2) b hb⟩
  have hName : (encode (t ++ '.' :: x)).rtakeWhile (fun b => b ≠ 0x2F ∧ b ≠ 0x5C) = encode (t ++ '.' :: x) :=
    List.rtakeWhile_eq_self_iff.2 fun b hb => decide_eq_true (hByte b hb)
  have hLast : (encode (t ++ '.' :: x)).rtakeWhile (fun b => !P.isPathSeparator b) =
    encode (t ++ '.' :: x) := by
    refine List.rtakeWhile_eq_self_iff.2 fun b hb => ?_
    rw [Bool.not_eq_true', Bool.eq_false_iff]
    exact fun hSep => (P.slashes b hSep).elim (hByte b hb).1 (hByte b hb).2
  have hTail : ∀ b ∈ encode x, decide (b ≠ (0x2E : UInt8)) = true := by
    intro b hb
    refine decide_eq_true ?_
    rintro rfl
    obtain ⟨r, hr, hEq⟩ := (mem_encode (by decide)).1 hb
    exact (hx r hr).1 (Char.toNat_inj.1 hEq.symm)
  have hDot : encode (t ++ '.' :: x) = encode t ++ 0x2E :: encode x := encode_append ..
  have hExt : P.ext (encode (t ++ '.' :: x)) = encode ('.' :: x) := by
    rw [Platform.ext, hLast, hDot, if_pos (List.mem_append_right _ (List.mem_cons_self ..)),
      rtakeWhile_append_cons (by decide) _ hTail]
    rfl
  have hSome : encode ('.' :: x) ≠ [] := List.cons_ne_nil _ _
  rw [stem, hWhole, hName, hExt, if_pos ⟨hSome, decide_eq_true rfl⟩, encode_append, List.length_append,
    Nat.add_sub_cancel, List.take_left]

/-- What is sanitized is so for good. -/
theorem sanitizeFilename_idem (filename : Bytes) {ext : Bytes} (h : IsExt ext) :
    sanitizeFilename U P (sanitizeFilename U P filename ext) ext = sanitizeFilename U P filename ext := by
  obtain ⟨t, ht, hName⟩ := sanitizeFilename_spec (U := U) (P := P) filename h
  have hLen := h.length_le
  have hLimit : max 1 (maxSanitizedFilenameBytes - ext.length) = maxSanitizedFilenameBytes - ext.length := by
    rw [maxSanitizedFilenameBytes]
    omega
  have hStem : stem P (encode t ++ ext) ext = encode t := by
    obtain ⟨x, -, -, hx, rfl⟩ := h
    exact stem_encode (fun r hr => kept_ne_slash (ht.kept r hr)) fun r hr => (isExtRune_bounds (hx r hr)).2.2
  have hGather : gather U (maxSanitizedFilenameBytes - ext.length) t [] false = t :=
    gather_of_kept t [] false ht.kept ht.short
  rw [hName, sanitizeFilename, hStem, runes_encode, hLimit]
  rw [hGather, ht.trimmed, if_neg ht.ne_nil]

end ManyAiCli.Attach
