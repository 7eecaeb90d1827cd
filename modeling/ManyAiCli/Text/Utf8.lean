import Mathlib.Data.List.Basic
import Mathlib.Tactic.Common

/-! Decoding one rune from the front of a byte string, as Go's `unicode/utf8`
does it: an invalid or incomplete encoding decodes to the replacement character
with width one, and `fullRune` tells whether more bytes could still change the
answer. Once a rune is full, what follows it is irrelevant. -/

namespace ManyAiCli.Text

/-- `utf8.RuneError`. -/
def runeError : Char := '\uFFFD'

/-- Width of the encoding announced by a leading byte, with the range accepted
for the second byte; `none` for a byte that starts no encoding. -/
def lead (p : UInt8) : Option (ℕ × UInt8 × UInt8) :=
  if p < 0x80 then some (1, 0x80, 0xBF)
  else if p < 0xC2 then none
  else if p < 0xE0 then some (2, 0x80, 0xBF)
  else if p = 0xE0 then some (3, 0xA0, 0xBF)
  else if p = 0xED then some (3, 0x80, 0x9F)
  else if p < 0xF0 then some (3, 0x80, 0xBF)
  else if p = 0xF0 then some (4, 0x90, 0xBF)
  else if p < 0xF4 then some (4, 0x80, 0xBF)
  else if p = 0xF4 then some (4, 0x80, 0x8F)
  else none

/-- `lo ≤ p ≤ hi`. -/
def within (p lo hi : UInt8) : Bool := lo ≤ p && p ≤ hi

/-- A continuation byte. -/
def isTail (p : UInt8) : Bool := within p 0x80 0xBF

/-- Payload bits of a continuation byte. -/
def tailBits (p : UInt8) : ℕ := p.toNat % 64

/-- `utf8.DecodeRune`: the first rune and its width. -/
def decodeRune : List UInt8 → Char × ℕ
  | [] => (runeError, 0)
  | p :: ps =>
    match lead p with
    | none => (runeError, 1)
    | some (1, _, _) => (Char.ofNat p.toNat, 1)
    | some (2, lo, hi) =>
      match ps with
      | p₁ :: _ =>
        if within p₁ lo hi then (Char.ofNat (p.toNat % 32 * 64 + tailBits p₁), 2)
        else (runeError, 1)
      | _ => (runeError, 1)
    | some (3, lo, hi) =>
      match ps with
      | p₁ :: p₂ :: _ =>
        if within p₁ lo hi && isTail p₂ then
          (Char.ofNat ((p.toNat % 16 * 64 + tailBits p₁) * 64 + tailBits p₂), 3)
        else (runeError, 1)
      | _ => (runeError, 1)
    | some (_, lo, hi) =>
      match ps with
      | p₁ :: p₂ :: p₃ :: _ =>
        if within p₁ lo hi && isTail p₂ && isTail p₃ then
          (Char.ofNat (((p.toNat % 8 * 64 + tailBits p₁) * 64 + tailBits p₂) * 64 + tailBits p₃), 4)
        else (runeError, 1)
      | _ => (runeError, 1)

/-- `utf8.FullRune`: the bytes begin with a full encoding; an invalid one is
full, since it decodes as an error of width one. -/
def fullRune : List UInt8 → Bool
  | [] => false
  | p :: ps =>
    match lead p with
    | none => true
    | some (n, lo, hi) =>
      n ≤ ps.length + 1 ||
      match ps with
      | [] => false
      | [p₁] => !within p₁ lo hi
      | p₁ :: p₂ :: _ => !within p₁ lo hi || !isTail p₂

theorem lead_width {p : UInt8} {n : ℕ} {lo hi : UInt8} (h : lead p = some (n, lo, hi)) :
    1 ≤ n ∧ n ≤ 4 := by
  unfold lead at h
  split_ifs at h <;> simp only [Option.some.injEq, Prod.mk.injEq] at h <;> omega

theorem lead_range {p : UInt8} {n : ℕ} {lo hi : UInt8} (h : lead p = some (n, lo, hi)) :
    0x80 ≤ lo := by
  unfold lead at h
  split_ifs at h <;> simp only [Option.some.injEq, Prod.mk.injEq] at h <;> rw [← h.2.1] <;> decide

/-- A rune takes at least one byte of a non-empty string. -/
theorem decodeRune_width (p : UInt8) (ps : List UInt8) : 1 ≤ (decodeRune (p :: ps)).2 := by
  simp only [decodeRune]
  repeat' split
  all_goals simp

/-- A rune takes no more bytes than there are. -/
theorem decodeRune_le (p : UInt8) (ps : List UInt8) :
    (decodeRune (p :: ps)).2 ≤ (p :: ps).length := by
  simp only [decodeRune]
  repeat' split
  all_goals simp only [List.length_cons]; omega

/-- More bytes leave a full rune full. -/
theorem fullRune_append {xs : List UInt8} (h : fullRune xs = true) (ys : List UInt8) :
    fullRune (xs ++ ys) = true := by
  rcases xs with _ | ⟨p, ps⟩
  · simp [fullRune] at h
  rcases hl : lead p with _ | ⟨n, lo, hi⟩
  · simp [fullRune, hl]
  simp only [List.cons_append, fullRune, hl, Bool.or_eq_true, decide_eq_true_eq,
    List.length_append] at h ⊢
  rcases h with h | h
  · exact .inl (by omega)
  · rcases ps with _ | ⟨p₁, _ | ⟨p₂, ps⟩⟩
    · simp at h
    · rcases ys with _ | ⟨y, ys⟩ <;> simp_all
    · exact .inr h

/-- An incomplete rune holds no byte below `0x80`. -/
theorem le_of_not_fullRune {xs : List UInt8} (h : fullRune xs = false) {q : UInt8} (hq : q ∈ xs) :
    0x80 ≤ q := by
  rcases xs with _ | ⟨p, ps⟩
  · simp at hq
  rcases hl : lead p with _ | ⟨n, lo, hi⟩
  · simp [fullRune, hl] at h
  obtain ⟨_, hn⟩ := lead_width hl
  have hlo := lead_range hl
  simp only [fullRune, hl, Bool.or_eq_false_iff, decide_eq_false_iff_not, Nat.not_le] at h
  obtain ⟨hlen, h⟩ := h
  have hp : 0x80 ≤ p := by
    by_contra hp
    rw [lead, if_pos (by simpa using hp)] at hl
    simp only [Option.some.injEq, Prod.mk.injEq] at hl
    omega
  rcases ps with _ | ⟨p₁, _ | ⟨p₂, _ | ⟨p₃, ps⟩⟩⟩
  · simp_all
  · simp only [within, Bool.not_eq_false', Bool.and_eq_true, decide_eq_true_eq] at h
    simp only [List.mem_cons, List.not_mem_nil, or_false] at hq
    rcases hq with rfl | rfl
    · exact hp
    · exact UInt8.le_trans hlo h.1
  · simp only [within, isTail, Bool.or_eq_false_iff, Bool.not_eq_false', Bool.and_eq_true,
      decide_eq_true_eq] at h
    simp only [List.mem_cons, List.not_mem_nil, or_false] at hq
    rcases hq with rfl | rfl | rfl
    · exact hp
    · exact UInt8.le_trans hlo h.1.1
    · exact h.2.1
  · simp only [List.length_cons] at hlen
    omega

/-- An incomplete rune decodes as an error. -/
theorem decodeRune_of_not_fullRune {p : UInt8} {ps : List UInt8} (h : fullRune (p :: ps) = false) :
    decodeRune (p :: ps) = (runeError, 1) := by
  rcases hl : lead p with _ | ⟨n, lo, hi⟩
  · simp [fullRune, hl] at h
  obtain ⟨h1, h4⟩ := lead_width hl
  simp only [fullRune, hl, Bool.or_eq_false_iff, decide_eq_false_iff_not, Nat.not_le] at h
  obtain ⟨hlen, -⟩ := h
  simp only [decodeRune, hl]
  obtain rfl | rfl | rfl | rfl : n = 1 ∨ n = 2 ∨ n = 3 ∨ n = 4 := by omega
  · omega
  · rcases ps with _ | ⟨p₁, ps⟩
    · rfl
    · simp only [List.length_cons] at hlen; omega
  · rcases ps with _ | ⟨p₁, _ | ⟨p₂, ps⟩⟩
    · rfl
    · rfl
    · simp only [List.length_cons] at hlen; omega
  · rcases ps with _ | ⟨p₁, _ | ⟨p₂, _ | ⟨p₃, ps⟩⟩⟩
    · rfl
    · rfl
    · rfl
    · simp only [List.length_cons] at hlen; omega

/-- Bytes after a full rune do not change how it decodes. -/
theorem decodeRune_append {xs : List UInt8} (h : fullRune xs = true) (ys : List UInt8) :
    decodeRune (xs ++ ys) = decodeRune xs := by
  rcases xs with _ | ⟨p, ps⟩
  · simp [fullRune] at h
  rcases hl : lead p with _ | ⟨n, lo, hi⟩
  · simp [decodeRune, hl]
  obtain ⟨h1, h4⟩ := lead_width hl
  simp only [fullRune, hl, Bool.or_eq_true, decide_eq_true_eq] at h
  simp only [List.cons_append, decodeRune, hl]
  -- the width fixes how many bytes are read, the length how many are there
  obtain rfl | rfl | rfl | rfl : n = 1 ∨ n = 2 ∨ n = 3 ∨ n = 4 := by omega
  · rfl
  · rcases ps with _ | ⟨p₁, ps⟩
    · simp at h
    · rfl
  · rcases ps with _ | ⟨p₁, _ | ⟨p₂, ps⟩⟩
    · simp at h
    · rcases ys with _ | ⟨y, ys⟩ <;> simp_all
    · rfl
  · rcases ps with _ | ⟨p₁, _ | ⟨p₂, _ | ⟨p₃, ps⟩⟩⟩
    · simp at h
    · rcases ys with _ | ⟨y, _ | ⟨y', ys⟩⟩ <;> simp_all
    · rcases ys with _ | ⟨y, ys⟩
      · rfl
      · have hw : (within p₁ lo hi && isTail p₂) = false := by
          rw [Bool.and_eq_false_iff]; simpa using h
        simp [hw]
    · rfl

theorem lead_of_isTail {q : UInt8} (h : isTail q = true) : lead q = none := by
  simp only [isTail, within, Bool.and_eq_true, decide_eq_true_eq] at h
  have hlow : ¬ q < 0x80 := UInt8.not_lt.2 h.1
  have hhigh : q < 0xC2 := UInt8.lt_of_le_of_lt h.2 (by decide)
  rw [lead, if_neg hlow, if_pos hhigh]

theorem isTail_of_within {p q : UInt8} {n : ℕ} {lo hi : UInt8} (h : lead p = some (n, lo, hi))
    (hq : within q lo hi = true) : isTail q = true := by
  have hhi : hi ≤ 0xBF := by
    unfold lead at h
    split_ifs at h <;> simp only [Option.some.injEq, Prod.mk.injEq] at h <;> rw [← h.2.2] <;> decide
  simp only [isTail, within, Bool.and_eq_true, decide_eq_true_eq] at hq ⊢
  exact ⟨UInt8.le_trans (lead_range h) hq.1, UInt8.le_trans hq.2 hhi⟩

/-- A rune is an error of one byte, or it is its leading byte and continuation bytes. -/
theorem decodeRune_cases (p : UInt8) (ps : List UInt8) :
    decodeRune (p :: ps) = (runeError, 1) ∨
      ∃ n lo hi, lead p = some (n, lo, hi) ∧ (decodeRune (p :: ps)).2 = n ∧
        ∀ q ∈ ps.take (n - 1), isTail q = true := by
  rcases hl : lead p with _ | ⟨n, lo, hi⟩
  · left
    simp [decodeRune, hl]
  obtain ⟨h1, h4⟩ := lead_width hl
  simp only [decodeRune, hl]
  obtain rfl | rfl | rfl | rfl : n = 1 ∨ n = 2 ∨ n = 3 ∨ n = 4 := by omega
  · exact .inr ⟨1, lo, hi, rfl, rfl, by simp⟩
  · rcases ps with _ | ⟨p₁, ps⟩
    · exact .inl rfl
    · by_cases hw : within p₁ lo hi = true
      · right
        exact ⟨2, lo, hi, rfl, by simp [hw], by simpa using isTail_of_within hl hw⟩
      · simp [hw]
  · rcases ps with _ | ⟨p₁, _ | ⟨p₂, ps⟩⟩
    · exact .inl rfl
    · exact .inl rfl
    · by_cases hw : (within p₁ lo hi && isTail p₂) = true
      · right
        have htail := Bool.and_eq_true_iff.1 hw
        exact ⟨3, lo, hi, rfl, by simp [hw], by simpa using ⟨isTail_of_within hl htail.1, htail.2⟩⟩
      · simp only [hw]
        exact .inl rfl
  · rcases ps with _ | ⟨p₁, _ | ⟨p₂, _ | ⟨p₃, ps⟩⟩⟩
    · exact .inl rfl
    · exact .inl rfl
    · exact .inl rfl
    · by_cases hw : (within p₁ lo hi && isTail p₂ && isTail p₃) = true
      · right
        have htail := Bool.and_eq_true_iff.1 hw
        have hfirst := Bool.and_eq_true_iff.1 htail.1
        exact ⟨4, lo, hi, rfl, by simp [hw], by simpa using ⟨isTail_of_within hl hfirst.1, hfirst.2, htail.2⟩⟩
      · simp only [hw]
        exact .inl rfl

/-- An incomplete rune is a leading byte and too few continuation bytes. -/
theorem isTail_of_not_fullRune {p : UInt8} {ps : List UInt8} (h : fullRune (p :: ps) = false) :
    (∃ n lo hi, lead p = some (n, lo, hi) ∧ ps.length + 1 < n) ∧ ∀ q ∈ ps, isTail q = true := by
  rcases hl : lead p with _ | ⟨n, lo, hi⟩
  · simp [fullRune, hl] at h
  have h4 := (lead_width hl).2
  simp only [fullRune, hl, Bool.or_eq_false_iff, decide_eq_false_iff_not, Nat.not_le] at h
  obtain ⟨hlen, h⟩ := h
  refine ⟨⟨n, lo, hi, rfl, hlen⟩, ?_⟩
  rcases ps with _ | ⟨p₁, _ | ⟨p₂, _ | ⟨p₃, ps⟩⟩⟩
  · simp
  · simpa using isTail_of_within hl (by simpa using h)
  · simp only [Bool.or_eq_false_iff, Bool.not_eq_false'] at h
    simpa using ⟨isTail_of_within hl h.1, h.2⟩
  · simp only [List.length_cons] at hlen
    omega

end ManyAiCli.Text
