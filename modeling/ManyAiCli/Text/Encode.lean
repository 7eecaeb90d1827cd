import ManyAiCli.Text.Strings

/-! Text as UTF-8: encoding a text and reading its runes gives the text back, and a byte below
`0x80` stands in an encoding only for the character it is. -/

namespace ManyAiCli.Text

/-- The bytes of a text. -/
def encode (s : List Char) : List UInt8 := s.flatMap String.utf8EncodeChar

@[simp] theorem encode_nil : encode [] = [] := rfl

@[simp] theorem encode_cons (c : Char) (s : List Char) :
    encode (c :: s) = String.utf8EncodeChar c ++ encode s := rfl

@[simp] theorem encode_append (s t : List Char) : encode (s ++ t) = encode s ++ encode t :=
  List.flatMap_append

/-! ### The bytes of one character -/

/-- A continuation byte for six bits. -/
def tailByte (n : ℕ) : UInt8 := UInt8.ofNat (n % 64 + 0x80)

theorem ofNat_toNat_of_lt {n : ℕ} (h : n < 256) : (UInt8.ofNat n).toNat = n := by
  rw [UInt8.toNat_ofNat', Nat.mod_eq_of_lt (by omega)]

theorem tailByte_toNat (n : ℕ) : (tailByte n).toNat = n % 64 + 0x80 := ofNat_toNat_of_lt (by omega)

theorem tailBits_tailByte (n : ℕ) : tailBits (tailByte n) = n % 64 := by
  rw [tailBits, tailByte_toNat]
  omega

theorem within_tailByte {n : ℕ} {lo hi : UInt8} (hlo : lo.toNat ≤ n % 64 + 0x80)
    (hhi : n % 64 + 0x80 ≤ hi.toNat) : within (tailByte n) lo hi = true := by
  simp only [within, Bool.and_eq_true, decide_eq_true_eq, UInt8.le_iff_toNat_le, tailByte_toNat]
  exact ⟨hlo, hhi⟩

theorem isTail_tailByte (n : ℕ) : isTail (tailByte n) = true := by
  apply within_tailByte
  · show 0x80 ≤ n % 64 + 0x80
    omega
  · show n % 64 + 0x80 ≤ 0xBF
    omega

theorem lead_one : ∀ n < 0x80, lead (UInt8.ofNat n) = some (1, 0x80, 0xBF) := by decide

theorem lead_two : ∀ n < 0x20, 2 ≤ n → lead (UInt8.ofNat (n + 0xC0)) = some (2, 0x80, 0xBF) := by decide

theorem lead_three : ∀ n < 0x10, lead (UInt8.ofNat (n + 0xE0)) =
    some (3, if n = 0 then 0xA0 else 0x80, if n = 0xD then 0x9F else 0xBF) := by decide

theorem lead_four : ∀ n < 5, lead (UInt8.ofNat (n + 0xF0)) =
    some (4, if n = 0 then 0x90 else 0x80, if n = 4 then 0x8F else 0xBF) := by decide

/-- A character is no surrogate and not beyond the last one. -/
theorem char_bounds (c : Char) : c.toNat < 0xD800 ∨ 0xDFFF < c.toNat ∧ c.toNat < 0x110000 := c.valid

/-- The encoding of a character decodes to it, whatever follows. -/
theorem decodeRune_encode (c : Char) (rest : List UInt8) :
    decodeRune (String.utf8EncodeChar c ++ rest) = (c, (String.utf8EncodeChar c).length) := by
  have hBounds := char_bounds c
  obtain ⟨v, hv⟩ : ∃ v, c.toNat = v := ⟨_, rfl⟩
  have hChar : Char.ofNat v = c := by rw [← hv, Char.ofNat_toNat]
  have hVal : c.val.toNat = v := hv
  rw [hv] at hBounds
  simp only [String.utf8EncodeChar, hVal]
  split_ifs with h₁ h₂ h₃
  · rw [List.singleton_append, decodeRune, lead_one v (by omega)]
    simp only [ofNat_toNat_of_lt (by omega : v < 256), hChar, List.length_singleton]
  · have hTail : UInt8.ofNat (v % 64 + 0x80) = tailByte v := rfl
    have hIn : within (tailByte v) 0x80 0xBF = true := isTail_tailByte v
    rw [hTail, List.cons_append, List.singleton_append, decodeRune, lead_two _ (by omega) (by omega)]
    simp only [hIn, if_true, ofNat_toNat_of_lt (by omega : v / 64 % 32 + 0xC0 < 256), tailBits_tailByte]
    rw [show (v / 64 % 32 + 0xC0) % 32 * 64 + v % 64 = v by omega, hChar]
    rfl
  · have hTail₁ : UInt8.ofNat (v / 64 % 64 + 0x80) = tailByte (v / 64) := rfl
    have hTail₂ : UInt8.ofNat (v % 64 + 0x80) = tailByte v := rfl
    have hIn : within (tailByte (v / 64)) (if v / 4096 % 16 = 0 then 0xA0 else 0x80)
        (if v / 4096 % 16 = 0xD then 0x9F else 0xBF) = true := by
      apply within_tailByte
      · split_ifs
        · show 0xA0 ≤ _
          omega
        · show 0x80 ≤ _
          omega
      · split_ifs
        · show _ ≤ 0x9F
          omega
        · show _ ≤ 0xBF
          omega
    rw [hTail₁, hTail₂]
    simp only [List.cons_append, List.nil_append, decodeRune, lead_three _ (by omega : v / 4096 % 16 < 16)]
    simp only [hIn, isTail_tailByte, Bool.and_self, if_true, tailBits_tailByte,
      ofNat_toNat_of_lt (by omega : v / 4096 % 16 + 0xE0 < 256)]
    rw [show ((v / 4096 % 16 + 0xE0) % 16 * 64 + v / 64 % 64) * 64 + v % 64 = v by omega, hChar]
    rfl
  · have hTail₁ : UInt8.ofNat (v / 4096 % 64 + 0x80) = tailByte (v / 4096) := rfl
    have hTail₂ : UInt8.ofNat (v / 64 % 64 + 0x80) = tailByte (v / 64) := rfl
    have hTail₃ : UInt8.ofNat (v % 64 + 0x80) = tailByte v := rfl
    have hIn : within (tailByte (v / 4096)) (if v / 262144 % 8 = 0 then 0x90 else 0x80)
        (if v / 262144 % 8 = 4 then 0x8F else 0xBF) = true := by
      apply within_tailByte
      · split_ifs
        · show 0x90 ≤ _
          omega
        · show 0x80 ≤ _
          omega
      · split_ifs
        · show _ ≤ 0x8F
          omega
        · show _ ≤ 0xBF
          omega
    rw [hTail₁, hTail₂, hTail₃]
    simp only [List.cons_append, List.nil_append, decodeRune, lead_four _ (by omega : v / 262144 % 8 < 5)]
    simp only [hIn, isTail_tailByte, Bool.and_self, if_true, tailBits_tailByte,
      ofNat_toNat_of_lt (by omega : v / 262144 % 8 + 0xF0 < 256)]
    rw [show (((v / 262144 % 8 + 0xF0) % 8 * 64 + v / 4096 % 64) * 64 + v / 64 % 64) * 64 + v % 64 = v by omega,
      hChar]
    rfl

/-- A byte below `0x80` encodes one character, and is in the encoding of no other. -/
theorem mem_utf8EncodeChar {b : UInt8} (hb : b.toNat < 0x80) (c : Char) :
    b ∈ String.utf8EncodeChar c ↔ b.toNat = c.toNat := by
  have hBounds := char_bounds c
  obtain ⟨v, hv⟩ : ∃ v, c.toNat = v := ⟨_, rfl⟩
  have hVal : c.val.toNat = v := hv
  rw [hv] at hBounds ⊢
  simp only [String.utf8EncodeChar, hVal]
  split_ifs with h₁ h₂ h₃ <;>
    simp only [List.mem_cons, List.not_mem_nil, or_false, ← UInt8.toNat_inj]
  · rw [ofNat_toNat_of_lt (by omega)]
  · rw [ofNat_toNat_of_lt (by omega), ofNat_toNat_of_lt (by omega)]
    omega
  · rw [ofNat_toNat_of_lt (by omega), ofNat_toNat_of_lt (by omega), ofNat_toNat_of_lt (by omega)]
    omega
  · rw [ofNat_toNat_of_lt (by omega), ofNat_toNat_of_lt (by omega), ofNat_toNat_of_lt (by omega),
      ofNat_toNat_of_lt (by omega)]
    omega

/-! ### Texts -/

theorem mem_encode {b : UInt8} (hb : b.toNat < 0x80) {s : List Char} :
    b ∈ encode s ↔ ∃ c ∈ s, b.toNat = c.toNat := by
  rw [encode, List.mem_flatMap]
  exact exists_congr fun c => and_congr_right fun _ => mem_utf8EncodeChar hb c

theorem length_le_length_encode (s : List Char) : s.length ≤ (encode s).length := by
  induction s with
  | nil => exact Nat.le_refl _
  | cons c s ih =>
    have hOne := c.utf8Size_pos
    rw [encode_cons, List.length_append, String.length_utf8EncodeChar, List.length_cons]
    omega

theorem encode_eq_nil {s : List Char} : encode s = [] ↔ s = [] := by
  refine ⟨fun h => ?_, fun h => h ▸ rfl⟩
  have hLen := length_le_length_encode s
  rw [h] at hLen
  exact List.eq_nil_of_length_eq_zero (Nat.le_zero.1 hLen)

/-- More rounds than bytes change nothing. -/
theorem runes_go_enough (bs : List UInt8) : ∀ n, bs.length ≤ n → runes.go n bs = runes bs := by
  induction hLen : bs.length using Nat.strong_induction_on generalizing bs with
  | _ len ih =>
    intro n hn
    cases bs with
    | nil => cases n <;> rfl
    | cons p ps =>
      have hWidth := decodeRune_width p ps
      obtain ⟨m, rfl⟩ : ∃ m, n = m + 1 := ⟨n - 1, by rw [List.length_cons] at hLen; omega⟩
      have hDrop : ((p :: ps).drop (decodeRune (p :: ps)).2).length ≤ ps.length := by
        rw [List.length_drop, List.length_cons]
        omega
      have hRounds (k : ℕ) (hk : ps.length ≤ k) := ih _ (by rw [← hLen, List.length_cons]; omega)
        ((p :: ps).drop (decodeRune (p :: ps)).2) rfl k (hDrop.trans hk)
      rw [runes, List.length_cons, runes.go, runes.go, hRounds m
        (by rw [← hLen, List.length_cons] at hn; omega),
        hRounds ps.length (Nat.le_refl _)]

/-- The first rune, where one is encoded in front. -/
theorem runes_append (c : Char) (rest : List UInt8) :
    runes (String.utf8EncodeChar c ++ rest) = c :: runes rest := by
  have hPos : 0 < (String.utf8EncodeChar c).length := by
    rw [String.length_utf8EncodeChar]
    exact c.utf8Size_pos
  have hDecode := decodeRune_encode c rest
  have hDrop : (String.utf8EncodeChar c ++ rest).drop (String.utf8EncodeChar c).length = rest := List.drop_left
  have hLen : (String.utf8EncodeChar c ++ rest).length = (String.utf8EncodeChar c).length + rest.length :=
    List.length_append
  obtain ⟨p, ps, hp⟩ : ∃ p ps, String.utf8EncodeChar c ++ rest = p :: ps :=
    List.exists_cons_of_ne_nil fun h => List.ne_nil_of_length_pos hPos (List.append_eq_nil_iff.1 h).1
  rw [hp] at hDecode hDrop hLen ⊢
  rw [runes, List.length_cons, runes.go, hDecode]
  rw [List.length_cons] at hLen
  rw [← hDrop]
  exact congrArg (c :: ·) (runes_go_enough _ ps.length (by rw [hDrop]; omega))

/-- What is read from an encoding is the text. -/
theorem runes_encode (s : List Char) : runes (encode s) = s := by
  induction s with
  | nil => rfl
  | cons c s ih => rw [encode_cons, runes_append, ih]

theorem encode_injective {s t : List Char} (h : encode s = encode t) : s = t := by
  rw [← runes_encode s, h, runes_encode]

end ManyAiCli.Text
