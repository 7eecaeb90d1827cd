import ManyAiCli.Wrapper.PtyPump

/-! `repairMojibakeUTF8` (`output_encoding_windows.go`): output in UTF-8 that was read as Windows-1252 and
written as UTF-8 once more. Of which texts the repair gives back what was garbled, and what it leaves
alone. -/

namespace ManyAiCli.Wrapper.Mojibake

open Text

theorem encode_runes_iff (bs : List UInt8) : encode (runes bs) = bs ↔ ValidUtf8 bs := by
  constructor
  · intro h
    exact ⟨runes bs, h.symm⟩
  · rintro ⟨s, rfl⟩
    rw [runes_encode]

instance decidableValidUtf8 (bs : List UInt8) : Decidable (ValidUtf8 bs) := decidable_of_iff _ (encode_runes_iff bs)

def windows1252Reverse : List (Char × UInt8) :=
  [('\u20ac', 0x80), ('\u201a', 0x82), ('\u0192', 0x83), ('\u201e', 0x84), ('\u2026', 0x85), ('\u2020', 0x86),
    ('\u2021', 0x87), ('\u02c6', 0x88), ('\u2030', 0x89), ('\u0160', 0x8a), ('\u2039', 0x8b), ('\u0152', 0x8c),
    ('\u017d', 0x8e), ('\u2018', 0x91), ('\u2019', 0x92), ('\u201c', 0x93), ('\u201d', 0x94), ('\u2022', 0x95),
    ('\u2013', 0x96), ('\u2014', 0x97), ('\u02dc', 0x98), ('\u2122', 0x99), ('\u0161', 0x9a), ('\u203a', 0x9b),
    ('\u0153', 0x9c), ('\u017e', 0x9e), ('\u0178', 0x9f)]

/-- The byte of one rune; the three ranges up to `0xff` are written as they are. -/
def encodeRune (r : Char) : Option UInt8 :=
  if r.toNat ≤ 0xff then some (UInt8.ofNat r.toNat) else windows1252Reverse.lookup r

def encodeWindows1252 (s : List Char) : Option (List UInt8) := s.mapM encodeRune

/-- A weight added up over the runes of a text. -/
def total (weight : Char → ℕ) (s : List Char) : ℕ := s.foldr (fun r score => weight r + score) 0

def mojibakeWeight (r : Char) : ℕ :=
  if r = 'Ã' ∨ r = 'ã' ∨ r = 'â' ∨ r = 'Â' then 2
  else if r = 'å' ∨ r = 'æ' ∨ r = 'ç' then 1
  else 0

def mojibakeScore (s : List Char) : ℕ := total mojibakeWeight s

/-- A kana, a CJK character, a piece of a box, an arrow, a symbol. -/
def isSignal (r : Char) : Bool :=
  0x3040 ≤ r.toNat && r.toNat ≤ 0x30ff || 0x3400 ≤ r.toNat && r.toNat ≤ 0x9fff ||
    0x2500 ≤ r.toNat && r.toNat ≤ 0x257f || 0x2190 ≤ r.toNat && r.toNat ≤ 0x21ff ||
    0x2600 ≤ r.toNat && r.toNat ≤ 0x27bf

def repairedSignalScore (s : List Char) : ℕ := s.countP isSignal

def repairMojibakeUTF8 (data : List UInt8) : List UInt8 :=
  if data = [] ∨ ¬ ValidUtf8 data then data
  else if mojibakeScore (runes data) = 0 then data
  else match encodeWindows1252 (runes data) with
    | none => data
    | some raw =>
      if ¬ ValidUtf8 raw then data
      else if mojibakeScore (runes data) ≤ mojibakeScore (runes raw) ∨ repairedSignalScore (runes raw) = 0
        then data
      else raw

/-- The messages of `ptyPump`, each of them repaired. -/
def sent (reads : List (List UInt8)) : List (List UInt8) := (PtyPump.ptyPump reads).map repairMojibakeUTF8

/-! ### Reading as Windows-1252 -/

/-- The rune Windows reads for a byte; the five bytes without one stand for the control character. -/
def decode1252 (b : UInt8) : Char :=
  match windows1252Reverse.find? fun entry => entry.2 = b with
  | some entry => entry.1
  | none => Char.ofNat b.toNat

/-- A text as it arrives when its bytes were read as Windows-1252. -/
def garble (t : List Char) : List Char := (encode t).map decode1252

theorem garble_cons (c : Char) (t : List Char) :
    garble (c :: t) = (String.utf8EncodeChar c).map decode1252 ++ garble t := List.map_append

theorem toNat_ofByte (b : UInt8) : (Char.ofNat b.toNat).toNat = b.toNat := by
  have hSmall := b.toNat_lt
  have hValid : b.toNat.isValidChar := .inl (by omega)
  rw [Char.ofNat, dif_pos hValid]
  rfl

/-- What holds of the table and of the runes below `0x100` holds of every rune read. -/
theorem decode1252_cases (b : UInt8) :
    (∃ r, (r, b) ∈ windows1252Reverse ∧ decode1252 b = r) ∨ (decode1252 b).toNat = b.toNat := by
  rw [decode1252]
  cases hFind : windows1252Reverse.find? fun entry => entry.2 = b with
  | none => exact .inr (toNat_ofByte b)
  | some entry =>
    have hByte : entry.2 = b := by simpa using List.find?_some hFind
    exact .inl ⟨entry.1, hByte ▸ List.mem_of_find?_eq_some hFind, rfl⟩

/-- What is used of the table: it is read back, and its runes and its bytes score nothing. -/
theorem reverse_entries : windows1252Reverse.all (fun entry =>
    encodeRune entry.1 == some entry.2 && mojibakeWeight entry.1 == 0 && !isSignal entry.1 &&
      decide (0x80 ≤ entry.2.toNat ∧ entry.2.toNat < 0xa0)) = true := by
  decide

theorem reverse_entry {r : Char} {b : UInt8} (h : (r, b) ∈ windows1252Reverse) :
    encodeRune r = some b ∧ mojibakeWeight r = 0 ∧ isSignal r = false ∧ 0x80 ≤ b.toNat ∧ b.toNat < 0xa0 := by
  have hEntry := List.all_eq_true.1 reverse_entries _ h
  simp only [Bool.and_eq_true, beq_iff_eq, Bool.not_eq_true', decide_eq_true_eq] at hEntry
  exact ⟨hEntry.1.1.1, hEntry.1.1.2, hEntry.1.2, hEntry.2.1, hEntry.2.2⟩

theorem encodeRune_decode1252 (b : UInt8) : encodeRune (decode1252 b) = some b := by
  rcases decode1252_cases b with ⟨r, hEntry, hRead⟩ | hSame
  · rw [hRead]
    exact (reverse_entry hEntry).1
  · have hSmall := b.toNat_lt
    rw [encodeRune, if_pos (by omega), hSame, UInt8.ofNat_toNat]

/-- Encoding undoes the reading, whatever the bytes are. -/
theorem encodeWindows1252_decode1252 (bs : List UInt8) : encodeWindows1252 (bs.map decode1252) = some bs := by
  induction bs with
  | nil => rfl
  | cons b bs ih =>
    rw [encodeWindows1252] at ih ⊢
    rw [List.map_cons, List.mapM_cons, encodeRune_decode1252, ih]
    rfl

/-- No rune of Windows-1252 is a signal. -/
theorem isSignal_encodeRune {r : Char} {b : UInt8} (h : encodeRune r = some b) : isSignal r = false := by
  rw [encodeRune] at h
  split_ifs at h with hSmall
  · simp only [isSignal, Bool.or_eq_false_iff, Bool.and_eq_false_iff, decide_eq_false_iff_not]
    omega
  · obtain ⟨before, after, hTable, -⟩ := List.lookup_eq_some_iff.1 h
    have hEntry : (r, b) ∈ windows1252Reverse := by
      rw [hTable]
      exact List.mem_append_right before List.mem_cons_self
    exact (reverse_entry hEntry).2.2.1

theorem isSignal_encodeWindows1252 {s : List Char} {bs : List UInt8} (h : encodeWindows1252 s = some bs) :
    ∀ r ∈ s, isSignal r = false := by
  induction s generalizing bs with
  | nil =>
    intro r hr
    exact absurd hr List.not_mem_nil
  | cons c s ih =>
    rw [encodeWindows1252, List.mapM_cons, Option.bind_eq_bind, Option.bind_eq_some_iff] at h
    obtain ⟨b, hb, h⟩ := h
    rw [Option.bind_eq_bind, Option.bind_eq_some_iff] at h
    obtain ⟨rest, hRest, -⟩ := h
    intro r hr
    rcases List.mem_cons.1 hr with rfl | hIn
    · exact isSignal_encodeRune hb
    · exact ih hRest r hIn

/-! ### Scores -/

@[simp] theorem total_nil (weight : Char → ℕ) : total weight [] = 0 := rfl

@[simp] theorem total_cons (weight : Char → ℕ) (r : Char) (s : List Char) :
    total weight (r :: s) = weight r + total weight s := rfl

theorem total_append (weight : Char → ℕ) (s t : List Char) :
    total weight (s ++ t) = total weight s + total weight t := by
  induction s with
  | nil => rw [List.nil_append, total_nil, Nat.zero_add]
  | cons r s ih => rw [List.cons_append, total_cons, total_cons, ih, Nat.add_assoc]

theorem total_le {light heavy : Char → ℕ} (h : ∀ r, light r ≤ heavy r) (s : List Char) :
    total light s ≤ total heavy s := by
  induction s with
  | nil => exact Nat.le_refl _
  | cons r s ih => exact Nat.add_le_add (h r) ih

/-- Of two weights, one never above the other, the totals differ where they differ for a rune. -/
theorem total_lt_iff {light heavy : Char → ℕ} (h : ∀ r, light r ≤ heavy r) (s : List Char) :
    total light s < total heavy s ↔ ∃ r ∈ s, light r < heavy r := by
  induction s with
  | nil => simp
  | cons r s ih =>
    have hHead := h r
    have hRest := total_le h s
    rw [total_cons, total_cons, List.exists_mem_cons_iff, ← ih]
    omega

/-- The weight of a rune by its number. -/
def numberWeight (n : ℕ) : ℕ :=
  if n = 0xc3 ∨ n = 0xe3 ∨ n = 0xe2 ∨ n = 0xc2 then 2
  else if n = 0xe5 ∨ n = 0xe6 ∨ n = 0xe7 then 1
  else 0

theorem mojibakeWeight_eq (r : Char) : mojibakeWeight r = numberWeight r.toNat := by
  simp only [mojibakeWeight, numberWeight, ← Char.toNat_inj]
  rfl

theorem mojibakeWeight_decode1252 (b : UInt8) : mojibakeWeight (decode1252 b) = numberWeight b.toNat := by
  rcases decode1252_cases b with ⟨r, hEntry, hRead⟩ | hSame
  · obtain ⟨-, hZero, -, hLow, hHigh⟩ := reverse_entry hEntry
    rw [hRead, hZero, numberWeight, if_neg (by omega), if_neg (by omega)]
  · rw [mojibakeWeight_eq, hSame]

/-- What a character weighs once it is garbled: only its first byte counts. -/
def garbledWeight (c : Char) : ℕ :=
  if 0x80 ≤ c.toNat ∧ c.toNat < 0x100 ∨ 0x2000 ≤ c.toNat ∧ c.toNat < 0x4000 then 2
  else if 0x5000 ≤ c.toNat ∧ c.toNat < 0x8000 then 1
  else 0

theorem mojibakeWeight_tail (n : ℕ) : mojibakeWeight (decode1252 (UInt8.ofNat (n % 64 + 0x80))) = 0 := by
  rw [mojibakeWeight_decode1252, ofNat_toNat_of_lt (by omega), numberWeight, if_neg (by omega), if_neg
    (by omega)]

theorem mojibakeWeight_lead {n : ℕ} (h : n < 256) :
    mojibakeWeight (decode1252 (UInt8.ofNat n)) = numberWeight n := by
  rw [mojibakeWeight_decode1252, ofNat_toNat_of_lt h]

theorem total_garbled_char (c : Char) :
    total mojibakeWeight ((String.utf8EncodeChar c).map decode1252) = garbledWeight c := by
  have hBounds := char_bounds c
  obtain ⟨v, hv⟩ : ∃ v, c.toNat = v := ⟨_, rfl⟩
  have hVal : c.val.toNat = v := hv
  rw [garbledWeight]
  rw [hv] at hBounds ⊢
  -- one case for each length of the encoding
  by_cases hOne : v ≤ 0x7f
  · simp only [String.utf8EncodeChar, hVal, hOne, if_true, List.map_cons, List.map_nil, total_cons, total_nil]
    rw [mojibakeWeight_lead (by omega), numberWeight]
    split_ifs <;> omega
  by_cases hTwo : v ≤ 0x7ff
  · simp only [String.utf8EncodeChar, hVal, hOne, hTwo, if_true, if_false, List.map_cons, List.map_nil,
    total_cons,
      total_nil, mojibakeWeight_tail]
    rw [mojibakeWeight_lead (by omega), numberWeight]
    split_ifs <;> omega
  by_cases hThree : v ≤ 0xffff
  · simp only [String.utf8EncodeChar, hVal, hOne, hTwo, hThree, if_true, if_false, List.map_cons, List.map_nil,
      total_cons, total_nil, mojibakeWeight_tail]
    rw [mojibakeWeight_lead (by omega), numberWeight]
    split_ifs <;> omega
  · simp only [String.utf8EncodeChar, hVal, hOne, hTwo, hThree, if_false, List.map_cons, List.map_nil,
    total_cons,
      total_nil, mojibakeWeight_tail]
    rw [mojibakeWeight_lead (by omega), numberWeight]
    split_ifs <;> omega

theorem mojibakeScore_garble (t : List Char) : mojibakeScore (garble t) = total garbledWeight t := by
  rw [mojibakeScore]
  induction t with
  | nil => rfl
  | cons c t ih => rw [garble_cons, total_append, total_garbled_char, ih, total_cons]

theorem mojibakeWeight_le (c : Char) : mojibakeWeight c ≤ garbledWeight c := by
  rw [mojibakeWeight_eq, numberWeight, garbledWeight]
  split_ifs <;> omega

/-- A character whose first byte scores, and higher than the character itself: what lies in Latin-1 beyond
ASCII but `Â`, `Ã`, `â` and `ã`, in `U+2000`-`U+3FFF` or in `U+5000`-`U+7FFF`. -/
def telltale (c : Char) : Bool :=
  0x80 ≤ c.toNat && c.toNat < 0x100 && !(c ∈ ['Â', 'Ã', 'â', 'ã'] : Bool) ||
    0x2000 ≤ c.toNat && c.toNat < 0x4000 || 0x5000 ≤ c.toNat && c.toNat < 0x8000

theorem telltale_iff (c : Char) : telltale c = true ↔ mojibakeWeight c < garbledWeight c := by
  rw [mojibakeWeight_eq, numberWeight, garbledWeight]
  simp only [telltale, Bool.or_eq_true, Bool.and_eq_true, decide_eq_true_eq, Bool.not_eq_true',
    decide_eq_false_iff_not,
    List.mem_cons, List.not_mem_nil, or_false, ← Char.toNat_inj, Char.reduceToNat]
  split_ifs <;> omega

/-- Garbling never lowers the score, and raises it where there is a telltale character. -/
theorem mojibakeScore_lt_garble (t : List Char) :
    mojibakeScore t < mojibakeScore (garble t) ↔ t.any telltale := by
  rw [mojibakeScore_garble, mojibakeScore, total_lt_iff mojibakeWeight_le, List.any_eq_true]
  simp only [telltale_iff]

/-! ### The repair -/

theorem repairedSignalScore_eq_zero (u : List Char) : repairedSignalScore u = 0 ↔ ¬ u.any isSignal := by
  rw [repairedSignalScore, List.countP_eq_zero, List.any_eq_true]
  push Not
  rfl

/-- What decides where the runes received are the Windows-1252 reading of a text. -/
theorem repair_of_encode {s u : List Char} (h : encodeWindows1252 s = some (encode u)) :
    repairMojibakeUTF8 (encode s) =
      if mojibakeScore u < mojibakeScore s ∧ u.any isSignal then encode u else encode s := by
  have hValid (t : List Char) : ¬ ¬ ValidUtf8 (encode t) := not_not_intro ⟨t, rfl⟩
  rw [repairMojibakeUTF8, runes_encode, h]
  by_cases hNil : encode s = []
  · -- the text received is empty, and so is the text repaired
    rw [if_pos (.inl hNil)]
    rw [encode_eq_nil] at hNil
    subst hNil
    rw [if_neg fun hLower => Nat.not_lt_zero _ hLower.1]
  · rw [if_neg (not_or.2 ⟨hNil, hValid s⟩)]
    simp only [runes_encode, if_neg (hValid u), repairedSignalScore_eq_zero]
    by_cases hBetter : mojibakeScore u < mojibakeScore s ∧ u.any isSignal
    · have hTake : ¬ (mojibakeScore s ≤ mojibakeScore u ∨ ¬ u.any isSignal) := by
        rintro (hHigher | hNone)
        · omega
        · exact hNone hBetter.2
      rw [if_pos hBetter, if_neg (by omega), if_neg hTake]
    · have hKeep : mojibakeScore s ≤ mojibakeScore u ∨ ¬ u.any isSignal := by
        rw [← Nat.not_lt]
        exact not_and_or.1 hBetter
      rw [if_neg hBetter, if_pos hKeep, ite_self]

/-- A repair happens on such a reading only. -/
theorem repair_cases (data : List UInt8) : repairMojibakeUTF8 data = data ∨
    ∃ s u, data = encode s ∧ encodeWindows1252 s = some (encode u) ∧ (∃ r ∈ u, isSignal r) ∧
      mojibakeScore u < mojibakeScore s ∧ repairMojibakeUTF8 data = encode u := by
  by_cases hData : ValidUtf8 data
  swap
  · exact .inl (by rw [repairMojibakeUTF8, if_pos (.inr hData)])
  obtain ⟨s, rfl⟩ := hData
  by_cases hRaw : ∃ u, encodeWindows1252 s = some (encode u)
  · obtain ⟨u, hu⟩ := hRaw
    have hRepair := repair_of_encode hu
    split_ifs at hRepair with hBetter
    · exact .inr ⟨s, u, rfl, hu, List.any_eq_true.1 hBetter.2, hBetter.1, hRepair⟩
    · exact .inl hRepair
  · -- the runes are no bytes of Windows-1252, or their bytes are no text
    left
    rw [repairMojibakeUTF8, runes_encode]
    cases hEncoded : encodeWindows1252 s with
    | none => split_ifs <;> rfl
    | some raw =>
      have hInvalid : ¬ ValidUtf8 raw := by
        rintro ⟨u, rfl⟩
        exact hRaw ⟨u, hEncoded⟩
      simp only [if_pos hInvalid]
      split_ifs <;> rfl

/-- What signals that a repair is right is in no text that is repaired. -/
theorem repair_of_signal {t : List Char} (h : ∃ r ∈ t, isSignal r) :
    repairMojibakeUTF8 (encode t) = encode t := by
  rcases repair_cases (encode t) with hSame | ⟨s, u, hs, hEncoded, -, -, -⟩
  · exact hSame
  · obtain ⟨r, hr, hSignal⟩ := h
    rw [encode_injective hs] at hr
    rw [isSignal_encodeWindows1252 hEncoded r hr] at hSignal
    exact absurd hSignal Bool.false_ne_true

/-- A text whose UTF-8 was read as Windows-1252 is given back where it has a signal and a telltale character;
any other one is left as it came. -/
theorem repair_garbled (t : List Char) :
    repairMojibakeUTF8 (encode (garble t)) =
      if t.any telltale ∧ t.any isSignal then encode t else encode (garble t) := by
  have hBytes : encodeWindows1252 (garble t) = some (encode t) := encodeWindows1252_decode1252 (encode t)
  rw [repair_of_encode hBytes]
  simp only [mojibakeScore_lt_garble]

/-- `中` alone is not repaired: none of its bytes scores. -/
example : repairMojibakeUTF8 (encode (garble ['中'])) = encode (garble ['中']) := by decide

/-- Repairing is done once and for all, and only to what is a Windows-1252 reading of the result. -/
theorem repair_settled (data : List UInt8) :
    repairMojibakeUTF8 (repairMojibakeUTF8 data) = repairMojibakeUTF8 data ∧
      (repairMojibakeUTF8 data ≠ data → ∃ s u, data = encode s ∧ repairMojibakeUTF8 data = encode u ∧
        encodeWindows1252 s = some (encode u) ∧ 0 < mojibakeScore s ∧ (∃ r ∈ u, isSignal r)) := by
  rcases repair_cases data with hSame | ⟨s, u, hs, hEncoded, hSignal, hLower, hRepair⟩
  · exact ⟨by rw [hSame, hSame], fun hChanged => absurd hSame hChanged⟩
  · constructor
    · rw [hRepair]
      exact repair_of_signal hSignal
    · intro _
      exact ⟨s, u, hs, hRepair, hEncoded, by omega, hSignal⟩

/-! ### What the wrapper sends -/

/-- The read of the pump leaves a text in front of what is still to come. -/
theorem valid_carry (reads : List (List UInt8)) {p : PtyPump.Pump} (h : ValidUtf8 (p.carry ++ reads.flatten)) :
    ValidUtf8 (reads.foldl PtyPump.Pump.read p).carry := by
  induction reads generalizing p with
  | nil =>
    rw [List.flatten_nil, List.append_nil] at h
    exact h
  | cons raw reads ih =>
    rw [List.flatten_cons, ← List.append_assoc] at h
    rw [List.foldl_cons, PtyPump.Pump.read]
    split_ifs with hRaw
    · rw [hRaw, List.append_nil] at h
      exact ih h
    · exact ih (PtyPump.pumpChunk_valid h).2

theorem valid_ptyPump {reads : List (List UInt8)} (h : ValidUtf8 reads.flatten) :
    ∀ message ∈ PtyPump.ptyPump reads, ValidUtf8 message := by
  intro message hMessage
  rw [PtyPump.ptyPump, List.mem_append] at hMessage
  rcases hMessage with hOut | hCarry
  · exact PtyPump.valid_reads reads (p := ⟨[], []⟩) h (fun out hNone => absurd hNone List.not_mem_nil) message
      (List.mem_of_mem_filter hOut)
  · split_ifs at hCarry
    · exact absurd hCarry List.not_mem_nil
    · rw [List.mem_singleton.1 hCarry]
      exact valid_carry reads (p := ⟨[], []⟩) h

theorem repair_valid {data : List UInt8} (h : ValidUtf8 data) : ValidUtf8 (repairMojibakeUTF8 data) := by
  rcases repair_cases data with hSame | ⟨s, u, -, -, -, -, hRepair⟩
  · rwa [hSame]
  · exact ⟨u, hRepair⟩

theorem repair_ne_nil {data : List UInt8} (h : data ≠ []) : repairMojibakeUTF8 data ≠ [] := by
  rcases repair_cases data with hSame | ⟨s, u, -, -, ⟨r, hr, -⟩, -, hRepair⟩
  · rwa [hSame]
  · rw [hRepair]
    intro hNil
    rw [encode_eq_nil.1 hNil] at hr
    exact absurd hr List.not_mem_nil

/-- A text in which nothing scores is left alone. -/
theorem repair_of_score {t : List Char} (h : mojibakeScore t = 0) :
    repairMojibakeUTF8 (encode t) = encode t := by
  rw [repairMojibakeUTF8, runes_encode, if_pos h, ite_self]

theorem valid_flatten {chunks : List (List UInt8)} (h : ∀ chunk ∈ chunks, ValidUtf8 chunk) :
    ValidUtf8 chunks.flatten := by
  induction chunks with
  | nil => exact ⟨[], rfl⟩
  | cons first chunks ih =>
    obtain ⟨t, ht⟩ := h first List.mem_cons_self
    obtain ⟨u, hu⟩ := ih fun chunk hChunk => h chunk (List.mem_cons_of_mem _ hChunk)
    exact ⟨t ++ u, by rw [List.flatten_cons, ht, hu, encode_append]⟩

/-- Texts that score nothing together score nothing each. -/
theorem score_of_flatten {chunks : List (List UInt8)} (hValid : ∀ chunk ∈ chunks, ValidUtf8 chunk)
    {s : List Char}
    (h : chunks.flatten = encode s) (hScore : mojibakeScore s = 0) :
    ∀ chunk ∈ chunks, repairMojibakeUTF8 chunk = chunk := by
  induction chunks generalizing s with
  | nil =>
    intro chunk hChunk
    exact absurd hChunk List.not_mem_nil
  | cons first chunks ih =>
    obtain ⟨t, ht⟩ := hValid first List.mem_cons_self
    have hLater (c : List UInt8) (hc : c ∈ chunks) : ValidUtf8 c := hValid c (List.mem_cons_of_mem _ hc)
    obtain ⟨u, hu⟩ := valid_flatten hLater
    have hSplit : s = t ++ u := by
      apply encode_injective
      rw [← h, List.flatten_cons, ht, hu, encode_append]
    rw [hSplit, mojibakeScore, total_append] at hScore
    intro chunk hChunk
    rcases List.mem_cons.1 hChunk with rfl | hIn
    · rw [ht]
      exact repair_of_score (by rw [mojibakeScore]; omega)
    · exact ih hLater hu (by rw [mojibakeScore]; omega) chunk hIn

/-- A stream of text, however it is read, is sent in texts that a second repair would not change; and where
nothing in it scores, it is sent as it is. -/
theorem sent_texts (reads : List (List UInt8)) (h : ValidUtf8 reads.flatten) :
    (∀ message ∈ sent reads, message ≠ [] ∧ ValidUtf8 message ∧ repairMojibakeUTF8 message = message) ∧
      (mojibakeScore (runes reads.flatten) = 0 → (sent reads).flatten = reads.flatten) := by
  obtain ⟨hAll, hNonempty⟩ := PtyPump.flatten_ptyPump reads
  have hValid := valid_ptyPump h
  constructor
  · intro message hMessage
    obtain ⟨out, hOut, rfl⟩ := List.mem_map.1 hMessage
    exact ⟨repair_ne_nil (hNonempty out hOut), repair_valid (hValid out hOut), (repair_settled out).1⟩
  · intro hScore
    obtain ⟨s, hs⟩ := h
    rw [hs, runes_encode] at hScore
    have hSame := score_of_flatten hValid (hAll.trans hs) hScore
    rw [sent, List.map_congr_left hSame, List.map_id', hAll]

/-- `é` read in two parts. -/
theorem sent_texts_split : (sent [[0xc3], [0xa9]]).flatten = [0xc3, 0xa9] :=
  (sent_texts [[0xc3], [0xa9]] ⟨['é'], rfl⟩).2 (by decide)

end ManyAiCli.Wrapper.Mojibake
