import ManyAiCli.Text.Encode

/-! Where a text in UTF-8 may be cut. A character is a leading byte and continuation bytes; so a cut is
between two characters, or what stands before it ends with a part of one, and in front of a byte that is
no continuation it is between two. -/

namespace ManyAiCli.Text

/-- `utf8.Valid`: the bytes encode a text. -/
def ValidUtf8 (bs : List UInt8) : Prop := ∃ s, bs = encode s

/-- The leading byte tells how many bytes there are, and the others are continuation bytes. -/
theorem utf8EncodeChar_lead (c : Char) : ∃ p tails lo hi, String.utf8EncodeChar c = p :: tails ∧
    lead p = some (tails.length + 1, lo, hi) ∧ ∀ q ∈ tails, isTail q = true := by
  have hPos : 0 < (String.utf8EncodeChar c).length := by
    rw [String.length_utf8EncodeChar]
    exact c.utf8Size_pos
  obtain ⟨p, tails, hp⟩ := List.exists_cons_of_ne_nil (List.ne_nil_of_length_pos hPos)
  have hDecode := decodeRune_encode c []
  rw [List.append_nil, hp] at hDecode
  rcases decodeRune_cases p tails with hError | ⟨n, lo, hi, hLead, hWidth, hTails⟩
  · -- the replacement character itself has three bytes
    rw [hError, Prod.mk.injEq] at hDecode
    have hThree : (String.utf8EncodeChar runeError).length = 3 := by decide
    rw [hDecode.1, hp, ← hDecode.2] at hThree
    omega
  · rw [hDecode] at hWidth
    have hn : n = tails.length + 1 := hWidth.symm
    rw [hn, Nat.add_sub_cancel, List.take_length] at hTails
    exact ⟨p, tails, lo, hi, hp, hn ▸ hLead, hTails⟩

theorem isTail_of_lead {p : UInt8} {n : ℕ} {lo hi : UInt8} (h : lead p = some (n, lo, hi)) :
    isTail p = false := by
  by_contra hTail
  rw [lead_of_isTail (eq_true_of_ne_false hTail)] at h
  exact Option.some_ne_none _ h.symm

/-- A byte below `0x80` is a character. -/
theorem lead_of_lt {p : UInt8} (h : p < 0x80) : lead p = some (1, 0x80, 0xBF) := if_pos h

/-- A part of a character decodes as an error. -/
theorem decodeRune_part {part more : List UInt8} {c : Char} (h : part ++ more = String.utf8EncodeChar c)
    (hPart : part ≠ []) (hMore : more ≠ []) : decodeRune part = (runeError, 1) := by
  obtain ⟨p, ps, rfl⟩ := List.exists_cons_of_ne_nil hPart
  apply decodeRune_of_not_fullRune
  by_contra hFull
  have hDecode := decodeRune_encode c []
  rw [List.append_nil, ← h, decodeRune_append (eq_true_of_ne_false hFull)] at hDecode
  have hWidth := decodeRune_le p ps
  have hLong := List.length_pos_of_ne_nil hMore
  rw [hDecode, List.length_append] at hWidth
  omega

/-- A cut of a text stands behind some characters and perhaps a part of the next one. -/
theorem cut_encode {xs ys : List UInt8} {s : List Char} (h : xs ++ ys = encode s) :
    ∃ t part u, s = t ++ u ∧ xs = encode t ++ part ∧ part ++ ys = encode u ∧
      (part = [] ∨ ∃ c more, part ++ more = String.utf8EncodeChar c ∧ more ≠ [] ∧ more <+: ys) := by
  induction s generalizing xs with
  | nil =>
    obtain ⟨rfl, rfl⟩ := List.append_eq_nil_iff.1 h
    exact ⟨[], [], [], rfl, rfl, rfl, .inl rfl⟩
  | cons c s ih =>
    rw [encode_cons] at h
    rcases List.append_eq_append_iff.1 h with ⟨more, hc, hys⟩ | ⟨rest, hxs, hRest⟩
    · by_cases hMore : more = []
      · subst hMore
        rw [List.append_nil] at hc
        rw [List.nil_append] at hys
        exact ⟨[c], [], s, rfl, by rw [encode_cons, encode_nil, List.append_nil, List.append_nil, hc], hys, .inl rfl⟩
      · exact ⟨[], xs, c :: s, rfl, rfl, h, .inr ⟨c, more, hc.symm, hMore, hys ▸ List.prefix_append more _⟩⟩
    · obtain ⟨t, part, u, hs, hRestEq, hu, hPart⟩ := ih hRest.symm
      refine ⟨c :: t, part, u, by rw [hs, List.cons_append], ?_, hu, hPart⟩
      rw [hxs, hRestEq, encode_cons, List.append_assoc]

/-! ### Borders -/

/-- Where the two parts are a text together, each of them is one. -/
def Aligned (xs ys : List UInt8) : Prop :=
  ∀ s, xs ++ ys = encode s → ∃ t u, s = t ++ u ∧ xs = encode t ∧ ys = encode u

/-- The part of a character that a cut leaves behind is empty where no continuation byte follows. -/
theorem aligned_cons (xs ys : List UInt8) {y : UInt8} (hy : isTail y = false) : Aligned xs (y :: ys) := by
  intro s h
  obtain ⟨t, part, u, hs, hxs, hu, hPart⟩ := cut_encode h
  have hNone : part = [] := by
    rcases hPart with hNil | ⟨c, more, hc, hMore, hPrefix⟩
    · exact hNil
    · by_contra hPart
      obtain ⟨p, ps, rfl⟩ := List.exists_cons_of_ne_nil hPart
      obtain ⟨z, zs, rfl⟩ := List.exists_cons_of_ne_nil hMore
      obtain ⟨p', tails, lo, hi, hEncode, -, hTails⟩ := utf8EncodeChar_lead c
      rw [hEncode, List.cons_append, List.cons.injEq] at hc
      have hz : z = y := (List.cons_prefix_cons.1 hPrefix).1
      have hTail : isTail z = true := hTails z (hc.2 ▸ List.mem_append_right ps List.mem_cons_self)
      rw [hz, hy] at hTail
      exact Bool.false_ne_true hTail
  subst hNone
  exact ⟨t, u, hs, by rw [hxs, List.append_nil], hu⟩

theorem isTail_of_lt {x : UInt8} (hx : x < 0x80) : isTail x = false := isTail_of_lead (lead_of_lt hx)

/-- Behind a byte below `0x80`. -/
theorem aligned_concat (xs ys : List UInt8) {x : UInt8} (hx : x < 0x80) : Aligned (xs ++ [x]) ys := by
  intro s h
  rw [List.append_assoc, List.singleton_append] at h
  obtain ⟨t, u, hs, hxs, hu⟩ := aligned_cons xs ys (isTail_of_lt hx) s h
  cases u with
  | nil => exact absurd hu (List.cons_ne_nil x ys)
  | cons c u =>
    obtain ⟨p, tails, lo, hi, hc, hLead, -⟩ := utf8EncodeChar_lead c
    rw [encode_cons, hc, List.cons_append, List.cons.injEq] at hu
    rw [← hu.1, lead_of_lt hx, Option.some.injEq, Prod.mk.injEq] at hLead
    have hNil : tails = [] := List.eq_nil_of_length_eq_zero (by omega)
    rw [hNil] at hu hc
    refine ⟨t ++ [c], u, by rw [hs, List.append_assoc, List.singleton_append], ?_, hu.2⟩
    rw [encode_append, encode_cons, encode_nil, hxs, hc, hu.1, List.append_nil]

theorem aligned_nil (xs : List UInt8) : Aligned xs [] := fun s h =>
  ⟨s, [], by rw [List.append_nil], by rwa [List.append_nil] at h, rfl⟩

/-- Among the bytes behind the first one of a text that goes on, one of the first four starts a
character. -/
theorem exists_lead {p : UInt8} {ps : List UInt8} {s : List Char} (h : p :: ps = encode s)
    (hLong : 4 ≤ ps.length) : ∃ q ∈ ps.take 4, isTail q = false := by
  cases s with
  | nil => exact absurd h (List.cons_ne_nil p ps)
  | cons c s =>
    obtain ⟨p', tails, lo, hi, hc, hLead, -⟩ := utf8EncodeChar_lead c
    rw [encode_cons, hc, List.cons_append, List.cons.injEq] at h
    have hShort := (lead_width hLead).2
    cases s with
    | nil =>
      rw [h.2, encode_nil, List.append_nil] at hLong
      omega
    | cons c' s =>
      obtain ⟨q, tails', lo', hi', hc', hLead', -⟩ := utf8EncodeChar_lead c'
      refine ⟨q, ?_, isTail_of_lead hLead'⟩
      rw [h.2, encode_cons, hc', List.take_append, List.mem_append]
      right
      obtain ⟨k, hk⟩ : ∃ k, 4 - tails.length = k + 1 := ⟨3 - tails.length, by omega⟩
      rw [hk, List.cons_append, List.take_succ_cons]
      exact List.mem_cons_self

end ManyAiCli.Text
