import ManyAiCli.Text.RuneBorders

/-! `ptyPump` (`wrapper.go`): what is read from the terminal, cut by `pumpChunk` so that a character which
is not complete yet waits for the next read. Nothing is lost or held back but such an end, and a stream
of text is passed on in texts. -/

namespace ManyAiCli.Wrapper.PtyPump

open Text

/-- The scan of `pumpChunk` from the byte before place `i` backwards, over three bytes at most. -/
def scan (combined : List UInt8) : ℕ → ℕ
  | 0 => combined.length
  | i + 1 =>
    if combined.length < i + 4 then
      if combined.getD i 0 < 0x80 then combined.length
      else if 0xC0 ≤ combined.getD i 0 then
        -- a lead byte that never starts a character is carried as well
        if decodeRune (combined.drop i) = (runeError, 1) then i else combined.length
      else scan combined i
    else combined.length

def splitAt (combined : List UInt8) : ℕ := scan combined combined.length

/-- What can be sent, and the bytes for the next chunk. -/
def pumpChunk (prev chunk : List UInt8) : List UInt8 × List UInt8 :=
  ((prev ++ chunk).take (splitAt (prev ++ chunk)), (prev ++ chunk).drop (splitAt (prev ++ chunk)))

/-- The loop of `ptyPump`: the bytes to be prepended to the next read, and what `pumpChunk` gave out. -/
structure Pump where
  carry : List UInt8
  outs : List (List UInt8)

/-- One read; nothing happens where it gave no bytes. -/
def Pump.read (p : Pump) (raw : List UInt8) : Pump :=
  if raw = [] then p else ⟨(pumpChunk p.carry raw).2, p.outs ++ [(pumpChunk p.carry raw).1]⟩

def pump (reads : List (List UInt8)) : Pump := reads.foldl Pump.read ⟨[], []⟩

/-- What is repaired, logged and sent: the outputs that are not empty, and at the end of the stream what
is still carried. -/
def ptyPump (reads : List (List UInt8)) : List (List UInt8) :=
  (pump reads).outs.filter (· ≠ []) ++ if (pump reads).carry = [] then [] else [(pump reads).carry]

/-! ### The cut -/

theorem scan_bounds (combined : List UInt8) (i : ℕ) (hi : i ≤ combined.length) :
    scan combined i ≤ combined.length ∧ combined.length ≤ scan combined i + 3 := by
  induction i with
  | zero => exact ⟨Nat.le_refl _, Nat.le_add_right _ _⟩
  | succ i ih =>
    rw [scan]
    split_ifs with hNear
    · exact ⟨Nat.le_refl _, Nat.le_add_right _ _⟩
    · exact ⟨by omega, by omega⟩
    · exact ⟨Nat.le_refl _, Nat.le_add_right _ _⟩
    · exact ih (by omega)
    · exact ⟨Nat.le_refl _, Nat.le_add_right _ _⟩

theorem length_carry (prev chunk : List UInt8) : (pumpChunk prev chunk).2.length ≤ 3 := by
  have hBound := (scan_bounds (prev ++ chunk) _ (Nat.le_refl _)).2
  rw [pumpChunk, List.length_drop, splitAt]
  omega

theorem getD_append (xs ys : List UInt8) (y : UInt8) : (xs ++ y :: ys).getD xs.length 0 = y := by
  simp

/-- Continuation bytes are passed over, up to three. -/
theorem scan_tails {xs tails : List UInt8} (hTails : ∀ q ∈ tails, isTail q = true) (hLen : tails.length ≤ 3) :
    ∀ j ≤ tails.length, scan (xs ++ tails) (xs.length + j) = scan (xs ++ tails) xs.length := by
  intro j hj
  induction j with
  | zero => rfl
  | succ j ih =>
    have hSplit : xs ++ tails = (xs ++ tails.take j) ++ tails[j] :: tails.drop (j + 1) := by
      rw [← List.drop_eq_getElem_cons hj, List.append_assoc, List.take_append_drop]
    have hAt : (xs ++ tails).getD (xs.length + j) 0 = tails[j] := by
      have hFront : (xs ++ tails.take j).length = xs.length + j := by
        rw [List.length_append, List.length_take_of_le (by omega)]
      rw [hSplit, ← hFront]
      exact getD_append _ _ _
    have hTail := hTails _ (List.getElem_mem hj)
    simp only [isTail, within, Bool.and_eq_true, decide_eq_true_eq] at hTail
    have hLow : ¬ tails[j] < 0x80 := UInt8.not_lt.2 hTail.1
    have hHigh : ¬ 0xC0 ≤ tails[j] := UInt8.not_le.2 (UInt8.lt_of_le_of_lt hTail.2 (by decide))
    have hNear : (xs ++ tails).length < xs.length + j + 4 := by
      rw [List.length_append]
      omega
    rw [← Nat.add_assoc, scan, if_pos hNear, hAt, if_neg hLow, if_neg hHigh, ih (by omega)]

/-- The scan ends at a byte that is no continuation. -/
theorem splitAt_lead {xs tails : List UInt8} {p : UInt8} (hp : isTail p = false)
    (hTails : ∀ q ∈ tails, isTail q = true) (hLen : tails.length ≤ 3) :
    splitAt (xs ++ p :: tails) =
      if tails.length < 3 ∧ 0x80 ≤ p ∧ decodeRune (p :: tails) = (runeError, 1) then xs.length
      else (xs ++ p :: tails).length := by
  have hFront : (xs ++ [p]).length = xs.length + 1 := List.length_append
  have hSplit : xs ++ p :: tails = (xs ++ [p]) ++ tails := by
    rw [List.append_assoc, List.singleton_append]
  have hScan : splitAt (xs ++ p :: tails) = scan (xs ++ p :: tails) (xs.length + 1) := by
    have hAll : (xs ++ p :: tails).length = (xs ++ [p]).length + tails.length := by
      rw [hSplit, List.length_append]
    rw [splitAt, hAll, ← hFront]
    conv_lhs => rw [hSplit]
    rw [scan_tails hTails hLen _ (Nat.le_refl _), hSplit]
  have hHigh : 0x80 ≤ p → 0xC0 ≤ p := by
    intro hLow
    by_contra hNot
    have hTail : isTail p = true := by
      simp only [isTail, within, Bool.and_eq_true, decide_eq_true_eq]
      refine ⟨hLow, ?_⟩
      rw [UInt8.not_le, UInt8.lt_iff_toNat_lt] at hNot
      rw [UInt8.le_iff_toNat_le]
      exact Nat.le_of_lt_succ hNot
    rw [hp] at hTail
    exact Bool.false_ne_true hTail
  rw [hScan, scan, getD_append, List.drop_left]
  by_cases hNear : (xs ++ p :: tails).length < xs.length + 4
  · have hShort : tails.length < 3 := by
      rw [List.length_append, List.length_cons] at hNear
      omega
    rw [if_pos hNear]
    by_cases hLow : p < 0x80
    · rw [if_pos hLow, if_neg fun h => UInt8.not_le.2 hLow h.2.1]
    · have hGe := UInt8.not_lt.1 hLow
      rw [if_neg hLow, if_pos (hHigh hGe)]
      by_cases hError : decodeRune (p :: tails) = (runeError, 1)
      · rw [if_pos hError, if_pos ⟨hShort, hGe, hError⟩]
      · rw [if_neg hError, if_neg fun h => hError h.2.2]
  · have hLong : ¬ tails.length < 3 := by
      rw [List.length_append, List.length_cons] at hNear
      omega
    rw [if_neg hNear, if_neg fun h => hLong h.1]

/-- A text is not cut. -/
theorem splitAt_encode (s : List Char) : splitAt (encode s) = (encode s).length := by
  rcases List.eq_nil_or_concat s with rfl | ⟨t, c, rfl⟩
  · rfl
  obtain ⟨p, tails, lo, hi, hc, hLead, hTails⟩ := utf8EncodeChar_lead c
  have hLen := (lead_width hLead).2
  have hDecode := decodeRune_encode c []
  rw [List.append_nil, hc] at hDecode
  rw [List.concat_eq_append, encode_append, encode_cons, encode_nil, List.append_nil, hc,
    splitAt_lead (isTail_of_lead hLead) hTails (by omega), if_neg]
  rintro ⟨-, hLow, hError⟩
  -- a character of one byte is below `0x80`, and one of more is no error
  rw [hError, Prod.mk.injEq, List.length_cons] at hDecode
  have hThree : (String.utf8EncodeChar runeError).length = 3 := by decide
  rw [hDecode.1, hc, List.length_cons] at hThree
  omega

/-- A text with a part of a character behind it is cut in front of the part. -/
theorem splitAt_part {t : List Char} {part more : List UInt8} {c : Char}
    (h : part ++ more = String.utf8EncodeChar c) (hPart : part ≠ []) (hMore : more ≠ []) :
    splitAt (encode t ++ part) = (encode t).length := by
  have hError := decodeRune_part h hPart hMore
  obtain ⟨p, ps, rfl⟩ := List.exists_cons_of_ne_nil hPart
  obtain ⟨p', tails, lo, hi, hc, hLead, hTails⟩ := utf8EncodeChar_lead c
  rw [hc, List.cons_append, List.cons.injEq] at h
  obtain ⟨rfl, h⟩ := h
  have hWidth := (lead_width hLead).2
  have hLong := List.length_pos_of_ne_nil hMore
  have hLen : ps.length + more.length = tails.length := by rw [← h, List.length_append]
  have hLow : 0x80 ≤ p := by
    by_contra hLow
    rw [lead_of_lt (UInt8.not_le.1 hLow), Option.some.injEq, Prod.mk.injEq] at hLead
    omega
  rw [splitAt_lead (isTail_of_lead hLead) (fun q hq => hTails q (h ▸ List.mem_append_left more hq))
    (by omega), if_pos ⟨by omega, hLow, hError⟩]

/-- In front of a text, what is given out is a text, and so is the rest with what follows. -/
theorem pumpChunk_valid {prev chunk rest : List UInt8} (h : ValidUtf8 (prev ++ chunk ++ rest)) :
    ValidUtf8 (pumpChunk prev chunk).1 ∧ ValidUtf8 ((pumpChunk prev chunk).2 ++ rest) := by
  obtain ⟨s, hs⟩ := h
  obtain ⟨t, part, u, -, hEq, hu, hPart⟩ := cut_encode hs
  rw [pumpChunk, hEq]
  by_cases hNil : part = []
  · subst hNil
    rw [List.append_nil, splitAt_encode, List.take_length, List.drop_length]
    exact ⟨⟨t, rfl⟩, ⟨u, hu⟩⟩
  · obtain ⟨c, more, hc, hMore, -⟩ := hPart.resolve_left hNil
    rw [splitAt_part hc hNil hMore, List.take_left, List.drop_left]
    exact ⟨⟨t, rfl⟩, ⟨u, hu⟩⟩

/-! ### The loop -/

theorem pumpChunk_append (prev chunk : List UInt8) :
    (pumpChunk prev chunk).1 ++ (pumpChunk prev chunk).2 = prev ++ chunk := List.take_append_drop _ _

/-- What has been given out and what is carried. -/
def Pump.bytes (p : Pump) : List UInt8 := p.outs.flatten ++ p.carry

theorem bytes_read (p : Pump) (raw : List UInt8) : (p.read raw).bytes = p.bytes ++ raw := by
  rw [Pump.read]
  split_ifs with hRaw
  · rw [hRaw, List.append_nil]
  · rw [Pump.bytes, Pump.bytes, List.flatten_concat, List.append_assoc, pumpChunk_append, List.append_assoc]

theorem bytes_reads (reads : List (List UInt8)) (p : Pump) :
    (reads.foldl Pump.read p).bytes = p.bytes ++ reads.flatten := by
  induction reads generalizing p with
  | nil => rw [List.foldl_nil, List.flatten_nil, List.append_nil]
  | cons raw reads ih => rw [List.foldl_cons, ih, bytes_read, List.flatten_cons, List.append_assoc]

theorem pump_bytes (reads : List (List UInt8)) : (pump reads).bytes = reads.flatten :=
  bytes_reads reads ⟨[], []⟩

theorem length_carry_reads (reads : List (List UInt8)) {p : Pump} (h : p.carry.length ≤ 3) :
    (reads.foldl Pump.read p).carry.length ≤ 3 := by
  induction reads generalizing p with
  | nil => exact h
  | cons raw reads ih =>
    apply ih
    rw [Pump.read]
    split_ifs
    · exact h
    · exact length_carry _ _

/-- As long as the carry and what is still to come are a text, texts are given out. -/
theorem valid_reads (reads : List (List UInt8)) {p : Pump} (hCarry : ValidUtf8 (p.carry ++ reads.flatten))
    (hOuts : ∀ out ∈ p.outs, ValidUtf8 out) : ∀ out ∈ (reads.foldl Pump.read p).outs, ValidUtf8 out := by
  induction reads generalizing p with
  | nil => exact hOuts
  | cons raw reads ih =>
    rw [List.flatten_cons, ← List.append_assoc] at hCarry
    have hStep := pumpChunk_valid hCarry
    rw [List.foldl_cons, Pump.read]
    split_ifs with hRaw
    · rw [hRaw, List.append_nil] at hCarry
      exact ih hCarry hOuts
    · apply ih hStep.2
      intro out hOut
      rcases List.mem_append.1 hOut with hOld | hNew
      · exact hOuts out hOld
      · rw [List.mem_singleton.1 hNew]
        exact hStep.1

/-- For every stream and every way of reading it. -/
theorem pump_exact (reads : List (List UInt8)) :
    (pump reads).outs.flatten ++ (pump reads).carry = reads.flatten ∧ (pump reads).carry.length ≤ 3 ∧
      (ValidUtf8 reads.flatten → ∀ out ∈ (pump reads).outs, ValidUtf8 out) := by
  refine ⟨pump_bytes reads, length_carry_reads reads (Nat.zero_le 3), fun h => ?_⟩
  exact valid_reads reads h fun out hOut => absurd hOut List.not_mem_nil

/-- `aé` read byte by byte. -/
theorem pump_in_bytes : ∀ out ∈ (pump [[0x61], [0xC3], [0xA9]]).outs, ValidUtf8 out :=
  (pump_exact [[0x61], [0xC3], [0xA9]]).2.2 ⟨['a', 'é'], rfl⟩

/-- What is sent is the stream, and nothing empty is sent. -/
theorem flatten_ptyPump (reads : List (List UInt8)) :
    (ptyPump reads).flatten = reads.flatten ∧ ∀ message ∈ ptyPump reads, message ≠ [] := by
  constructor
  · rw [← pump_bytes reads, ptyPump, List.flatten_append, List.flatten_filter_ne_nil, Pump.bytes]
    split_ifs with hCarry
    · rw [hCarry, List.flatten_nil]
    · rw [List.flatten_singleton]
  · intro message hMessage
    rw [ptyPump, List.mem_append] at hMessage
    rcases hMessage with hOut | hCarry
    · exact of_decide_eq_true (List.mem_filter.1 hOut).2
    · split_ifs at hCarry with hNil
      · exact absurd hCarry List.not_mem_nil
      · rwa [List.mem_singleton.1 hCarry]

end ManyAiCli.Wrapper.PtyPump
