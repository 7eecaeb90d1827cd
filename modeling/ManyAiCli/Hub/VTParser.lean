import ManyAiCli.Hub.VTBuffer

/-! The parser half of the terminal mirror: pending bytes of a rune, an escape
sequence being collected, and the two string-sequence flags. Drawing never
touches it, and in every reachable buffer at most one of the four is active, the
bytes of a pending rune can still grow into one, and the skip count is within
its limit. -/

namespace ManyAiCli.Hub.VTBuffer

open Text

/-- What the parser carries from one write to the next. -/
def parser (b : VTBuffer) : List UInt8 × List UInt8 × Bool × Bool × ℕ :=
  (b.utf8Pending, b.esc, b.inOSC, b.inStringSeq, b.stringSeqSkipBytes)

/-! ### Drawing leaves the parser alone -/

@[simp] theorem clearRow_parserState (b : VTBuffer) (row first last : ℤ) :
    (b.clearRow row first last).parser = b.parser := by
  unfold clearRow
  split_ifs <;> rfl

@[simp] theorem clearRows_parserState (b : VTBuffer) (first last : ℤ) :
    (b.clearRows first last).parser = b.parser := by
  unfold clearRows
  generalize List.range (last - first).toNat = is
  induction is generalizing b with
  | nil => rfl
  | cons i is ih => simp [ih]

@[simp] theorem clearAll_parserState (b : VTBuffer) : b.clearAll.parser = b.parser :=
  clearRows_parserState _ _ _

@[simp] theorem newLine_parserState (b : VTBuffer) : b.newLine.parser = b.parser := by
  unfold newLine
  split_ifs <;> rfl

@[simp] theorem eraseDisplay_parserState (b : VTBuffer) (mode : ℤ) :
    (b.eraseDisplay mode).parser = b.parser := by
  unfold eraseDisplay
  split_ifs
  · simp
  · exact clearAll_parserState b
  · simp

@[simp] theorem eraseLine_parserState (b : VTBuffer) (mode : ℤ) :
    (b.eraseLine mode).parser = b.parser := by
  unfold eraseLine
  split_ifs <;> simp

@[simp] theorem writeRune_parserState (b : VTBuffer) (r : Char) : (b.writeRune r).parser = b.parser := by
  unfold writeRune
  dsimp only
  split_ifs
  · rfl
  · simp
  · rfl
  · rfl
  · rfl
  · rfl
  · exact newLine_parserState _
  · rfl

@[simp] theorem controlSequence_parserState (b : VTBuffer) (body : List Char) (final : Char) :
    (b.controlSequence body final).parser = b.parser := by
  unfold controlSequence
  dsimp only
  split
  all_goals first | rfl | exact eraseDisplay_parserState _ _ | exact eraseLine_parserState _ _ | skip
  all_goals split_ifs <;> first | rfl | exact clearAll_parserState b

@[simp] theorem processEscape_parserState (b : VTBuffer) (seq : List UInt8) :
    (b.processEscape seq).parser = b.parser := by
  unfold processEscape
  split
  · rfl
  · rfl
  · exact controlSequence_parserState _ _ _
  · rfl

theorem parser_eq {b b' : VTBuffer} (h : b'.parser = b.parser) :
    b'.utf8Pending = b.utf8Pending ∧ b'.esc = b.esc ∧ b'.inOSC = b.inOSC ∧
      b'.inStringSeq = b.inStringSeq ∧ b'.stringSeqSkipBytes = b.stringSeqSkipBytes := by
  simpa [parser] using h

/-! ### One mode at a time -/

/-- The modes exclude each other and each keeps within its bounds. -/
structure ParserInv (b : VTBuffer) : Prop where
  osc_string : b.inOSC = true → b.inStringSeq = false
  string_esc : b.inString = true → b.esc = []
  pending : b.utf8Pending ≠ [] →
    b.inString = false ∧ b.esc = [] ∧ fullRune b.utf8Pending = false
  skip_le : b.stringSeqSkipBytes ≤ maxStringSeqSkipBytes

theorem ParserInv.of_parserState {b b' : VTBuffer} (hb : b.ParserInv) (h : b'.parser = b.parser) :
    b'.ParserInv := by
  obtain ⟨hp, he, ho, hs, hk⟩ := parser_eq h
  obtain ⟨h1, h2, h3, h4⟩ := hb
  exact ⟨by rwa [ho, hs], by rwa [inString, ho, hs, he], by rwa [inString, hp, ho, hs, he], by rwa [hk]⟩

/-- With the pending bytes taken out, only the other modes count. -/
theorem ParserInv.clearPending {b : VTBuffer} (hb : b.ParserInv) :
    ParserInv { b with utf8Pending := [] } :=
  ⟨hb.osc_string, hb.string_esc, fun h => absurd rfl h, hb.skip_le⟩

@[simp] theorem endString_skip (b : VTBuffer) (k : ℕ) :
    endString { b with stringSeqSkipBytes := k } = b.endString := by
  simp only [endString]

theorem endString_inv {b : VTBuffer} (hb : b.ParserInv) (hs : b.inString = true)
    (hp : b.utf8Pending = []) :
    b.endString.ParserInv ∧ b.endString.inString = false ∧ b.endString.utf8Pending = [] := by
  have he := hb.string_esc hs
  unfold endString
  split_ifs with ho
  · have hq := hb.osc_string ho
    exact ⟨⟨by simp, fun _ => he, fun h => absurd hp h, by simp⟩, by simp [inString, hq], hp⟩
  · exact ⟨⟨by simp [ho], fun _ => he, fun h => absurd hp h, by simp⟩, by simp [inString, ho], hp⟩

theorem skipString_inv {b : VTBuffer} (hb : b.ParserInv) (hs : b.inString = true)
    (hp : b.utf8Pending = []) (c : UInt8) (rest : List UInt8) :
    (b.skipString c rest).1.ParserInv ∧ (b.skipString c rest).1.utf8Pending = [] := by
  obtain ⟨h1, _, h2⟩ := endString_inv hb hs hp
  unfold skipString
  split_ifs with hbel hst
  · exact ⟨h1, h2⟩
  · exact ⟨h1, h2⟩
  · dsimp only [skipByte]
    split_ifs with hk
    · rw [endString_skip]
      exact ⟨h1, h2⟩
    · exact ⟨⟨hb.osc_string, hb.string_esc, fun h => absurd hp h, by simpa using hk⟩, hp⟩

theorem extendEscape_inv {b : VTBuffer} (hb : b.ParserInv) (hs : b.inString = false)
    (hp : b.utf8Pending = []) (c : UInt8) :
    (b.extendEscape c).ParserInv ∧ (b.extendEscape c).utf8Pending = [] := by
  have ho : b.inOSC = false ∧ b.inStringSeq = false := by simpa [inString] using hs
  have hk := hb.skip_le
  unfold extendEscape
  dsimp only
  split_ifs
  · exact ⟨⟨by simp [ho], by simp, fun h => absurd hp h, by simp⟩, hp⟩
  · exact ⟨⟨by simp [ho], by simp, fun h => absurd hp h, by simp⟩, hp⟩
  · obtain ⟨gp, _, go, gs, gk⟩ :=
      parser_eq (processEscape_parserState { b with esc := b.esc ++ [c] } (b.esc ++ [c]))
    exact ⟨⟨fun _ => gs.trans ho.2, fun _ => rfl, fun h => absurd (gp.trans hp) h, gk.trans_le hk⟩,
      gp.trans hp⟩
  · exact ⟨⟨by simp [ho], by simp, fun h => absurd hp h, hk⟩, hp⟩
  · exact ⟨⟨by simp [ho], by simp [inString, ho], fun h => absurd hp h, hk⟩, hp⟩

/-- Only an incomplete rune is set aside. -/
theorem writeOne_eq (b : VTBuffer) (c : UInt8) (rest : List UInt8) :
    b.writeOne c rest =
      if b.inString then b.skipString c rest
      else if b.esc ≠ [] then (b.extendEscape c, rest)
      else if c = escByte then ({ b with esc := [escByte] }, rest)
      else if fullRune (c :: rest) then
        (b.writeRune (decodeRune (c :: rest)).1, (c :: rest).drop (decodeRune (c :: rest)).2)
      else ({ b with utf8Pending := c :: rest }, []) := by
  unfold writeOne
  cases hf : fullRune (c :: rest)
  · simp [decodeRune_of_not_fullRune hf]
  · simp

/-- A turn keeps the invariant. It leaves pending bytes only when it is the last
of its write. -/
theorem writeOne_inv {b : VTBuffer} (hb : b.ParserInv) (hp : b.utf8Pending = []) (c : UInt8)
    (rest : List UInt8) :
    (b.writeOne c rest).1.ParserInv ∧
      ((b.writeOne c rest).1.utf8Pending = [] ∨ (b.writeOne c rest).2 = []) := by
  rw [writeOne_eq]
  split_ifs with hs he hc hf
  · exact (skipString_inv hb hs hp c rest).imp_right Or.inl
  · exact (extendEscape_inv hb (by simpa using hs) hp c).imp_right Or.inl
  · exact ⟨⟨hb.osc_string, fun h => absurd h hs, fun h => absurd hp h, hb.skip_le⟩, .inl hp⟩
  · have hr := writeRune_parserState b (decodeRune (c :: rest)).1
    exact ⟨hb.of_parserState hr, .inl ((parser_eq hr).1.trans hp)⟩
  · rw [not_not] at he
    exact ⟨⟨hb.osc_string, hb.string_esc, fun _ => ⟨eq_false_of_ne_true hs, he, by simpa using hf⟩,
      hb.skip_le⟩, .inr rfl⟩

theorem writeLoop_inv (n : ℕ) (b : VTBuffer) (buf : List UInt8) (hb : b.ParserInv)
    (hp : b.utf8Pending = []) : (writeLoop n b buf).ParserInv := by
  induction n generalizing b buf with
  | zero => exact hb
  | succ n ih =>
    rcases buf with _ | ⟨c, rest⟩
    · exact hb
    obtain ⟨h1, h2 | h2⟩ := writeOne_inv hb hp c rest
    · exact ih _ _ h1 h2
    · rw [writeLoop, h2]
      cases n <;> exact h1

theorem write_inv {b : VTBuffer} (hb : b.ParserInv) (data : List UInt8) : (b.write data).ParserInv := by
  unfold write
  split_ifs
  · exact hb
  · exact writeLoop_inv _ _ _ hb.clearPending rfl

theorem new_inv (cols rows : ℤ) : (newVTBuffer cols rows).ParserInv :=
  ⟨by simp [newVTBuffer, resize, zero], by simp [newVTBuffer, resize, zero],
    by simp [newVTBuffer, resize, zero], by simp [newVTBuffer, resize, zero]⟩

/-- Every buffer of a running Hub is in one mode at most. -/
theorem reachable_parserInv {b : VTBuffer} (h : VTReachable b) : b.ParserInv := by
  induction h with
  | new cols rows => exact new_inv cols rows
  | write _ data ih => exact write_inv ih data
  | resize _ cols rows ih => exact ih.of_parserState rfl
  | reset _ ih => exact new_inv _ _

end ManyAiCli.Hub.VTBuffer
