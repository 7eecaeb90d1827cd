import ManyAiCli.Hub.VTParser

/-! Does the mirror depend on where the PTY stream is cut into chunks? Every turn
of the write loop looks at its own bytes only, with one exception: the
terminator `ESC \` of a string sequence is recognised when both bytes are in the
same chunk. A cut between the two is the only one that can show, and it shows
unless the skip limit makes up for it. -/

namespace ManyAiCli.Hub.VTBuffer

open Text

/-! ### One turn -/

theorem writeOne_length (b : VTBuffer) (c : UInt8) (rest : List UInt8) :
    (b.writeOne c rest).2.length ≤ rest.length := by
  rw [writeOne_eq]
  unfold skipString
  split_ifs
  all_goals try simp
  have := decodeRune_width c rest
  omega

theorem writeLoop_fuel {n m : ℕ} (b : VTBuffer) {buf : List UInt8} (hn : buf.length ≤ n)
    (hm : buf.length ≤ m) : writeLoop n b buf = writeLoop m b buf := by
  induction n generalizing m b buf with
  | zero =>
    obtain rfl : buf = [] := by simpa using hn
    cases m <;> rfl
  | succ n ih =>
    rcases buf with _ | ⟨c, rest⟩
    · cases m <;> rfl
    obtain ⟨m, rfl⟩ : ∃ k, m = k + 1 := ⟨m - 1, by simp at hm; omega⟩
    have hl := b.writeOne_length c rest
    simp only [List.length_cons] at hn hm
    exact ih _ (by omega) (by omega)

@[simp] theorem writeAll_nil (b : VTBuffer) : b.writeAll [] = b := rfl

theorem writeAll_cons (b : VTBuffer) (c : UInt8) (rest : List UInt8) :
    b.writeAll (c :: rest) = (b.writeOne c rest).1.writeAll (b.writeOne c rest).2 :=
  writeLoop_fuel _ (b.writeOne_length c rest) le_rfl

theorem write_of_ne_nil (b : VTBuffer) {v : List UInt8} (h : v ≠ []) :
    b.write v = writeAll { b with utf8Pending := [] } (b.utf8Pending ++ v) := if_neg h

theorem write_of_pending_nil {b : VTBuffer} (hp : b.utf8Pending = []) (v : List UInt8) :
    b.write v = b.writeAll v := by
  have hb : { b with utf8Pending := [] } = b := by cases b; simp_all
  unfold write
  split_ifs with hv
  · rw [hv, writeAll_nil]
  · rw [hb, hp, List.nil_append]

theorem writeOne_suffix (b : VTBuffer) (c : UInt8) (rest : List UInt8) :
    (b.writeOne c rest).2 <:+ rest := by
  rw [writeOne_eq]
  unfold skipString
  split_ifs
  any_goals exact List.suffix_refl _
  · exact List.tail_suffix _
  · obtain ⟨k, hk⟩ := Nat.exists_eq_add_of_le (decodeRune_width c rest)
    simp only [hk, Nat.add_comm 1 k, List.drop_succ_cons]
    exact List.drop_suffix _ _
  · exact List.nil_suffix

/-- A turn that is not on an incomplete rune leaves nothing pending. -/
theorem writeOne_pending {b : VTBuffer} (hb : b.ParserInv) (hp : b.utf8Pending = []) {c : UInt8}
    {rest : List UInt8}
    (hfull : b.inString = false → b.esc = [] → c ≠ escByte → fullRune (c :: rest) = true) :
    (b.writeOne c rest).1.utf8Pending = [] := by
  rw [writeOne_eq]
  split_ifs with hs he hc hf
  · exact (skipString_inv hb hs hp c rest).2
  · exact (extendEscape_inv hb (eq_false_of_ne_true hs) hp c).2
  · exact hp
  · exact (parser_eq (writeRune_parserState b _)).1.trans hp
  · exact absurd (hfull (eq_false_of_ne_true hs) (not_not.mp he) hc) hf

theorem skipString_append (b : VTBuffer) (c : UInt8) (rest v : List UInt8)
    (hcut : c = escByte → rest = [] → v.head? ≠ some 0x5C) :
    b.skipString c (rest ++ v) = ((b.skipString c rest).1, (b.skipString c rest).2 ++ v) := by
  unfold skipString
  by_cases hbel : c = 0x07
  · simp [hbel]
  by_cases hc : c = escByte
  · subst hc
    rcases rest with _ | ⟨r, rest⟩
    · simp [hbel, hcut rfl rfl]
    · by_cases hr : r = 0x5C <;> simp [hbel, hr]
  · simp [hbel, hc]

/-- A turn depends on its own bytes only, except on an incomplete rune and on
an `ESC` that is the chunk's last byte inside a string sequence. -/
theorem writeOne_append {b : VTBuffer} {c : UInt8} {rest : List UInt8}
    (hfull : b.inString = false → b.esc = [] → c ≠ escByte → fullRune (c :: rest) = true)
    {v : List UInt8} (hcut : b.inString = true → c = escByte → rest = [] → v.head? ≠ some 0x5C) :
    b.writeOne c (rest ++ v) = ((b.writeOne c rest).1, (b.writeOne c rest).2 ++ v) := by
  simp only [writeOne_eq]
  by_cases hs : b.inString = true
  · simpa only [hs, if_true] using skipString_append b c rest v (hcut hs)
  by_cases he : b.esc = []
  · by_cases hc : c = escByte
    · simp [hs, he, hc]
    · have hf := hfull (eq_false_of_ne_true hs) he hc
      have hd := decodeRune_append hf v
      have hw := decodeRune_le c rest
      have hf' := fullRune_append hf v
      rw [List.cons_append] at hd hf'
      simp only [hs, he, hc, hf, hf', hd, if_true, if_false, ne_eq, not_true, Bool.false_eq_true]
      rw [← List.cons_append, List.drop_append_of_le_length hw]
  · simp [hs, he]

/-! ### A whole chunk -/

/-- Without an `ESC`, ground-mode bytes stay in ground mode. -/
theorem writeAll_ground (n : ℕ) (b : VTBuffer) (u : List UInt8) (hs : b.inString = false)
    (he : b.esc = []) (hu : escByte ∉ u) : (writeLoop n b u).inString = false := by
  induction n generalizing b u with
  | zero => exact hs
  | succ n ih =>
    rcases u with _ | ⟨c, rest⟩
    · exact hs
    have hc : c ≠ escByte := fun h => hu (by simp [h])
    rw [writeLoop, writeOne_eq, if_neg (by simp [hs]), if_neg (by simp [he]), if_neg hc]
    split_ifs
    · obtain ⟨_, ge, go, gs, _⟩ := parser_eq (writeRune_parserState b (decodeRune (c :: rest)).1)
      apply ih
      · simpa [inString, go, gs] using hs
      · exact ge.trans he
      · exact fun h => hu (List.mem_of_mem_drop h)
    · cases n <;> exact hs

/-- Cutting the loop's input in two changes nothing, unless the cut goes through
a terminator. The induction is on the turns over the first part. -/
theorem writeAll_append (b : VTBuffer) (u v : List UInt8) (hb : b.ParserInv)
    (hp : b.utf8Pending = []) (hv : v ≠ []) :
    (b.writeAll u).write v = b.writeAll (u ++ v) ∨
      v.head? = some 0x5C ∧ ∃ u', u = u' ++ [escByte] ∧ (b.writeAll u').inString = true := by
  induction hn : u.length using Nat.strong_induction_on generalizing b u with
  | h n ih =>
    subst hn
    rcases u with _ | ⟨c, rest⟩
    · exact .inl (by rw [writeAll_nil, List.nil_append, write_of_pending_nil hp])
    by_cases hcut : b.inString = true ∧ c = escByte ∧ rest = [] ∧ v.head? = some 0x5C
    · obtain ⟨hs, rfl, rfl, hv'⟩ := hcut
      exact .inr ⟨hv', [], rfl, by simpa using hs⟩
    by_cases hfull : b.inString = false → b.esc = [] → c ≠ escByte → fullRune (c :: rest) = true
    · have hturn := writeOne_append hfull (v := v) (fun h1 h2 h3 h4 => hcut ⟨h1, h2, h3, h4⟩)
      have hb₁ := (writeOne_inv hb hp c rest).1
      have hp₁ := writeOne_pending hb hp hfull
      have hl₁ := b.writeOne_length c rest
      rw [writeAll_cons, List.cons_append, writeAll_cons, hturn]
      refine (ih _ (by simp only [List.length_cons]; omega) _ _ hb₁ hp₁ rfl).imp_right ?_
      rintro ⟨hv', u', hu, hs'⟩
      obtain ⟨k, hk⟩ := b.writeOne_suffix c rest
      obtain ⟨rest', hrest⟩ : ∃ rest', rest = rest' ++ [escByte] :=
        ⟨k ++ u', by rw [← hk, hu, List.append_assoc]⟩
      refine ⟨hv', c :: rest', by rw [hrest, List.cons_append], ?_⟩
      by_cases hfull' : b.inString = false → b.esc = [] → c ≠ escByte → fullRune (c :: rest') = true
      · have hturn' := writeOne_append hfull' (v := [escByte]) (fun _ _ _ => by decide)
        rw [← hrest] at hturn'
        rw [hturn'] at hu hs'
        rwa [writeAll_cons, List.append_cancel_right hu]
      · -- then the first part ends in ground mode after all
        push Not at hfull'
        obtain ⟨hs, he, hc, hf⟩ := hfull'
        have hesc : escByte ∉ c :: rest' := fun h =>
          absurd (le_of_not_fullRune (eq_false_of_ne_true hf) h) (by decide)
        have hf₁ := hfull hs he hc
        obtain ⟨_, ge, go, gs, _⟩ := parser_eq (writeRune_parserState b (decodeRune (c :: rest)).1)
        have h₁ : (b.writeOne c rest).1 = b.writeRune (decodeRune (c :: rest)).1 := by
          simp only [writeOne_eq, hs, he, hc, hf₁, if_true, if_false, ne_eq, not_true, Bool.false_eq_true]
        have hu' : escByte ∉ u' := by
          intro h
          have hsub : u' <:+ rest' := ⟨k, List.append_cancel_right (by
            rw [← hrest, ← hk, hu, List.append_assoc])⟩
          exact hesc (List.mem_cons_of_mem _ (hsub.subset h))
        have hg := writeAll_ground u'.length (b.writeRune (decodeRune (c :: rest)).1) u'
          (by simpa [inString, go, gs] using hs) (ge.trans he) hu'
        rw [h₁] at hs'
        exact absurd hs' (by simp [writeAll, hg])
    · -- an incomplete rune waits for the second part
      push Not at hfull
      obtain ⟨hs, he, hc, hf⟩ := hfull
      have hturn : b.writeOne c rest = ({ b with utf8Pending := c :: rest }, []) := by
        rw [writeOne_eq, if_neg (by simp [hs]), if_neg (by simp [he]), if_neg hc, if_neg hf]
      have hb' : { b with utf8Pending := [] } = b := by cases b; simp_all
      left
      rw [writeAll_cons, hturn, writeAll_nil, write_of_ne_nil _ hv]
      simp only [hb']

/-! ### Two writes -/

/-- Reading the pending bytes again sets them aside again. -/
theorem writeAll_pending {b : VTBuffer} (hb : b.ParserInv) :
    writeAll { b with utf8Pending := [] } b.utf8Pending = b := by
  rcases hp : b.utf8Pending with _ | ⟨c, rest⟩
  · rw [writeAll_nil, ← hp]
  obtain ⟨hs, he, hf⟩ := hb.pending (by simp [hp])
  rw [hp] at hf
  have hc : c ≠ escByte := fun h =>
    absurd (le_of_not_fullRune hf (List.mem_cons_self)) (by rw [h]; decide)
  rw [writeAll_cons, writeOne_eq, if_neg (by simpa [inString] using hs), if_neg (by simpa using he),
    if_neg hc, if_neg (by simp [hf]), writeAll_nil, ← hp]

theorem write_eq_writeAll {b : VTBuffer} (hb : b.ParserInv) (v : List UInt8) :
    b.write v = writeAll { b with utf8Pending := [] } (b.utf8Pending ++ v) := by
  by_cases hv : v = []
  · rw [hv, List.append_nil, writeAll_pending hb]; rfl
  · exact write_of_ne_nil b hv

/-- Two writes are one, unless the cut is between the bytes of `ESC \` in a
string sequence. -/
theorem write_write {b : VTBuffer} (hb : b.ParserInv) (x y : List UInt8) :
    (b.write x).write y = b.write (x ++ y) ∨
      y.head? = some 0x5C ∧ ∃ x', x = x' ++ [escByte] ∧ (b.write x').inString = true := by
  by_cases hy : y = []
  · exact .inl (by rw [hy, List.append_nil]; rfl)
  by_cases hx : x = []
  · exact .inl (by rw [hx, List.nil_append]; rfl)
  have h := writeAll_append { b with utf8Pending := [] } (b.utf8Pending ++ x) y hb.clearPending rfl hy
  rw [write_eq_writeAll hb x, write_eq_writeAll hb (x ++ y), ← List.append_assoc]
  refine h.imp_right fun ⟨hy', u', hu, hs⟩ => ⟨hy', ?_⟩
  obtain ⟨x', z, rfl⟩ := List.eq_nil_or_concat x |>.resolve_left hx
  rw [List.concat_eq_append, ← List.append_assoc] at hu
  obtain ⟨rfl, hz⟩ := List.append_inj' hu rfl
  refine ⟨x', by rw [List.concat_eq_append, hz], ?_⟩
  rwa [write_eq_writeAll hb]

theorem ParserInv.pending_nil {b : VTBuffer} (hb : b.ParserInv) (hs : b.inString = true) :
    b.utf8Pending = [] := by
  by_contra hp
  exact absurd hs (by simp [(hb.pending hp).1])

/-- A string sequence sees its whole terminator. -/
theorem write_terminator {b : VTBuffer} (hb : b.ParserInv) (hs : b.inString = true)
    (y : List UInt8) : b.write (escByte :: 0x5C :: y) = b.endString.write y := by
  have hp := hb.pending_nil hs
  rw [write_of_pending_nil hp, write_of_pending_nil (endString_inv hb hs hp).2.2, writeAll_cons,
    writeOne_eq, if_pos hs]
  rfl

/-- A string sequence skips a lone `ESC`, and a backslash, as any other byte. -/
theorem write_skip {b : VTBuffer} (hb : b.ParserInv) (hs : b.inString = true) {c : UInt8}
    (hc : c ≠ 0x07) : b.write [c] = b.skipByte := by
  rw [write_of_pending_nil (hb.pending_nil hs), writeAll_cons, writeOne_eq, if_pos hs, skipString,
    if_neg hc, if_neg (by simp), writeAll_nil]

/-- Outside of a string sequence a backslash is drawn. -/
theorem write_backslash {b : VTBuffer} (hs : b.inString = false) (he : b.esc = [])
    (hp : b.utf8Pending = []) : b.write [0x5C] = b.writeRune '\\' := by
  rw [write_of_pending_nil hp, writeAll_cons, writeOne_eq, if_neg (by simp [hs]),
    if_neg (by simp [he]), if_neg (by decide)]
  rfl

/-- The chunk `x` ends between the two bytes of `ESC \` in a string sequence, and
the skip limit does not end the sequence on the backslash anyway. When the limit
ends it on the `ESC`, the backslash must be seen on the screen. -/
def CutsTerminator (b : VTBuffer) (x : List UInt8) : Prop :=
  ∃ x', x = x' ++ [escByte] ∧ (b.write x').inString = true ∧
    ((b.write x').stringSeqSkipBytes + 2 ≤ maxStringSeqSkipBytes ∨
      (b.write x').stringSeqSkipBytes = maxStringSeqSkipBytes ∧
        (b.write x').endString.writeRune '\\' ≠ (b.write x').endString)

/-- A cut through a terminator shows exactly when the two sides of the backslash
differ. -/
theorem write_cut {b : VTBuffer} (hb : b.ParserInv) {x' : List UInt8}
    (hs : (b.write x').inString = true) :
    (∀ y, (b.write (x' ++ [escByte])).write y = b.write (x' ++ [escByte] ++ y)) ↔
      (b.write x').skipByte.write [0x5C] = (b.write x').endString := by
  have hi := write_inv hb x'
  have hx : b.write (x' ++ [escByte]) = (b.write x').skipByte := by
    rw [← write_skip hi hs (show escByte ≠ 0x07 by decide)]
    exact ((write_write hb x' [escByte]).resolve_right fun h => absurd h.1 (by decide)).symm
  have hxy (y) : b.write (x' ++ [escByte] ++ 0x5C :: y) = (b.write x').endString.write y := by
    rw [← write_terminator hi hs y, List.append_assoc]
    refine ((write_write hb x' (escByte :: 0x5C :: y)).resolve_right fun h => ?_).symm
    exact absurd (Option.some.inj h.1) (by decide)
  have hj := write_inv hb (x' ++ [escByte])
  rw [hx] at hj
  constructor
  · intro h
    rw [← hx, h [0x5C], hxy]
    rfl
  · intro h y
    by_cases hy : y.head? = some 0x5C
    · obtain ⟨y', rfl⟩ : ∃ y', y = 0x5C :: y' := ⟨y.tail, (List.cons_head?_tail hy).symm⟩
      have hcut := write_write hj [0x5C] y'
      rw [hxy, hx, ← h]
      refine (hcut.resolve_right ?_).symm
      rintro ⟨-, u, hu, -⟩
      obtain ⟨-, hu⟩ := List.append_inj' (show [] ++ [0x5C] = u ++ [escByte] from hu) rfl
      exact absurd hu (by decide)
    · exact (write_write hb _ y).resolve_right fun h => hy h.1

/-- What the backslash after a cut `ESC` does: it is skipped, or ends the
sequence at the limit, or is drawn. -/
theorem skipByte_write_backslash {b : VTBuffer} (hb : b.ParserInv) (hs : b.inString = true) :
    b.skipByte.write [0x5C] = b.endString ↔
      ¬ (b.stringSeqSkipBytes + 2 ≤ maxStringSeqSkipBytes ∨
        b.stringSeqSkipBytes = maxStringSeqSkipBytes ∧ b.endString.writeRune '\\' ≠ b.endString) := by
  have hp := hb.pending_nil hs
  have he := hb.string_esc hs
  have hk := hb.skip_le
  obtain ⟨hi, hg, hgp⟩ := endString_inv hb hs hp
  have hge : b.endString.esc = [] := by unfold endString; split_ifs <;> exact he
  by_cases hmax : b.stringSeqSkipBytes + 1 > maxStringSeqSkipBytes
  · have h₁ : b.skipByte = b.endString := by rw [skipByte, if_pos hmax, endString_skip]
    rw [h₁, write_backslash hg hge hgp, not_or, not_and, not_not]
    exact ⟨fun h => ⟨by omega, fun _ => h⟩, fun h => h.2 (by omega)⟩
  · have h₁ : b.skipByte = { b with stringSeqSkipBytes := b.stringSeqSkipBytes + 1 } := by
      rw [skipByte, if_neg hmax]
    have hi₁ : ParserInv { b with stringSeqSkipBytes := b.stringSeqSkipBytes + 1 } :=
      ⟨hb.osc_string, hb.string_esc, hb.pending, by simpa using hmax⟩
    rw [h₁, write_skip hi₁ hs (by decide), skipByte]
    dsimp only
    split_ifs with hmax'
    · rw [endString_skip]
      exact ⟨fun _ => by omega, fun _ => by rw [endString_skip]⟩
    · refine ⟨fun h => absurd hg ?_, fun h => absurd h (by omega)⟩
      rw [← h]
      exact ne_false_of_eq_true hs

theorem cutsTerminator_iff {b : VTBuffer} (hb : b.ParserInv) (x : List UInt8) :
    b.CutsTerminator x ↔ ∃ x', x = x' ++ [escByte] ∧ (b.write x').inString = true ∧
      (b.write x').skipByte.write [0x5C] ≠ (b.write x').endString := by
  refine exists_congr fun x' => and_congr_right fun _ => and_congr_right fun hs => ?_
  rw [Ne.eq_def ((b.write x').skipByte.write [0x5C]),
    skipByte_write_backslash (write_inv hb x') hs, not_not]

/-- The mirror is independent of the cut after `x`, whatever comes next, exactly
when the cut does not go through the terminator of a string sequence. A next
chunk that does not begin with a backslash never tells. -/
theorem write_write_iff {b : VTBuffer} (h : VTReachable b) (x : List UInt8) :
    (∀ y, y.head? ≠ some 0x5C → (b.write x).write y = b.write (x ++ y)) ∧
      ((∀ y, (b.write x).write y = b.write (x ++ y)) ↔ ¬ b.CutsTerminator x) := by
  have hb := reachable_parserInv h
  refine ⟨fun y hy => (write_write hb x y).resolve_right fun h => hy h.1, ?_⟩
  rw [cutsTerminator_iff hb]
  constructor
  · rintro hall ⟨x', rfl, hs, hne⟩
    exact hne ((write_cut hb hs).1 hall)
  · intro hcut y
    refine (write_write hb x y).elim id fun ⟨_, x', hx, hs⟩ => ?_
    subst hx
    refine (write_cut hb hs).2 ?_ y
    by_contra hne
    exact hcut ⟨x', rfl, hs, hne⟩

/-- The clear-line sequence is no string sequence: a cut after its `ESC` is safe. -/
theorem write_write_clear_line :
    ((newVTBuffer 8 1).write [0x6F, 0x1B]).write [0x5B, 0x4B] =
      (newVTBuffer 8 1).write [0x6F, 0x1B, 0x5B, 0x4B] := by
  refine (write_write_iff (.new 8 1) [0x6F, 0x1B]).2.2 ?_ [0x5B, 0x4B]
  rintro ⟨x', hx, hs, _⟩
  obtain ⟨rfl, -⟩ := List.append_inj' (show [0x6F] ++ [0x1B] = x' ++ [escByte] from hx) rfl
  exact absurd hs (by decide)

/-- `ESC ] ESC`, then a backslash and text: the text is lost when the two come in
separate chunks. -/
theorem write_write_cut_loses_text :
    ¬ ∀ b, VTReachable b → ∀ x y, (b.write x).write y = b.write (x ++ y) := fun h =>
  absurd (h _ (.new 8 1) [0x1B, 0x5D, 0x1B] [0x5C, 0x6F, 0x6B]) (by decide)

end ManyAiCli.Hub.VTBuffer
