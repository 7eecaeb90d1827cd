import ManyAiCli.Text.RegexpParts

/-! What a match takes. Some expressions take a character out of the ordinary with each match, and some
never end with certain characters; both can be read off the expression. A text of ordinary characters is
left alone by a replacement of all matches, and such characters at the end of a text stay apart. -/

namespace ManyAiCli.Text

namespace Regexp

/-- Each match takes a character that is none of the given ones. -/
def escapes (cs : List Char) : Regexp → Bool
  | empty | bot | eot | star _ _ => false
  | char p => cs.all fun c => !p c
  | seq a b => a.escapes cs || b.escapes cs
  | alt a b => a.escapes cs && b.escapes cs
  | group _ a => a.escapes cs

/-- No match ends with one of the given characters. -/
def avoids (cs : List Char) : Regexp → Bool
  | empty | bot | eot => true
  | char p => cs.all fun c => !p c
  | seq a b => b.avoids cs && (b.escapes [] || a.avoids cs)
  | alt a b => a.avoids cs && b.avoids cs
  | star a _ | group _ a => a.avoids cs

/-- From one place to the other some text is taken. -/
def Cursor.Takes (c : Cursor) (taken : List Char) (d : Cursor) : Prop :=
  c.rest = taken ++ d.rest ∧ d.pos = c.pos + taken.length

theorem Cursor.Takes.refl (c : Cursor) : c.Takes [] c := ⟨rfl, rfl⟩

theorem Cursor.Takes.trans {c d e : Cursor} {s t : List Char} (h : c.Takes s d) (h' : d.Takes t e) :
    c.Takes (s ++ t) e :=
  ⟨by rw [h.1, h'.1, List.append_assoc], by rw [h'.2, h.2, List.length_append, Nat.add_assoc]⟩

/-- What is taken is the same however it was found. -/
theorem Cursor.Takes.unique {c d : Cursor} {s t : List Char} (h : c.Takes s d) (h' : c.Takes t d) : s = t :=
  List.append_cancel_right (h.1.symm.trans h'.1)

theorem takes_ends (re : Regexp) : ∀ c, ∀ d ∈ ends re c, ∃ taken, c.Takes taken d := by
  induction re with
  | empty =>
    intro c d hd
    obtain rfl := List.mem_singleton.1 hd
    exact ⟨[], .refl _⟩
  | char p =>
    rintro ⟨pos, rest, groups⟩ d hd
    cases rest with
    | nil => exact absurd hd List.not_mem_nil
    | cons r rest =>
      rw [ends] at hd
      split_ifs at hd
      · obtain rfl := List.mem_singleton.1 hd
        exact ⟨[r], rfl, rfl⟩
      · exact absurd hd List.not_mem_nil
  | seq a b iha ihb =>
    intro c d hd
    obtain ⟨e, he, hd⟩ := List.mem_flatMap.1 hd
    obtain ⟨s, hs⟩ := iha c e he
    obtain ⟨t, ht⟩ := ihb e d hd
    exact ⟨s ++ t, hs.trans ht⟩
  | alt a b iha ihb =>
    intro c d hd
    exact (List.mem_append.1 hd).elim (iha c d) (ihb c d)
  | star a greedy ih =>
    intro c d hd
    refine rounds_induction (R := fun c d => ∃ taken, c.Takes taken d) (fun c => ⟨[], .refl c⟩)
      (fun _ _ _ hc hd => ?_) ih greedy _ c d hd
    obtain ⟨s, hs⟩ := hc
    obtain ⟨t, ht⟩ := hd
    exact ⟨s ++ t, hs.trans ht⟩
  | group n a ih =>
    intro c d hd
    obtain ⟨e, he, rfl⟩ := List.mem_map.1 hd
    exact ih c e he
  | bot =>
    intro c d hd
    rw [ends] at hd
    split_ifs at hd
    · obtain rfl := List.mem_singleton.1 hd
      exact ⟨[], .refl _⟩
    · exact absurd hd List.not_mem_nil
  | eot =>
    intro c d hd
    rw [ends] at hd
    split_ifs at hd
    · obtain rfl := List.mem_singleton.1 hd
      exact ⟨[], .refl _⟩
    · exact absurd hd List.not_mem_nil

/-- Of a character that an expression of one can take. -/
theorem not_mem_of_all {cs : List Char} {p : Char → Bool} (h : (cs.all fun c => !p c) = true) {x : Char}
    (hx : p x = true) : x ∉ cs := by
  intro hIn
  have hNot := List.all_eq_true.1 h x hIn
  rw [hx] at hNot
  exact Bool.false_ne_true hNot

theorem mem_of_escapes {cs : List Char} {re : Regexp} (h : re.escapes cs = true) :
    ∀ c, ∀ d ∈ ends re c, ∀ taken, c.Takes taken d → ∃ x ∈ taken, x ∉ cs := by
  induction re with
  | empty | bot | eot | star => exact absurd h Bool.false_ne_true
  | char p =>
    rintro ⟨pos, rest, groups⟩ d hd taken hTaken
    cases rest with
    | nil => exact absurd hd List.not_mem_nil
    | cons r rest =>
      rw [ends] at hd
      split_ifs at hd with hr
      · obtain rfl := List.mem_singleton.1 hd
        have hOne : (⟨pos, r :: rest, groups⟩ : Cursor).Takes [r] ⟨pos + 1, rest, groups⟩ := ⟨rfl, rfl⟩
        rw [hTaken.unique hOne]
        exact ⟨r, List.mem_singleton_self r, not_mem_of_all h hr⟩
      · exact absurd hd List.not_mem_nil
  | seq a b iha ihb =>
    intro c d hd taken hTaken
    obtain ⟨e, he, hd⟩ := List.mem_flatMap.1 hd
    obtain ⟨s, hs⟩ := takes_ends a c e he
    obtain ⟨t, ht⟩ := takes_ends b e d hd
    rw [hTaken.unique (hs.trans ht)]
    rw [escapes, Bool.or_eq_true] at h
    rcases h with h | h
    · obtain ⟨x, hx, hxs⟩ := iha h c e he s hs
      exact ⟨x, List.mem_append_left t hx, hxs⟩
    · obtain ⟨x, hx, hxs⟩ := ihb h e d hd t ht
      exact ⟨x, List.mem_append_right s hx, hxs⟩
  | alt a b iha ihb =>
    rw [escapes, Bool.and_eq_true] at h
    intro c d hd
    exact (List.mem_append.1 hd).elim (iha h.1 c d) (ihb h.2 c d)
  | group n a ih =>
    intro c d hd taken hTaken
    obtain ⟨e, he, rfl⟩ := List.mem_map.1 hd
    exact ih h c e he taken hTaken

/-- The last character of a text, if there is one, is none of the given ones. -/
def Solid (cs : List Char) (s : List Char) : Prop := ∀ x, s.getLast? = some x → x ∉ cs

theorem solid_nil (cs : List Char) : Solid cs [] := fun _ h => absurd h.symm (Option.some_ne_none _)

theorem Solid.append {cs s t : List Char} (ht : Solid cs t) (hs : t = [] → Solid cs s) : Solid cs (s ++ t) := by
  by_cases hNil : t = []
  · rw [hNil, List.append_nil]
    exact hs hNil
  · intro x hx
    rw [List.getLast?_append_of_ne_nil _ hNil] at hx
    exact ht x hx

theorem solid_of_avoids {cs : List Char} {re : Regexp} (h : re.avoids cs = true) :
    ∀ c, ∀ d ∈ ends re c, ∀ taken, c.Takes taken d → Solid cs taken := by
  have hStay (c : Cursor) (taken : List Char) (hTaken : c.Takes taken c) : Solid cs taken := by
    rw [hTaken.unique (.refl c)]
    exact solid_nil cs
  induction re with
  | empty =>
    intro c d hd
    obtain rfl := List.mem_singleton.1 hd
    exact hStay _
  | char p =>
    rintro ⟨pos, rest, groups⟩ d hd taken hTaken
    cases rest with
    | nil => exact absurd hd List.not_mem_nil
    | cons r rest =>
      rw [ends] at hd
      split_ifs at hd with hr
      · obtain rfl := List.mem_singleton.1 hd
        have hOne : (⟨pos, r :: rest, groups⟩ : Cursor).Takes [r] ⟨pos + 1, rest, groups⟩ := ⟨rfl, rfl⟩
        rw [hTaken.unique hOne]
        intro x hx
        rw [← Option.some.inj hx]
        exact not_mem_of_all h hr
      · exact absurd hd List.not_mem_nil
  | seq a b iha ihb =>
    intro c d hd taken hTaken
    obtain ⟨e, he, hd⟩ := List.mem_flatMap.1 hd
    obtain ⟨s, hs⟩ := takes_ends a c e he
    obtain ⟨t, ht⟩ := takes_ends b e d hd
    rw [avoids, Bool.and_eq_true, Bool.or_eq_true] at h
    rw [hTaken.unique (hs.trans ht)]
    refine (ihb h.1 e d hd t ht).append fun hNil => ?_
    rcases h.2 with hSome | ha
    · obtain ⟨x, hx, -⟩ := mem_of_escapes hSome e d hd t ht
      rw [hNil] at hx
      exact absurd hx List.not_mem_nil
    · exact iha ha c e he s hs
  | alt a b iha ihb =>
    rw [avoids, Bool.and_eq_true] at h
    intro c d hd
    exact (List.mem_append.1 hd).elim (iha h.1 c d) (ihb h.2 c d)
  | star a greedy ih =>
    intro c d hd taken hTaken
    have hRound : ∃ taken, c.Takes taken d ∧ Solid cs taken := by
      refine rounds_induction (R := fun c d => ∃ taken, c.Takes taken d ∧ Solid cs taken)
        (fun c => ⟨[], .refl c, solid_nil cs⟩) (fun _ _ _ hc hd => ?_)
        (fun c d hd => (takes_ends a c d hd).imp fun t ht => ⟨ht, ih h c d hd t ht⟩) greedy _ c d hd
      obtain ⟨s, hs, hs'⟩ := hc
      obtain ⟨t, ht, ht'⟩ := hd
      exact ⟨s ++ t, hs.trans ht, ht'.append fun _ => hs'⟩
    obtain ⟨s, hs, hSolid⟩ := hRound
    rwa [hTaken.unique hs]
  | group n a ih =>
    intro c d hd taken hTaken
    obtain ⟨e, he, rfl⟩ := List.mem_map.1 hd
    exact ih h c e he taken hTaken
  | bot | eot =>
    intro c d hd
    rw [ends] at hd
    split_ifs at hd
    · obtain rfl := List.mem_singleton.1 hd
      exact hStay _
    · exact absurd hd List.not_mem_nil

end Regexp

/-! ### Replacing all matches -/

section Replace

open Regexp

variable {α : Type} {val : α → Char} {re : Regexp} {f : List α → List α} {cs : List Char} {s x y : List α}

theorem front_takes {m : Cursor} (h : front val re s = some m) :
    (⟨0, s.map val, []⟩ : Cursor).Takes ((s.take m.pos).map val) m := by
  obtain ⟨taken, hRest, hPos⟩ := takes_ends re _ m (List.mem_of_head? h)
  have hTaken : (s.take m.pos).map val = taken := by
    have hLen : m.pos = taken.length := by rw [hPos, Nat.zero_add]
    rw [List.map_take, show s.map val = taken ++ m.rest from hRest, hLen, List.take_left]
  rw [hTaken]
  exact ⟨hRest, hPos⟩

/-- Where all is ordinary, nothing changes. -/
theorem replaceAllFunc_of_escapes (h : re.escapes cs = true) (hs : ∀ a ∈ s, val a ∈ cs) :
    replaceAllFunc val re f 0 s = s := by
  induction s with
  | nil => rfl
  | cons a s ih =>
    have hNone : front val re (a :: s) = none := by
      rw [Option.eq_none_iff_forall_not_mem]
      intro m hm
      obtain ⟨x, hx, hOut⟩ := mem_of_escapes h _ m (List.mem_of_head? hm) _ (front_takes hm)
      obtain ⟨b, hb, rfl⟩ := List.mem_map.1 hx
      exact hOut (hs b (List.mem_of_mem_take hb))
    rw [replaceAllFunc, hNone]
    exact congrArg (a :: ·) (ih fun b hb => hs b (List.mem_cons_of_mem a hb))

/-- The last of what a match takes is none of the characters that it avoids. -/
theorem solid_front (h : re.avoids cs = true) {m : Cursor} (hm : front val re s = some m) :
    Solid cs ((s.take m.pos).map val) :=
  solid_of_avoids h _ m (List.mem_of_head? hm) _ (front_takes hm)

/-- So no match reaches into a part that consists of them. -/
theorem front_pos_le_of_avoids (h : re.avoids cs = true) (hy : ∀ a ∈ y, val a ∈ cs) {m : Cursor}
    (hm : front val re (x ++ y) = some m) : m.pos ≤ x.length := by
  by_contra hLong
  have hSplit : (x ++ y).take m.pos = x ++ y.take (m.pos - x.length) := by
    rw [List.take_append, List.take_of_length_le (by omega)]
  have hPos := front_pos_le hm
  have hNe : y.take (m.pos - x.length) ≠ [] := by
    apply List.ne_nil_of_length_pos
    rw [List.length_append] at hPos
    rw [List.length_take]
    omega
  obtain ⟨a, ha⟩ : ∃ a, (y.take (m.pos - x.length)).getLast? = some a :=
    ⟨_, List.getLast?_eq_getLast_of_ne_nil hNe⟩
  apply solid_front h hm (val a)
  · rw [hSplit, List.getLast?_map, List.getLast?_append_of_ne_nil _ hNe, ha, Option.map_some]
  · exact hy a (List.mem_of_mem_take (List.mem_of_getLast? ha))

theorem spill_of_avoids (h : re.avoids cs = true) (hy : ∀ a ∈ y, val a ∈ cs) :
    ∀ skip ≤ x.length, spill val re y skip x = 0 := by
  induction x with
  | nil =>
    intro skip hSkip
    exact Nat.le_zero.1 hSkip
  | cons a x ih =>
    intro skip hSkip
    cases skip with
    | succ skip => exact ih skip (Nat.le_of_succ_le_succ hSkip)
    | zero =>
      rw [spill]
      cases hm : front val re (a :: x ++ y) with
      | none => exact ih 0 (Nat.zero_le _)
      | some m =>
        have hPos := front_pos_le_of_avoids h hy hm
        rw [List.length_cons] at hPos
        exact ih (m.pos - 1) (by omega)

theorem replaceAllFunc_of_avoids (h : re.avoids cs = true) (hy : ∀ a ∈ y, val a ∈ cs) :
    replaceAllFunc val re f 0 y = y := by
  induction y with
  | nil => rfl
  | cons a y ih =>
    have hRest := ih fun b hb => hy b (List.mem_cons_of_mem a hb)
    rw [replaceAllFunc]
    split
    next m hm =>
      have hZero : m.pos = 0 := Nat.le_zero.1 (front_pos_le_of_avoids (x := []) h hy hm)
      rw [if_pos hZero, hRest]
    next => rw [hRest]

/-- What no match ends with stays apart at the end of a text. -/
theorem replaceAllFunc_append_of_avoids (hre : re.openEnded = true) (h : re.avoids cs = true)
    (hy : ∀ a ∈ y, val a ∈ cs) : replaceAllFunc val re f 0 (x ++ y) = replaceAllFunc val re f 0 x ++ y := by
  rw [replaceAllFunc_append hre (spill_of_avoids h hy 0 (Nat.zero_le _)), replaceAllFunc_of_avoids h hy]

/-- The end of a text is no avoided character after the replacement if it was none before. -/
theorem solid_replaceAllFunc (h : re.avoids cs = true) (hNe : ∀ m, f m ≠ [])
    (hf : ∀ m, Solid cs (m.map val) → Solid cs ((f m).map val)) (hs : Solid cs (s.map val)) (skip : ℕ) :
    Solid cs ((replaceAllFunc val re f skip s).map val) := by
  induction s generalizing skip with
  | nil =>
    have hNil : replaceAllFunc val re f skip [] = [] := by cases skip <;> rfl
    rw [hNil]
    exact solid_nil cs
  | cons a s ih =>
    have hTail : Solid cs (s.map val) := by
      by_cases hNil : s = []
      · rw [hNil]
        exact solid_nil cs
      · intro x hx
        apply hs x
        rwa [List.map_cons, ← List.singleton_append, List.getLast?_append_of_ne_nil]
        exact fun hMap => hNil (List.map_eq_nil_iff.1 hMap)
    have hStay : Solid cs ((a :: replaceAllFunc val re f 0 s).map val) := by
      rw [List.map_cons, ← List.singleton_append]
      refine (ih hTail 0).append fun hNil => ?_
      have hEmpty : s = [] := by
        by_contra hSome
        exact replaceAllFunc_ne_nil val re hNe hSome (List.map_eq_nil_iff.1 hNil)
      rwa [hEmpty] at hs
    cases skip with
    | succ skip => exact ih hTail skip
    | zero =>
      rw [replaceAllFunc]
      split
      next m hm =>
        split_ifs
        · exact hStay
        · rw [List.map_append]
          exact (ih hTail (m.pos - 1)).append fun _ => hf _ (solid_front h hm)
      next => exact hStay

/-- What each replacement puts in is there, unless nothing has been replaced. -/
theorem replaceAllFunc_eq_or_mem {a : α} (hf : ∀ m, a ∈ f m) :
    replaceAllFunc val re f 0 s = s ∨ a ∈ replaceAllFunc val re f 0 s := by
  induction s with
  | nil => exact .inl rfl
  | cons b s ih =>
    have hStay := ih.imp (congrArg (b :: ·)) (List.mem_cons_of_mem b)
    rw [replaceAllFunc]
    split
    next m hm =>
      split_ifs
      · exact hStay
      · exact .inr (List.mem_append_left _ (hf _))
    next => exact hStay

end Replace

end ManyAiCli.Text
