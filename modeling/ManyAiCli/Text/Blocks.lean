import ManyAiCli.Text.Cut

/-! Blocks between two markers in a text that grows at its end. Both markers begin with the
same symbol and have it nowhere else, so no two markers overlap. -/

namespace ManyAiCli.Text

variable {α : Type*} {sub s t a b p : List α}

/-! ### Where a text begins -/

/-- No occurrence begins in the first of the two texts. -/
def NoneIn (sub a t : List α) : Prop := ∀ u, u ≠ [] → u <:+ a → ¬ sub <+: u ++ t

theorem NoneIn.of_suffix (h : NoneIn sub b t) (hs : a <:+ b) : NoneIn sub a t :=
  fun u hne hu => h u hne (hu.trans hs)

theorem NoneIn.append (ha : NoneIn sub a (b ++ t)) (hb : NoneIn sub b t) : NoneIn sub (a ++ b) t := by
  intro u hne hu
  rcases List.suffix_or_suffix_of_suffix hu (List.suffix_append a b) with hle | ⟨c, rfl⟩
  · exact hb u hne hle
  · cases c with
    | nil => exact hb b hne List.suffix_rfl
    | cons x c =>
      rw [List.append_assoc]
      exact ha _ (List.cons_ne_nil x c) (List.suffix_append_self_iff.1 hu)

theorem noneIn_of_notMem {first : α} {rest : List α} (h : first ∉ a) : NoneIn (first :: rest) a t := by
  intro u hne hu hp
  cases u with
  | nil => exact hne rfl
  | cons x u =>
    rw [List.cons_append, List.cons_prefix_cons] at hp
    exact h (hp.1 ▸ hu.subset List.mem_cons_self)

/-- Before a symbol that an occurrence can only begin with, none goes on. -/
theorem noneIn_cons_iff {first : α} {rest : List α} (hrest : first ∉ rest) :
    NoneIn (first :: rest) a (first :: t) ↔ ¬ first :: rest <:+: a := by
  constructor
  · rintro h ⟨l, r, rfl⟩
    rw [List.append_assoc] at h
    refine h (first :: rest ++ r) (List.cons_ne_nil _ _) (List.suffix_append l _) ?_
    rw [List.append_assoc]
    exact List.prefix_append _ _
  · intro h u hne hu hp
    cases u with
    | nil => exact hne rfl
    | cons x u =>
      rw [List.cons_append, List.cons_prefix_cons] at hp
      obtain ⟨rfl, hp⟩ := hp
      have hin : first :: rest <+: first :: u :=
        List.cons_prefix_cons.2 ⟨rfl, prefix_of_prefix_append_cons hrest hp⟩
      exact h (hin.isInfix.trans hu.isInfix)

/-- An occurrence that begins in the first of the two texts ends in it. -/
def Apart (sub a t : List α) : Prop := ∀ u, u ≠ [] → u <:+ a → sub <+: u ++ t → sub <+: u

theorem Apart.of_suffix (h : Apart sub b t) (hs : a <:+ b) : Apart sub a t :=
  fun u hne hu => h u hne (hu.trans hs)

theorem Apart.infix_iff (h : Apart sub a t) : sub <:+: a ++ t ↔ sub <:+: a ∨ sub <:+: t := by
  constructor
  · rintro ⟨l, r, heq⟩
    rw [List.append_assoc] at heq
    rcases List.append_eq_append_iff.1 heq with ⟨c, rfl, hc⟩ | ⟨c, -, rfl⟩
    · by_cases hne : c = []
      · subst hne
        exact .inr ⟨[], r, by simpa using hc⟩
      · have hp : sub <+: c := h c hne (List.suffix_append l c) (hc ▸ List.prefix_append sub r)
        exact .inl (hp.isInfix.trans (List.suffix_append l c).isInfix)
    · exact .inr ⟨c, r, by simp⟩
  · rintro (h | h)
    · exact h.trans (List.prefix_append a t).isInfix
    · exact h.trans (List.suffix_append a t).isInfix

/-- Nothing goes on into a symbol that it can only begin with. -/
theorem apart_first {first : α} {rest : List α} (hrest : first ∉ rest) : Apart (first :: rest) a (first :: t)
    := by
  intro u hne _ hp
  cases u with
  | nil => exact absurd rfl hne
  | cons x u =>
    rw [List.cons_append, List.cons_prefix_cons] at hp
    exact List.cons_prefix_cons.2 ⟨hp.1, prefix_of_prefix_append_cons hrest hp.2⟩

theorem apart_sep {sep : α} (hsep : sep ∉ sub) : Apart sub a (sep :: t) :=
  fun _ _ _ hp => prefix_of_prefix_append_cons hsep hp

theorem apart_after_sep {sep : α} (hsep : sep ∉ sub) : Apart sub (a ++ [sep]) t := by
  intro u hne hu hp
  rcases List.suffix_concat_iff.1 hu with rfl | ⟨w, rfl, -⟩
  · exact absurd rfl hne
  · rw [List.append_assoc] at hp
    exact (prefix_of_prefix_append_cons hsep hp).trans (List.prefix_append w _)

section Index

variable [DecidableEq α]

theorem exists_of_index {i : ℕ} (h : index sub s = some i) :
    ∃ a t, s = a ++ t ∧ a.length = i ∧ sub <+: t ∧ NoneIn sub a t := by
  induction s generalizing i with
  | nil =>
    rw [index, Option.ite_none_right_eq_some] at h
    obtain ⟨hp, hi⟩ := h
    exact ⟨[], [], rfl, Option.some.inj hi, hp, fun u hne hu => absurd (List.suffix_nil.1 hu) hne⟩
  | cons c s ih =>
    rw [index] at h
    split_ifs at h with hp
    · exact ⟨[], c :: s, rfl, Option.some.inj h, hp, fun u hne hu => absurd (List.suffix_nil.1 hu) hne⟩
    · obtain ⟨j, hj, rfl⟩ := Option.map_eq_some_iff.1 h
      obtain ⟨a, t, rfl, rfl, ht, hnone⟩ := ih hj
      refine ⟨c :: a, t, rfl, rfl, ht, fun u hne hu => ?_⟩
      rcases List.suffix_cons_iff.1 hu with rfl | hu
      · exact hp
      · exact hnone u hne hu

theorem exists_first_occurrence (h : sub <:+: s) : ∃ a t, s = a ++ (sub ++ t) ∧ NoneIn sub a (sub ++ t) := by
  obtain ⟨i, hi⟩ := Option.isSome_iff_exists.1 (index_isSome_iff.2 h)
  obtain ⟨a, _, rfl, -, ⟨t, rfl⟩, hnone⟩ := exists_of_index hi
  exact ⟨a, t, rfl, hnone⟩

theorem index_first {b : α} (h : b ∉ s) (t : List α) : index [b] (s ++ b :: t) = some s.length :=
  index_append s ⟨t, rfl⟩ (noneIn_of_notMem h)

theorem exists_of_index_one {b : α} {i : ℕ} (h : index [b] s = some i) : ∃ l t, s = l ++ b :: t ∧ l.length =
    i ∧ b ∉ l := by
  obtain ⟨l, t, rfl, hlen, ⟨t', rfl⟩, hnone⟩ := exists_of_index h
  refine ⟨l, t', rfl, hlen, fun hm => ?_⟩
  obtain ⟨l₁, l₂, rfl⟩ := List.append_of_mem hm
  exact hnone (b :: l₂) (List.cons_ne_nil _ _) (List.suffix_append _ _) ⟨l₂ ++ b :: t', by simp⟩

theorem eq_of_first {b : α} {s' t' : List α} (hs : b ∉ s) (ht : b ∉ t) (h : s ++ b :: s' = t ++ b :: t') : s'
    = t' := by
  have hindex := index_first hs s'
  rw [h, index_first ht] at hindex
  exact (List.cons_eq_cons.1 (List.append_inj h (Option.some.inj hindex).symm).2).2

end Index

/-! ### Blocks -/

structure BlockMarks (α : Type*) where
  first : α
  openRest : List α
  closeRest : List α
  first_notMem_open : first ∉ openRest
  first_notMem_close : first ∉ closeRest
  open_not_starts : ¬ openRest <+: closeRest
  close_not_starts : ¬ closeRest <+: openRest

namespace BlockMarks

variable (m : BlockMarks α) {after after' : List α}

def start : List α := m.first :: m.openRest

def stop : List α := m.first :: m.closeRest

/-- Before a marker, a marker begins only where it is whole. -/
theorem noneIn_start_iff : NoneIn m.start a (m.first :: t) ↔ ¬ m.start <:+: a :=
  noneIn_cons_iff m.first_notMem_open

theorem noneIn_stop_iff : NoneIn m.stop a (m.first :: t) ↔ ¬ m.stop <:+: a :=
  noneIn_cons_iff m.first_notMem_close

theorem noneIn_start_stop : NoneIn m.start m.stop t := by
  intro u hne hu hp
  rcases List.suffix_cons_iff.1 hu with rfl | hu
  · have hpre : m.openRest <+: m.closeRest ++ t := (List.cons_prefix_cons.1 hp).2
    rcases List.prefix_or_prefix_of_prefix hpre (List.prefix_append m.closeRest t) with h | h
    · exact m.open_not_starts h
    · exact m.close_not_starts h
  · exact noneIn_of_notMem m.first_notMem_close u hne hu hp

theorem noneIn_stop_start : NoneIn m.stop m.start t := by
  intro u hne hu hp
  rcases List.suffix_cons_iff.1 hu with rfl | hu
  · have hpre : m.closeRest <+: m.openRest ++ t := (List.cons_prefix_cons.1 hp).2
    rcases List.prefix_or_prefix_of_prefix hpre (List.prefix_append m.openRest t) with h | h
    · exact m.close_not_starts h
    · exact m.open_not_starts h
  · exact noneIn_of_notMem m.first_notMem_open u hne hu hp

/-- A block with its markers, and what follows. -/
def block (body after : List α) : List α := m.start ++ (body ++ (m.stop ++ after))

theorem block_append : m.block b after ++ t = m.block b (after ++ t) := by
  simp [block]

theorem start_infix_block : m.start <:+: m.block b after := (List.prefix_append _ _).isInfix

theorem stop_infix_block : m.stop <:+: m.block b after :=
  ⟨m.start ++ b, after, by simp [block]⟩

variable [DecidableEq α]

/-- The body of the first block and what follows the block. -/
def cutBlock (s : List α) : Option (List α × List α) :=
  match index m.start s with
  | none => none
  | some i =>
    let inner := s.drop (i + m.start.length)
    match index m.stop inner with
    | none => none
    | some j => some (inner.take j, inner.drop (j + m.stop.length))

theorem cutBlock_eq_some_iff : m.cutBlock s = some (b, after) ↔
    ∃ p, s = p ++ m.block b after ∧ ¬ m.start <:+: p ∧ ¬ m.stop <:+: b := by
  constructor
  · intro h
    rw [cutBlock] at h
    split at h
    next => exact absurd h (by simp)
    next i hi =>
      obtain ⟨p, _, rfl, rfl, ⟨inner, rfl⟩, hp⟩ := exists_of_index hi
      have hdrop : (p ++ (m.start ++ inner)).drop (p.length + m.start.length) = inner := by
        rw [← List.append_assoc, List.drop_left' (by simp)]
      simp only [hdrop] at h
      split at h
      next => exact absurd h (by simp)
      next j hj =>
        obtain ⟨b', _, rfl, rfl, ⟨after', rfl⟩, hb⟩ := exists_of_index hj
        rw [List.take_left, ← List.append_assoc, List.drop_left' (by simp)] at h
        obtain ⟨rfl, rfl⟩ := Prod.mk.inj (Option.some.inj h)
        exact ⟨p, rfl, m.noneIn_start_iff.1 hp, m.noneIn_stop_iff.1 hb⟩
  · rintro ⟨p, rfl, hp, hb⟩
    have hi : index m.start (p ++ m.block b after) = some p.length :=
      index_append p (List.prefix_append _ _) (m.noneIn_start_iff.2 hp)
    have hj : index m.stop (b ++ (m.stop ++ after)) = some b.length :=
      index_append b (List.prefix_append _ _) (m.noneIn_stop_iff.2 hb)
    have hdrop : (p ++ m.block b after).drop (p.length + m.start.length) = b ++ (m.stop ++ after) := by
      rw [block, ← List.append_assoc, List.drop_left' (by simp)]
    have hafter : (b ++ (m.stop ++ after)).drop (b.length + m.stop.length) = after := by
      rw [← List.append_assoc, List.drop_left' (by simp)]
    simp only [cutBlock, hi, hdrop, hj, hafter, List.take_left]

theorem cutBlock_append (h : m.cutBlock s = some (b, after)) :
    m.cutBlock (s ++ t) = some (b, after ++ t) := by
  obtain ⟨p, rfl, hp, hb⟩ := m.cutBlock_eq_some_iff.1 h
  exact m.cutBlock_eq_some_iff.2 ⟨p, by rw [List.append_assoc, block_append], hp, hb⟩

theorem length_of_cutBlock (h : m.cutBlock s = some (b, after)) : after.length < s.length := by
  obtain ⟨p, rfl, -⟩ := m.cutBlock_eq_some_iff.1 h
  simp only [block, start, List.length_append, List.length_cons]
  omega

/-- All blocks of a text, each with what follows it, and the text after the last one. -/
def blocks (s : List α) : List (List α × List α) × List α :=
  match _h : m.cutBlock s with
  | none => ([], s)
  | some (b, after) => ((b, after) :: (blocks after).1, (blocks after).2)
termination_by s.length
decreasing_by all_goals exact m.length_of_cutBlock ‹_›

theorem blocks_of_none (h : m.cutBlock s = none) : m.blocks s = ([], s) := by
  rw [blocks]
  split
  next => rfl
  next heq => rw [h] at heq; cases heq

theorem blocks_of_some (h : m.cutBlock s = some (b, after)) :
    m.blocks s = ((b, after) :: (m.blocks after).1, (m.blocks after).2) := by
  rw [blocks]
  split
  next heq => rw [h] at heq; cases heq
  next heq =>
    rw [h] at heq
    obtain ⟨rfl, rfl⟩ := Prod.mk.inj (Option.some.inj heq)
    rfl

/-- The text after the last block. -/
def rest (s : List α) : List α := (m.blocks s).2

/-- The bodies of the blocks. -/
def bodies (s : List α) : List (List α) := (m.blocks s).1.map Prod.fst

theorem cutBlock_rest (s : List α) : m.cutBlock (m.rest s) = none := by
  rw [rest]
  induction h : s.length using Nat.strongRecOn generalizing s with
  | _ n ih =>
    cases hs : m.cutBlock s with
    | none => rwa [m.blocks_of_none hs]
    | some cut =>
      rw [m.blocks_of_some hs]
      exact ih _ (h ▸ m.length_of_cutBlock hs) _ rfl

theorem rest_of_none (h : m.cutBlock s = none) : m.rest s = s := by
  rw [rest, m.blocks_of_none h]

theorem rest_rest (s : List α) : m.rest (m.rest s) = m.rest s := m.rest_of_none (m.cutBlock_rest s)

/-- The blocks of a longer text are those of the text and those of its rest made longer. -/
theorem bodies_append_and_rest (s t : List α) :
    m.bodies (s ++ t) = m.bodies s ++ m.bodies (m.rest s ++ t) ∧ m.rest (s ++ t) = m.rest (m.rest s ++ t) :=
      by
  induction h : s.length using Nat.strongRecOn generalizing s with
  | _ n ih =>
    cases hs : m.cutBlock s with
    | none => simp [bodies, rest, m.blocks_of_none hs]
    | some cut =>
      obtain ⟨hbodies, hrest⟩ := ih _ (h ▸ m.length_of_cutBlock hs) cut.2 rfl
      simp only [bodies, rest] at hbodies hrest ⊢
      rw [m.blocks_of_some (m.cutBlock_append hs), m.blocks_of_some hs]
      simp only [List.map_cons, List.cons_append, hbodies, hrest, and_self]

theorem bodies_append (s t : List α) : m.bodies (s ++ t) = m.bodies s ++ m.bodies (m.rest s ++ t) :=
  (m.bodies_append_and_rest s t).1

theorem rest_append (s t : List α) : m.rest (s ++ t) = m.rest (m.rest s ++ t) :=
  (m.bodies_append_and_rest s t).2

/-- The rest is the whole text or what follows the last stop marker. -/
theorem rest_cases (s : List α) :
    (m.blocks s).1 = [] ∧ m.rest s = s ∨ m.cutBlock s ≠ none ∧ ∃ p, s = p ++ (m.stop ++ m.rest s) := by
  cases hs : m.cutBlock s with
  | none => exact .inl ⟨by rw [m.blocks_of_none hs], m.rest_of_none hs⟩
  | some cut =>
    refine .inr ⟨Option.some_ne_none _, ?_⟩
    induction h : s.length using Nat.strongRecOn generalizing s cut with
    | _ n ih =>
      obtain ⟨p, hsplit, -⟩ := m.cutBlock_eq_some_iff.1 hs
      have hrest : m.rest s = m.rest cut.2 := by rw [rest, m.blocks_of_some hs, rest]
      cases hafter : m.cutBlock cut.2 with
      | none =>
        refine ⟨p ++ (m.start ++ cut.1), ?_⟩
        rw [hrest, m.rest_of_none hafter]
        simpa [block] using hsplit
      | some next =>
        obtain ⟨q, hq⟩ := ih _ (h ▸ m.length_of_cutBlock hs) cut.2 next hafter rfl
        refine ⟨p ++ (m.start ++ (cut.1 ++ (m.stop ++ q))), ?_⟩
        rw [hrest, hsplit]
        conv_lhs => rw [hq]
        simp [block]

/-- What looks like a block somewhere in a text is the end of a block of it. -/
theorem exists_block_of_split {q : List α} (hs : s = q ++ m.block b after) (hb : ¬ m.stop <:+: b) :
    ∃ body, (body, after) ∈ (m.blocks s).1 ∧ (body = b ∨ ∃ y, body = y ++ (m.start ++ b)) := by
  induction h : s.length using Nat.strongRecOn generalizing s q with
  | _ n ih =>
    by_cases hq : m.start <:+: q
    · obtain ⟨q₁, q₂, rfl, hq₁⟩ := exists_first_occurrence hq
      replace hq₁ := m.noneIn_start_iff.1 hq₁
      by_cases hstop : m.stop <:+: q₂
      · -- a block is whole before
        obtain ⟨c, q₃, rfl, hc⟩ := exists_first_occurrence hstop
        have hcut : m.cutBlock s = some (c, q₃ ++ m.block b after) :=
          m.cutBlock_eq_some_iff.2 ⟨q₁, by simp [hs, block], hq₁, m.noneIn_stop_iff.1 hc⟩
        obtain ⟨body, hmem, hbody⟩ := ih _ (h ▸ m.length_of_cutBlock hcut) rfl rfl
        rw [m.blocks_of_some hcut]
        exact ⟨body, List.mem_cons_of_mem _ hmem, hbody⟩
      · have hinner : ¬ m.stop <:+: q₂ ++ (m.start ++ b) := by
          rw [← m.noneIn_stop_iff (t := m.closeRest)]
          exact (m.noneIn_stop_iff.2 hstop).append (m.noneIn_stop_start.append (m.noneIn_stop_iff.2 hb))
        have hcut : m.cutBlock s = some (q₂ ++ (m.start ++ b), after) :=
          m.cutBlock_eq_some_iff.2 ⟨q₁, by simp [hs, block], hq₁, hinner⟩
        rw [m.blocks_of_some hcut]
        exact ⟨_, List.mem_cons_self, .inr ⟨q₂, rfl⟩⟩
    · have hcut := m.cutBlock_eq_some_iff.2 ⟨q, hs, hq, hb⟩
      rw [m.blocks_of_some hcut]
      exact ⟨b, List.mem_cons_self, .inl rfl⟩

theorem stop_not_infix_of_mem (h : (b, after) ∈ (m.blocks s).1) : ¬ m.stop <:+: b := by
  induction hlen : s.length using Nat.strongRecOn generalizing s with
  | _ n ih =>
    cases hs : m.cutBlock s with
    | none =>
      rw [m.blocks_of_none hs] at h
      exact absurd h List.not_mem_nil
    | some cut =>
      rw [m.blocks_of_some hs] at h
      rcases List.mem_cons.1 h with heq | h
      · obtain ⟨_, -, -, hstop⟩ := m.cutBlock_eq_some_iff.1 hs
        rwa [(Prod.mk.inj heq).1]
      · exact ih _ (hlen ▸ m.length_of_cutBlock hs) h rfl

theorem cutBlock_eq_none_iff :
    m.cutBlock s = none ↔ ∀ p t, s = p ++ (m.start ++ t) → ¬ m.stop <:+: t := by
  constructor
  · rintro hs p t rfl hstop
    obtain ⟨x, y, rfl, hx⟩ := exists_first_occurrence hstop
    have hsplit : p ++ (m.start ++ (x ++ (m.stop ++ y))) = p ++ m.block x y := rfl
    obtain ⟨body, hmem, -⟩ := m.exists_block_of_split hsplit (m.noneIn_stop_iff.1 hx)
    rw [m.blocks_of_none hs] at hmem
    exact List.not_mem_nil hmem
  · intro h
    cases hs : m.cutBlock s with
    | none => rfl
    | some cut =>
      obtain ⟨p, hsplit, -⟩ := m.cutBlock_eq_some_iff.1 hs
      have hstop : m.stop <:+: cut.1 ++ (m.stop ++ cut.2) := ⟨cut.1, cut.2, by simp⟩
      exact absurd hstop (h p _ hsplit)

theorem cutBlock_of_suffix (hs : m.cutBlock s = none) (ht : t <:+ s) : m.cutBlock t = none := by
  obtain ⟨l, rfl⟩ := ht
  rw [cutBlock_eq_none_iff] at hs ⊢
  exact fun p r hr => hs (l ++ p) r (by rw [hr, List.append_assoc])

theorem cutBlock_of_prefix (hs : m.cutBlock s = none) (ht : t <+: s) : m.cutBlock t = none := by
  obtain ⟨r, rfl⟩ := ht
  cases h : m.cutBlock t with
  | none => rfl
  | some cut => rw [m.cutBlock_append h] at hs; cases hs

theorem cutBlock_of_no_start (h : ¬ m.start <:+: s) : m.cutBlock s = none := by
  rw [cutBlock_eq_none_iff]
  rintro p t rfl
  exact absurd ⟨p, t, by simp⟩ h

/-- Where no marker goes over the border and the two texts share no block, there is none. -/
theorem cutBlock_append_of_apart (hs : m.cutBlock s = none) (ht : m.cutBlock t = none)
    (hstart : Apart m.start s t) (hstop : Apart m.stop s t) (hcross : m.start <:+: s → ¬ m.stop <:+: t) :
    m.cutBlock (s ++ t) = none := by
  rw [cutBlock_eq_none_iff] at *
  intro p r heq
  rcases List.append_eq_append_iff.1 heq with ⟨c, -, hc⟩ | ⟨c, rfl, hc⟩
  · exact ht c r hc
  · by_cases hne : c = []
    · subst hne
      exact ht [] r (by simpa using hc.symm)
    · obtain ⟨d, rfl⟩ := hstart c hne (List.suffix_append p c) (hc ▸ List.prefix_append _ _)
      rw [List.append_assoc] at hc
      obtain rfl : r = d ++ t := List.append_cancel_left hc
      have hd : d <:+ p ++ (m.start ++ d) := ⟨p ++ m.start, by simp⟩
      rw [(hstop.of_suffix hd).infix_iff, not_or]
      exact ⟨hs p d rfl, hcross ⟨p, d, by simp⟩⟩

/-- A block whose start marker is the first one is the first block. -/
theorem cutBlock_of_index {i : ℕ} (hi : index m.start s = some i) (hs : s.drop i = m.block b after)
    (hb : ¬ m.stop <:+: b) : m.cutBlock s = some (b, after) := by
  obtain ⟨p, t, rfl, rfl, -, hp⟩ := exists_of_index hi
  rw [List.drop_left] at hs
  subst hs
  exact m.cutBlock_eq_some_iff.2 ⟨p, rfl, m.noneIn_start_iff.1 hp, hb⟩

theorem index_of_cutBlock (h : m.cutBlock s = some (b, after)) :
    ∃ i, index m.start s = some i ∧ s.drop i = m.block b after := by
  obtain ⟨p, rfl, hp, -⟩ := m.cutBlock_eq_some_iff.1 h
  exact ⟨p.length, index_append p (List.prefix_append _ _) (m.noneIn_start_iff.2 hp), List.drop_left⟩

/-! ### What is kept of a text -/

/-- The kept text `w` goes with the unread text `v`: it has no start marker before `v`. -/
def Window (w v : List α) : Prop := w <:+ v ∨ ∃ z, w = z ++ v ∧ ∀ t, NoneIn m.start z (v ++ t)

variable {m} {w w' v : List α}

omit [DecidableEq α] in
theorem Window.nil : m.Window [] v := .inl List.nil_suffix

omit [DecidableEq α] in
theorem Window.append (h : m.Window w v) (t : List α) : m.Window (w ++ t) (v ++ t) := by
  rcases h with h | ⟨z, rfl, hz⟩
  · exact .inl (List.suffix_append_self_iff.2 h)
  · refine .inr ⟨z, List.append_assoc z v t, fun t' => ?_⟩
    rw [List.append_assoc]
    exact hz _

omit [DecidableEq α] in
theorem Window.of_suffix (h : m.Window w v) (hs : w' <:+ w) : m.Window w' v := by
  rcases h with h | ⟨z, rfl, hz⟩
  · exact .inl (hs.trans h)
  · rcases List.suffix_or_suffix_of_suffix hs (List.suffix_append z v) with hle | ⟨z', rfl⟩
    · exact .inl hle
    · exact .inr ⟨z', rfl, fun t => (hz t).of_suffix (List.suffix_append_self_iff.1 hs)⟩

omit [DecidableEq α] in
/-- A start marker of the kept text is one of the unread text. -/
theorem Window.exists_split {r : List α} (h : m.Window w v) (hw : w = p ++ (m.start ++ r)) :
    ∃ q, v = q ++ (m.start ++ r) := by
  rcases h with ⟨x, rfl⟩ | ⟨z, rfl, hz⟩
  · exact ⟨x ++ p, by rw [hw, List.append_assoc]⟩
  · rcases List.append_eq_append_iff.1 hw with ⟨q, -, hv⟩ | ⟨y, rfl, hr⟩
    · exact ⟨q, hv⟩
    · cases y with
      | nil => exact ⟨[], by simpa using hr.symm⟩
      | cons c y =>
        refine absurd ?_ (hz [] _ (List.cons_ne_nil c y) (List.suffix_append p _))
        rw [List.append_nil, ← hr]
        exact List.prefix_append _ _

/-- A block of the unread text whose markers are not both kept is read, and what is kept
goes with the rest. -/
theorem Window.rest (h : m.Window w v) (hnot : ¬ (m.start <:+: w ∧ m.stop <:+: w)) :
    m.Window w (m.rest v) := by
  rcases m.rest_cases v with ⟨-, hrest⟩ | ⟨hcut, x, hx⟩
  · rwa [hrest]
  · obtain ⟨cut, hcut⟩ := Option.ne_none_iff_exists'.1 hcut
    obtain ⟨p, hv, -⟩ := m.cutBlock_eq_some_iff.1 hcut
    have hsuffix : w <:+ v := by
      rcases h with h | ⟨z, rfl, -⟩
      · exact h
      · have hin : m.block cut.1 cut.2 <:+: z ++ v :=
          ⟨z ++ p, [], by rw [List.append_nil, List.append_assoc, ← hv]⟩
        exact absurd ⟨m.start_infix_block.trans hin, m.stop_infix_block.trans hin⟩ hnot
    have hafter : m.rest v <:+ v := ⟨x ++ m.stop, by rw [List.append_assoc, ← hx]⟩
    rcases List.suffix_or_suffix_of_suffix hsuffix hafter with hle | ⟨z, rfl⟩
    · exact .inl hle
    · have hz : z ++ m.rest v <:+ x ++ m.stop ++ m.rest v := by
        rw [List.append_assoc, ← hx]
        exact hsuffix
      replace hz : z <:+ x ++ m.stop := List.suffix_append_self_iff.1 hz
      refine .inr ⟨z, rfl, fun t => ?_⟩
      rcases List.suffix_or_suffix_of_suffix hz (List.suffix_append x m.stop) with hle | ⟨y, rfl⟩
      · exact m.noneIn_start_stop.of_suffix hle
      · have hstop : m.stop <:+: y ++ m.stop ++ m.rest v := ⟨y, m.rest v, rfl⟩
        have hstart : ¬ m.start <:+: y := fun hs =>
          hnot ⟨hs.trans ⟨[], m.stop ++ m.rest v, by simp⟩, hstop⟩
        exact (m.noneIn_start_iff.2 hstart).append m.noneIn_start_stop

end BlockMarks

end ManyAiCli.Text
