import ManyAiCli.Text.Parts
import Mathlib.Data.List.Infix
import Mathlib.Tactic.Common

/-! Search in lists: the place of a first occurrence, and a list without the matches
of a matcher, taken from left to right. -/

namespace ManyAiCli.Text

variable {α : Type*}

section Index

variable [DecidableEq α] {sub s : List α}

/-- `strings.Index`. -/
def index (sub : List α) : List α → Option ℕ
  | [] => if sub <+: [] then some 0 else none
  | c :: s => if sub <+: c :: s then some 0 else (index sub s).map (· + 1)

/-- `strings.LastIndex`. -/
def lastIndex (sub : List α) : List α → Option ℕ
  | [] => if sub <+: [] then some 0 else none
  | c :: s => ((lastIndex sub s).map (· + 1)).or (if sub <+: c :: s then some 0 else none)

/-- The first occurrence is where no earlier place has one. -/
theorem index_append (a : List α) {t : List α} (ht : sub <+: t)
    (hfirst : ∀ u, u ≠ [] → u <:+ a → ¬ sub <+: u ++ t) : index sub (a ++ t) = some a.length := by
  induction a with
  | nil => cases t <;> simp [index, ht]
  | cons x a ih =>
    have hno : ¬ sub <+: x :: (a ++ t) := hfirst (x :: a) (by simp) List.suffix_rfl
    rw [List.cons_append, index, if_neg hno,
      ih fun u hne hu => hfirst u hne (hu.trans (List.suffix_cons x a))]
    rfl

theorem index_isSome_iff : (index sub s).isSome = true ↔ sub <:+: s := by
  induction s with
  | nil => by_cases h : sub <+: [] <;> simp_all [index]
  | cons b s ih =>
    rw [index, List.infix_cons_iff]
    split_ifs with h
    · simp [h]
    · rw [Option.isSome_map, ih]
      simp [h]

theorem index_eq_none_iff : index sub s = none ↔ ¬ sub <:+: s := by
  rw [← index_isSome_iff, Bool.not_eq_true, Option.isSome_eq_false_iff, Option.isNone_iff_eq_none]

theorem lastIndex_eq_none_iff : lastIndex sub s = none ↔ ¬ sub <:+: s := by
  induction s with
  | nil =>
    rw [lastIndex, List.infix_nil]
    split_ifs with h
    · exact iff_of_false (by simp) (fun hne => hne (List.prefix_nil.1 h))
    · exact iff_of_true rfl fun he => h (he ▸ List.prefix_rfl)
  | cons c s ih =>
    rw [lastIndex, List.infix_cons_iff, Option.or_eq_none_iff, Option.map_eq_none_iff, ih, not_or, and_comm]
    refine and_congr_left fun _ => ?_
    split_ifs with h
    · exact iff_of_false (by simp) (not_not.2 h)
    · exact iff_of_true rfl h

/-- The last occurrence, with none that begins after it. -/
theorem exists_of_lastIndex {i : ℕ} (h : lastIndex sub s = some i) :
    ∃ a t, s = a ++ t ∧ a.length = i ∧ sub <+: t ∧ ∀ u, u <:+ t → u ≠ t → ¬ sub <+: u := by
  induction s generalizing i with
  | nil =>
    rw [lastIndex, Option.ite_none_right_eq_some] at h
    exact ⟨[], [], rfl, Option.some.inj h.2, h.1, fun u hu hne => absurd (List.suffix_nil.1 hu) hne⟩
  | cons c s ih =>
    rw [lastIndex] at h
    cases hrest : lastIndex sub s with
    | some j =>
      rw [hrest] at h
      obtain ⟨a, t, rfl, rfl, ht, hlast⟩ := ih hrest
      exact ⟨c :: a, t, rfl, Option.some.inj h, ht, hlast⟩
    | none =>
      rw [hrest, Option.map_none, Option.none_or, Option.ite_none_right_eq_some] at h
      refine ⟨[], c :: s, rfl, Option.some.inj h.2, h.1, ?_⟩
      intro u hu hne hp
      rw [lastIndex_eq_none_iff] at hrest
      rcases List.suffix_cons_iff.1 hu with rfl | hu
      · exact hne rfl
      · exact hrest (hp.isInfix.trans hu.isInfix)

theorem lastIndex_append (a : List α) {t : List α} {c : α} (ht : sub <+: c :: t) (hlast : ¬ sub <:+: t) :
    lastIndex sub (a ++ c :: t) = some a.length := by
  induction a with
  | nil =>
    rw [List.nil_append, lastIndex, lastIndex_eq_none_iff.2 hlast, if_pos ht]
    rfl
  | cons x a ih =>
    rw [List.cons_append, lastIndex, ih]
    rfl

end Index

section Cut

/-- `ReplaceAll` by nothing: what is left of a list when every match is taken out. The
matcher gives the length of a match at the beginning; the first number of elements
belongs to a match already. -/
def cutAll (matchLen : List α → Option ℕ) : ℕ → List α → List α
  | _, [] => []
  | skip + 1, _ :: s => cutAll matchLen skip s
  | 0, c :: s =>
    match matchLen (c :: s) with
    | some n => if n = 0 then c :: cutAll matchLen 0 s else cutAll matchLen (n - 1) s
    | none => c :: cutAll matchLen 0 s

variable {matchLen : List α → Option ℕ}

theorem cutAll_skip (n : ℕ) (s : List α) : cutAll matchLen n s = cutAll matchLen 0 (s.drop n) := by
  induction s generalizing n with
  | nil => cases n <;> rfl
  | cons c s ih =>
    cases n with
    | zero => rfl
    | succ n => rw [cutAll, List.drop_succ_cons, ih]

/-- A match at the beginning goes. -/
theorem cutAll_match {s : List α} {n : ℕ} (hs : s ≠ []) (hm : matchLen s = some (n + 1)) :
    cutAll matchLen 0 s = cutAll matchLen 0 (s.drop (n + 1)) := by
  cases s with
  | nil => exact absurd rfl hs
  | cons c s => simp [cutAll, hm, cutAll_skip n s]

/-- What comes before the first match stays. -/
theorem cutAll_append (a t : List α) (hnone : ∀ u, u ≠ [] → u <:+ a → matchLen (u ++ t) = none) :
    cutAll matchLen 0 (a ++ t) = a ++ cutAll matchLen 0 t := by
  induction a with
  | nil => rfl
  | cons x a ih =>
    have hx : matchLen (x :: (a ++ t)) = none := hnone (x :: a) (by simp) List.suffix_rfl
    rw [List.cons_append, cutAll, hx, ih fun u hne hu => hnone u hne (hu.trans (List.suffix_cons x a))]
    rfl

/-- `ReplaceAll` by a text of its own. -/
def replaceAll (matchLen : List α → Option ℕ) (new : List α) : ℕ → List α → List α
  | _, [] => []
  | skip + 1, _ :: s => replaceAll matchLen new skip s
  | 0, c :: s =>
    match matchLen (c :: s) with
    | some n => if n = 0 then c :: replaceAll matchLen new 0 s else new ++ replaceAll matchLen new (n - 1) s
    | none => c :: replaceAll matchLen new 0 s

variable {new : List α}

theorem replaceAll_skip (n : ℕ) (s : List α) :
    replaceAll matchLen new n s = replaceAll matchLen new 0 (s.drop n) := by
  induction s generalizing n with
  | nil => cases n <;> rfl
  | cons c s ih =>
    cases n with
    | zero => rfl
    | succ n => rw [replaceAll, List.drop_succ_cons, ih]

theorem replaceAll_match {s : List α} {n : ℕ} (hs : s ≠ []) (hm : matchLen s = some (n + 1)) :
    replaceAll matchLen new 0 s = new ++ replaceAll matchLen new 0 (s.drop (n + 1)) := by
  cases s with
  | nil => exact absurd rfl hs
  | cons c s => simp [replaceAll, hm, replaceAll_skip n s]

theorem replaceAll_append (a t : List α) (hnone : ∀ u, u ≠ [] → u <:+ a → matchLen (u ++ t) = none) :
    replaceAll matchLen new 0 (a ++ t) = a ++ replaceAll matchLen new 0 t := by
  induction a with
  | nil => rfl
  | cons x a ih =>
    have hx : matchLen (x :: (a ++ t)) = none := hnone (x :: a) (by simp) List.suffix_rfl
    rw [List.cons_append, replaceAll, hx, ih fun u hne hu => hnone u hne (hu.trans (List.suffix_cons x a))]
    rfl

/-- Where nothing matches, nothing changes. -/
theorem replaceAll_of_none {s : List α} (h : ∀ u, u ≠ [] → u <:+ s → matchLen u = none) :
    replaceAll matchLen new 0 s = s := by
  have hall : replaceAll matchLen new 0 (s ++ []) = s ++ replaceAll matchLen new 0 [] :=
    replaceAll_append s [] fun u hne hu => by rw [List.append_nil, h u hne hu]
  rwa [List.append_nil, replaceAll, List.append_nil] at hall

theorem cutAll_eq_replaceAll (skip : ℕ) (s : List α) :
    cutAll matchLen skip s = replaceAll matchLen [] skip s := by
  induction s generalizing skip with
  | nil => cases skip <;> rfl
  | cons c s ih =>
    cases skip with
    | zero =>
      rw [cutAll, replaceAll, ih]
      cases matchLen (c :: s) with
      | none => rfl
      | some n => simp only [ih, List.nil_append]
    | succ skip => exact ih skip

/-- The matches that a replacement takes. -/
def taken (matchLen : List α → Option ℕ) : ℕ → List α → List (List α)
  | _, [] => []
  | skip + 1, _ :: s => taken matchLen skip s
  | 0, c :: s =>
    match matchLen (c :: s) with
    | some n => if n = 0 then taken matchLen 0 s else (c :: s).take n :: taken matchLen (n - 1) s
    | none => taken matchLen 0 s

theorem taken_skip (n : ℕ) (s : List α) : taken matchLen n s = taken matchLen 0 (s.drop n) := by
  induction s generalizing n with
  | nil => cases n <;> rfl
  | cons c s ih =>
    cases n with
    | zero => rfl
    | succ n => rw [taken, List.drop_succ_cons, ih]

theorem taken_match {s : List α} {n : ℕ} (hs : s ≠ []) (hm : matchLen s = some (n + 1)) :
    taken matchLen 0 s = s.take (n + 1) :: taken matchLen 0 (s.drop (n + 1)) := by
  cases s with
  | nil => exact absurd rfl hs
  | cons c s => simp [taken, hm, taken_skip n s]

theorem taken_append (a t : List α) (hnone : ∀ u, u ≠ [] → u <:+ a → matchLen (u ++ t) = none) :
    taken matchLen 0 (a ++ t) = taken matchLen 0 t := by
  induction a with
  | nil => rfl
  | cons x a ih =>
    have hx : matchLen (x :: (a ++ t)) = none := hnone (x :: a) (by simp) List.suffix_rfl
    rw [List.cons_append, taken, hx, ih fun u hne hu => hnone u hne (hu.trans (List.suffix_cons x a))]

theorem taken_of_none {s : List α} (h : ∀ u, u ≠ [] → u <:+ s → matchLen u = none) :
    taken matchLen 0 s = [] := by
  have hall : taken matchLen 0 (s ++ []) = taken matchLen 0 [] :=
    taken_append s [] fun u hne hu => by rw [List.append_nil, h u hne hu]
  rwa [List.append_nil, taken] at hall

end Cut

section Split

variable {sep : α} {s line : List α}

theorem infix_intercalate {between l : List α} {ls : List (List α)} (h : l ∈ ls) :
    l <:+: between.intercalate ls := by
  induction ls with
  | nil => exact absurd h List.not_mem_nil
  | cons x ls ih =>
    rcases List.mem_cons.mp h with rfl | h
    · cases ls with
      | nil => rw [List.intercalate_singleton]
      | cons y ls =>
        rw [List.intercalate_cons_cons, List.append_assoc]
        exact (List.prefix_append l _).isInfix
    · rw [List.intercalate_cons_of_ne_nil (List.ne_nil_of_mem h)]
      exact (ih h).trans (List.suffix_append _ _).isInfix

variable [DecidableEq α]

theorem infix_of_mem_splitOn (h : line ∈ s.splitOn sep) : line <:+: s := by
  have hin : line <:+: [sep].intercalate (s.splitOn sep) := infix_intercalate h
  rwa [List.intercalate_splitOn] at hin

theorem not_mem_of_mem_splitOn (h : line ∈ s.splitOn sep) : sep ∉ line := by
  intro hm
  exact absurd (not_sep_of_mem_splitOnP h sep hm) (by simp)

/-- The lines of the front of a text: the last of them may go on. -/
theorem splitOn_of_prefix (sep : α) {b : List α} (h : b <+: s) : ∃ ls p line rest,
    b.splitOn sep = ls ++ [p] ∧ s.splitOn sep = ls ++ line :: rest ∧ p <+: line := by
  induction b generalizing s with
  | nil =>
    obtain ⟨line, rest, hs⟩ := List.exists_cons_of_ne_nil (List.splitOn_ne_nil sep s)
    exact ⟨[], [], line, rest, List.splitOn_nil sep, hs, List.nil_prefix⟩
  | cons c b ih =>
    obtain ⟨s, rfl⟩ : ∃ s', s = c :: s' := by
      obtain ⟨t, rfl⟩ := h
      exact ⟨b ++ t, rfl⟩
    obtain ⟨ls, p, line, rest, hb, hs, hp⟩ := ih (List.cons_prefix_cons.1 h).2
    rw [List.splitOn_cons_eq_if_modifyHead, List.splitOn_cons_eq_if_modifyHead, hb, hs]
    split_ifs with hc
    · exact ⟨[] :: ls, p, line, rest, rfl, rfl, hp⟩
    · cases ls with
      | nil => exact ⟨[], c :: p, c :: line, rest, rfl, rfl, List.cons_prefix_cons.2 ⟨rfl, hp⟩⟩
      | cons l ls => exact ⟨(c :: l) :: ls, p, line, rest, rfl, rfl, hp⟩

/-- Taking lines out changes the text. -/
theorem intercalate_filter_ne {p : List α → Bool} (hempty : p [] = true)
    (h : ∃ line ∈ s.splitOn sep, p line = false) :
    [sep].intercalate ((s.splitOn sep).filter p) ≠ s := by
  intro heq
  have hfew : (s.splitOn sep).filter p ≠ s.splitOn sep := by
    rw [Ne, List.filter_eq_self]
    obtain ⟨line, hl, hp⟩ := h
    exact fun hall => by simp [hall line hl] at hp
  by_cases hnil : (s.splitOn sep).filter p = []
  · -- then the text is empty and so is its one line, which stays
    rw [hnil, List.intercalate_nil] at heq
    subst heq
    simp [List.splitOn_nil, hempty] at hnil
  · have hsplit := List.splitOn_intercalate sep
      (fun l hl => not_mem_of_mem_splitOn (List.mem_of_mem_filter hl)) hnil
    rw [heq] at hsplit
    exact hfew hsplit.symm

end Split

theorem find?_eq_of_agree {l : List α} {p q : α → Bool} (h : ∀ a ∈ l, p a = q a) : l.find? p = l.find? q := by
  induction l with
  | nil => rfl
  | cons a l ih =>
    rw [List.find?_cons, List.find?_cons, h a (List.mem_cons_self ..), ih fun b hb => h b
      (List.mem_cons_of_mem a hb)]

/-- An occurrence that does not hold the separator does not go over it. -/
theorem prefix_of_prefix_append_cons {sub u t : List α} {sep : α} (hsep : sep ∉ sub)
    (h : sub <+: u ++ sep :: t) : sub <+: u := by
  rcases Nat.lt_or_ge u.length sub.length with hlt | hle
  · have hu : u ++ [sep] <+: sub :=
      List.prefix_of_prefix_length_le ⟨t, by simp⟩ h (by rw [List.length_append]; exact hlt)
    exact absurd (hu.subset (by simp)) hsep
  · exact List.prefix_of_prefix_length_le h (List.prefix_append u _) hle

/-- Such an occurrence is before the separator or after it. -/
theorem infix_append_cons_iff {sub a b : List α} {sep : α} (hsep : sep ∉ sub) (hne : sub ≠ []) :
    sub <:+: a ++ sep :: b ↔ sub <:+: a ∨ sub <:+: b := by
  constructor
  · intro h
    induction a with
    | nil =>
      rcases List.infix_cons_iff.1 h with h | h
      · have hnil : sub <+: [] := prefix_of_prefix_append_cons (u := []) hsep h
        exact absurd (List.prefix_nil.1 hnil) hne
      · exact .inr h
    | cons x a ih =>
      rcases List.infix_cons_iff.1 h with h | h
      · exact .inl (prefix_of_prefix_append_cons (u := x :: a) hsep h).isInfix
      · exact (ih h).imp_left fun h => h.trans (List.suffix_cons x a).isInfix
  · rintro (h | h)
    · exact h.trans (List.prefix_append a _).isInfix
    · exact h.trans ((List.suffix_cons sep b).trans (List.suffix_append a _)).isInfix

end ManyAiCli.Text
