import Mathlib.Logic.Function.Basic
import Mathlib.Tactic.Common

/-! A table in which an entry is only made where there is none. What has come to it is held by the
one that made it, until that one takes it away; what was in it from the start stays. -/

namespace ManyAiCli.Runs

variable {ι κ ν : Type*} {table₀ table : κ → Option ν} {held : ι → Option κ}

structure Exclusive (table₀ table : κ → Option ν) (held : ι → Option κ) : Prop where
  kept : ∀ k, table₀ k ≠ none → table k = table₀ k
  owned : ∀ k, table₀ k = none → table k ≠ none → ∃ i, held i = some k
  present : ∀ i k, held i = some k → table₀ k = none ∧ table k ≠ none
  distinct : ∀ i j k, held i = some k → held j = some k → i = j

namespace Exclusive

theorem initial (table₀ : κ → Option ν) : Exclusive table₀ table₀ fun _ : ι => none where
  kept _ _ := rfl
  owned _ hNone hSome := absurd hNone hSome
  present _ _ h := absurd h.symm (Option.some_ne_none _)
  distinct _ _ _ h _ := absurd h.symm (Option.some_ne_none _)

variable {i : ι} {k : κ}

/-- What is held by nobody and was not there is not there. -/
theorem eq_none (h : Exclusive table₀ table held) (h₀ : table₀ k = none) (hNobody : ∀ i, held i ≠ some k) :
    table k = none := by
  by_contra hSome
  obtain ⟨i, hi⟩ := h.owned k h₀ hSome
  exact hNobody i hi

variable [DecidableEq κ]

/-- The holder writes to its entry. -/
theorem write (h : Exclusive table₀ table held) (hi : held i = some k) (v : ν) :
    Exclusive table₀ (Function.update table k (some v)) held where
  kept k' h₀ := by
    have hne : k' ≠ k := by
      rintro rfl
      exact h₀ (h.present i k' hi).1
    rw [Function.update_of_ne hne]
    exact h.kept k' h₀
  owned k' h₀ hSome := by
    by_cases hk : k' = k
    · exact ⟨i, hk ▸ hi⟩
    · rw [Function.update_of_ne hk] at hSome
      exact h.owned k' h₀ hSome
  present j k' hj := by
    refine ⟨(h.present j k' hj).1, ?_⟩
    by_cases hk : k' = k
    · rw [hk, Function.update_self]
      exact Option.some_ne_none v
    · rw [Function.update_of_ne hk]
      exact (h.present j k' hj).2
  distinct := h.distinct

variable [DecidableEq ι]

/-- One that holds nothing makes an entry where there is none. -/
theorem create (h : Exclusive table₀ table held) (hk : table k = none) (hi : held i = none) (v : ν) :
    Exclusive table₀ (Function.update table k (some v)) (Function.update held i (some k)) where
  kept k' h₀ := by
    have hne : k' ≠ k := by
      rintro rfl
      exact h₀ ((h.kept k' h₀).symm.trans hk)
    rw [Function.update_of_ne hne]
    exact h.kept k' h₀
  owned k' h₀ hSome := by
    by_cases hEq : k' = k
    · exact ⟨i, by rw [hEq, Function.update_self]⟩
    · rw [Function.update_of_ne hEq] at hSome
      obtain ⟨j, hj⟩ := h.owned k' h₀ hSome
      have hne : j ≠ i := by
        rintro rfl
        exact Option.some_ne_none k' (hj.symm.trans hi)
      exact ⟨j, by rw [Function.update_of_ne hne, hj]⟩
  present j k' hj := by
    by_cases hji : j = i
    · rw [hji, Function.update_self] at hj
      obtain rfl := Option.some_inj.1 hj
      refine ⟨?_, by rw [Function.update_self]; exact Option.some_ne_none v⟩
      by_contra h₀
      exact h₀ ((h.kept k h₀).symm.trans hk)
    · rw [Function.update_of_ne hji] at hj
      have hOld := h.present j k' hj
      have hne : k' ≠ k := by
        rintro rfl
        exact hOld.2 hk
      rw [Function.update_of_ne hne]
      exact hOld
  distinct j j' k' hj hj' := by
    have hOther (x : ι) (hx : x ≠ i) (hHeld : Function.update held i (some k) x = some k') : k' ≠ k := by
      rintro rfl
      rw [Function.update_of_ne hx] at hHeld
      exact (h.present x k' hHeld).2 hk
    have hOwn (hHeld : Function.update held i (some k) i = some k') : k' = k := by
      rw [Function.update_self] at hHeld
      exact (Option.some_inj.1 hHeld).symm
    by_cases hji : j = i
    · by_cases hji' : j' = i
      · rw [hji, hji']
      · exact absurd (hOwn (hji ▸ hj)) (hOther j' hji' hj')
    · by_cases hji' : j' = i
      · exact absurd (hOwn (hji' ▸ hj')) (hOther j hji hj)
      · rw [Function.update_of_ne hji] at hj
        rw [Function.update_of_ne hji'] at hj'
        exact h.distinct j j' k' hj hj'

/-- The holder takes its entry away. -/
theorem remove (h : Exclusive table₀ table held) (hi : held i = some k) :
    Exclusive table₀ (Function.update table k none) (Function.update held i none) := by
  have hOther (j : ι) (k' : κ) (hj : Function.update held i none j = some k') : held j = some k' ∧ k' ≠ k := by
    by_cases hji : j = i
    · rw [hji, Function.update_self] at hj
      exact absurd hj.symm (Option.some_ne_none k')
    · rw [Function.update_of_ne hji] at hj
      refine ⟨hj, ?_⟩
      rintro rfl
      exact hji (h.distinct j i k' hj hi)
  constructor
  · intro k' h₀
    have hne : k' ≠ k := by
      rintro rfl
      exact h₀ (h.present i k' hi).1
    rw [Function.update_of_ne hne]
    exact h.kept k' h₀
  · intro k' h₀ hSome
    have hne : k' ≠ k := by
      rintro rfl
      rw [Function.update_self] at hSome
      exact hSome rfl
    rw [Function.update_of_ne hne] at hSome
    obtain ⟨j, hj⟩ := h.owned k' h₀ hSome
    have hji : j ≠ i := by
      rintro rfl
      exact hne (Option.some_inj.1 (hj.symm.trans hi))
    exact ⟨j, by rw [Function.update_of_ne hji, hj]⟩
  · intro j k' hj
    obtain ⟨hj, hne⟩ := hOther j k' hj
    rw [Function.update_of_ne hne]
    exact h.present j k' hj
  · exact fun j j' k' hj hj' => h.distinct j j' k' (hOther j k' hj).1 (hOther j' k' hj').1

end Exclusive

end ManyAiCli.Runs
