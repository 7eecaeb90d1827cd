import Mathlib.Data.List.Basic
import Mathlib.Tactic.Common

/-! A list of jobs of which one goes on: its entry is replaced, the others stay. -/

namespace ManyAiCli.Runs

variable {α β : Type*} {f : α → List β} {xs : List α} {i j : ℕ} {x w : α}

/-- When the other entries contribute nothing, entry `j` is all there is. -/
theorem flatMap_set_of_others (hj : xs[j]? = some x)
    (hothers : ∀ (i : ℕ) (y : α), xs[i]? = some y → i ≠ j → f y = []) :
    xs.flatMap f = f x ∧ (xs.set j w).flatMap f = f w := by
  induction xs generalizing j with
  | nil => simp at hj
  | cons y ys ih =>
    have hnil (h : ∀ (i : ℕ) (z : α), ys[i]? = some z → f z = []) : ys.flatMap f = [] := by
      rw [List.flatMap_eq_nil_iff]
      intro z hz
      obtain ⟨i, hi⟩ := List.mem_iff_getElem?.1 hz
      exact h i z hi
    rcases j with _ | j
    · obtain rfl : y = x := by simpa using hj
      have := hnil fun i z hi => hothers (i + 1) z (by simpa using hi) (by omega)
      simp [this]
    · have hy := hothers 0 y rfl (by omega)
      obtain ⟨h1, h2⟩ := ih (by simpa using hj) fun i z hi hne =>
        hothers (i + 1) z (by simpa using hi) (by omega)
      simp [hy, h1, h2]

theorem flatMap_set_of_eq (hj : xs[j]? = some x) (h : f w = f x) :
    (xs.set j w).flatMap f = xs.flatMap f := by
  induction xs generalizing j with
  | nil => simp at hj
  | cons y ys ih =>
    rcases j with _ | j
    · obtain rfl : y = x := by simpa using hj
      simp [h]
    · have := ih (j := j) (by simpa using hj)
      simp [this]

theorem getElem?_set_cases (h : (xs.set j w)[i]? = some x) :
    (i = j ∧ x = w) ∨ (i ≠ j ∧ xs[i]? = some x) := by
  by_cases hij : i = j
  · subst hij
    rw [List.getElem?_set_self'] at h
    cases hx : xs[i]? <;> simp_all
  · rw [List.getElem?_set_ne (Ne.symm hij)] at h
    exact .inr ⟨hij, h⟩

/-- How the count of some entries changes with one entry. -/
theorem countP_set_add (hj : xs[j]? = some x) (p : α → Bool) :
    (xs.set j w).countP p + (p x).toNat = xs.countP p + (p w).toNat := by
  induction xs generalizing j with
  | nil => exact absurd hj.symm (Option.some_ne_none _)
  | cons y ys ih =>
    rcases j with _ | j
    · obtain rfl : y = x := Option.some.inj hj
      rw [List.set_cons_zero, List.countP_cons, List.countP_cons]
      cases p y <;> cases p w <;> rfl
    · have := ih (j := j) hj
      rw [List.set_cons_succ, List.countP_cons, List.countP_cons]
      omega

end ManyAiCli.Runs
