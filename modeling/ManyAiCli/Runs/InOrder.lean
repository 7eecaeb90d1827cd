import Mathlib.Data.List.Pairwise
import Mathlib.Data.List.Infix

/-! A receiver of messages that come in order. What it has heard is a beginning of what
it is to hear, and stays so exactly when nothing is skipped. -/

namespace ManyAiCli.Runs

variable {α : Type*} {R : α → α → Prop} {heard all : List α} {x : α}

/-- The next message keeps the order if it is expected and all before it have been heard. -/
theorem append_singleton_prefix_iff (hasymm : ∀ x y, R x y → ¬ R y x) (hall : all.Pairwise R)
    (hheard : heard <+: all) (hx : x ∉ heard) :
    heard ++ [x] <+: all ↔ x ∈ all ∧ ∀ y ∈ all, R y x → y ∈ heard := by
  constructor
  · rintro ⟨rest, rfl⟩
    refine ⟨by simp, fun y hy hyx => ?_⟩
    rw [List.append_assoc, List.singleton_append, List.mem_append, List.mem_cons] at hy
    rcases hy with hy | rfl | hy
    · exact hy
    · exact absurd hyx (hasymm y y hyx)
    · rw [List.append_assoc, List.singleton_append, List.pairwise_append, List.pairwise_cons] at hall
      exact absurd (hall.2.1.1 y hy) (hasymm y x hyx)
  · rintro ⟨hmem, hbefore⟩
    obtain ⟨rest, rfl⟩ := hheard
    have hin : x ∈ rest := (List.mem_append.mp hmem).resolve_left hx
    rw [List.pairwise_append] at hall
    cases rest with
    | nil => exact absurd hin List.not_mem_nil
    | cons y rest =>
      rcases List.mem_cons.mp hin with rfl | hin
      · exact ⟨rest, by simp⟩
      · -- else the first one that has not been heard comes before
        have hyx := (List.pairwise_cons.mp hall.2.1).1 x hin
        have hy := hbefore y (by simp) hyx
        have hyy := hall.2.2 y hy y List.mem_cons_self
        exact absurd hyy (hasymm y y hyy)

/-- When everything has been heard, it has been heard in order. -/
theorem eq_of_prefix_of_subset (hasymm : ∀ x y, R x y → ¬ R y x) (hall : all.Pairwise R)
    (hheard : heard <+: all) (hsub : all ⊆ heard) : heard = all := by
  obtain ⟨rest, rfl⟩ := hheard
  cases rest with
  | nil => rw [List.append_nil]
  | cons y rest =>
    have hy : y ∈ heard := hsub (by simp)
    have hyy := (List.pairwise_append.mp hall).2.2 y hy y List.mem_cons_self
    exact absurd hyy (hasymm y y hyy)

end ManyAiCli.Runs
