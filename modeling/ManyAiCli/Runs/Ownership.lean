import Mathlib.Tactic.Common

/-! A section that is entered by setting a mark and left by taking it away. While
everyone inside owns the mark, no two are inside. -/

namespace ManyAiCli.Runs

variable {ι : Type*} {owner owner' : Option ι} {inside inside' : ι → Prop}

/-- Whoever is inside owns the mark. -/
def Owned (owner : Option ι) (inside : ι → Prop) : Prop := ∀ i, inside i → owner = some i

theorem Owned.eq (h : Owned owner inside) {i j : ι} (hi : inside i) (hj : inside j) : i = j :=
  Option.some_inj.mp ((h i hi).symm.trans (h j hj))

/-- Nobody is inside without the mark, or with the mark of one who is outside. -/
theorem Owned.not_inside (h : Owned owner inside) (howner : ∀ i, owner = some i → ¬ inside i) (i : ι) :
    ¬ inside i := fun hi => howner i (h i hi) hi

theorem Owned.of_not_inside (h : ∀ i, ¬ inside i) : Owned owner inside := fun i hi => absurd hi (h i)

/-- Some leave without taking the mark away. -/
theorem Owned.mono (h : Owned owner inside) (hsub : ∀ i, inside' i → inside i) : Owned owner inside' :=
  fun i hi => h i (hsub i hi)

/-- The mark is set where there is none. -/
theorem Owned.enter {i : ι} (h : Owned none inside) (hsub : ∀ j, inside' j → j = i ∨ inside j) :
    Owned (some i) inside' := by
  intro j hj
  rcases hsub j hj with rfl | hin
  · rfl
  · exact absurd (h j hin) nofun

/-- The owner takes the mark away. -/
theorem Owned.leave {i : ι} (h : Owned owner inside) (hi : inside i)
    (hsub : ∀ j, inside' j → j ≠ i ∧ inside j) : Owned owner' inside' :=
  .of_not_inside fun j hj => (hsub j hj).1 (h.eq (hsub j hj).2 hi)

end ManyAiCli.Runs
