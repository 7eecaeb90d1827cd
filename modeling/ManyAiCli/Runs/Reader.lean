import Mathlib.Data.List.Basic
import Mathlib.Tactic.Common

/-! Readers of a stream that comes in pieces. A turn takes something from the front of what has
come, or waits for more. If no turn depends on what comes after, the pieces make no difference:
what is left over is read together with the next piece. -/

namespace ManyAiCli.Runs

/-- With the state and what is left after a turn, and what it has put out. -/
structure Reader (σ α β : Type*) where
  turn : σ → List α → Option (σ × List β × List α)
  shrinks : ∀ {s xs s' out rest}, turn s xs = some (s', out, rest) → rest.length < xs.length
  stable : ∀ {s xs s' out rest}, turn s xs = some (s', out, rest) →
    ∀ ys, turn s (xs ++ ys) = some (s', out, rest ++ ys)

namespace Reader

variable {σ α β : Type*} (r : Reader σ α β)

/-- Up to so many turns. -/
def turns : ℕ → σ → List α → σ × List β × List α
  | 0, s, xs => (s, [], xs)
  | n + 1, s, xs =>
    match r.turn s xs with
    | none => (s, [], xs)
    | some (s', out, rest) =>
      let (s'', out', rest') := turns n s' rest
      (s'', out ++ out', rest')

/-- All turns that what has come allows. -/
def run (s : σ) (xs : List α) : σ × List β × List α := r.turns xs.length s xs

variable {r} {s s' : σ} {xs ys rest : List α} {out : List β} {n m : ℕ}

theorem turn_nil : r.turn s [] = none := by
  cases h : r.turn s [] with
  | none => rfl
  | some next => exact absurd (r.shrinks h) (Nat.not_lt_zero _)

theorem turns_of_none (h : r.turn s xs = none) : r.turns n s xs = (s, [], xs) := by
  cases n with
  | zero => rfl
  | succ n => rw [turns, h]

theorem turns_enough (hn : xs.length ≤ n) (hm : xs.length ≤ m) : r.turns n s xs = r.turns m s xs := by
  induction n generalizing m s xs with
  | zero =>
    obtain rfl := List.eq_nil_of_length_eq_zero (Nat.le_zero.1 hn)
    rw [turns_of_none turn_nil, turns_of_none turn_nil]
  | succ n ih =>
    cases h : r.turn s xs with
    | none => rw [turns_of_none h, turns_of_none h]
    | some next =>
      obtain ⟨s', out, rest⟩ := next
      have hlt := r.shrinks h
      obtain ⟨m, rfl⟩ : ∃ k, m = k + 1 := ⟨m - 1, by omega⟩
      rw [turns, turns, h]
      dsimp only
      rw [ih (m := m) (by omega) (by omega)]

theorem run_of_none (h : r.turn s xs = none) : r.run s xs = (s, [], xs) := turns_of_none h

theorem run_of_some (h : r.turn s xs = some (s', out, rest)) :
    r.run s xs = ((r.run s' rest).1, out ++ (r.run s' rest).2.1, (r.run s' rest).2.2) := by
  have hlt := r.shrinks h
  obtain ⟨n, hn⟩ : ∃ k, xs.length = k + 1 := ⟨xs.length - 1, by omega⟩
  rw [run, hn, turns, h]
  dsimp only
  rw [turns_enough (m := rest.length) (by omega) (Nat.le_refl _)]
  rfl

/-- A stream in two pieces is read as in one. -/
theorem run_append (s : σ) (xs ys : List α) :
    r.run s (xs ++ ys) =
      ((r.run (r.run s xs).1 ((r.run s xs).2.2 ++ ys)).1,
        (r.run s xs).2.1 ++ (r.run (r.run s xs).1 ((r.run s xs).2.2 ++ ys)).2.1,
        (r.run (r.run s xs).1 ((r.run s xs).2.2 ++ ys)).2.2) := by
  induction hn : xs.length using Nat.strongRecOn generalizing s xs with
  | ind n ih =>
    cases h : r.turn s xs with
    | none =>
      rw [run_of_none h, List.nil_append]
    | some next =>
      obtain ⟨s', out, rest⟩ := next
      have hlt := r.shrinks h
      have hrest := ih rest.length (by omega) s' rest rfl
      rw [run_of_some (r.stable h ys), run_of_some h, hrest]
      simp only [List.append_assoc]

/-- A turn that was taken. -/
structure Turn (σ α β : Type*) where
  before : σ
  input : List α
  after : σ
  out : List β

/-- The turns of a run, up to so many. -/
def turnsTaken (r : Reader σ α β) : ℕ → σ → List α → List (Turn σ α β)
  | 0, _, _ => []
  | n + 1, s, xs =>
    match r.turn s xs with
    | none => []
    | some (s', out, rest) => ⟨s, xs, s', out⟩ :: turnsTaken r n s' rest

def trace (r : Reader σ α β) (s : σ) (xs : List α) : List (Turn σ α β) := r.turnsTaken xs.length s xs

theorem turnsTaken_enough (hn : xs.length ≤ n) (hm : xs.length ≤ m) :
    r.turnsTaken n s xs = r.turnsTaken m s xs := by
  induction n generalizing m s xs with
  | zero =>
    obtain rfl := List.eq_nil_of_length_eq_zero (Nat.le_zero.1 hn)
    cases m with
    | zero => rfl
    | succ m => rw [turnsTaken, turnsTaken, turn_nil]
  | succ n ih =>
    cases h : r.turn s xs with
    | none => cases m <;> simp [turnsTaken, h]
    | some next =>
      obtain ⟨s', out, rest⟩ := next
      have hlt := r.shrinks h
      obtain ⟨m, rfl⟩ : ∃ k, m = k + 1 := ⟨m - 1, by omega⟩
      rw [turnsTaken, turnsTaken, h]
      dsimp only
      rw [ih (m := m) (by omega) (by omega)]

theorem trace_of_none (h : r.turn s xs = none) : r.trace s xs = [] := by
  cases xs with
  | nil => rfl
  | cons x xs => rw [trace, List.length_cons, turnsTaken, h]

theorem trace_of_some (h : r.turn s xs = some (s', out, rest)) :
    r.trace s xs = ⟨s, xs, s', out⟩ :: r.trace s' rest := by
  have hlt := r.shrinks h
  obtain ⟨n, hn⟩ : ∃ k, xs.length = k + 1 := ⟨xs.length - 1, by omega⟩
  rw [trace, hn, turnsTaken, h]
  dsimp only
  rw [turnsTaken_enough (m := rest.length) (by omega) (Nat.le_refl _)]
  rfl

/-- A run puts out what its turns put out. -/
theorem run_out (s : σ) (xs : List α) : (r.run s xs).2.1 = (r.trace s xs).flatMap Turn.out := by
  induction hn : xs.length using Nat.strongRecOn generalizing s xs with
  | ind n ih =>
    cases h : r.turn s xs with
    | none =>
      rw [run_of_none h, trace_of_none h]
      rfl
    | some next =>
      obtain ⟨s', out, rest⟩ := next
      have hlt := r.shrinks h
      rw [run_of_some h, trace_of_some h, List.flatMap_cons, ih rest.length (by omega) s' rest rfl]

end Reader

end ManyAiCli.Runs
