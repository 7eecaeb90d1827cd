import Mathlib.Data.List.Basic
import Mathlib.Tactic.Common

/-! Loops over what has come of a stream, whose turns look ahead. A turn takes something from the
front or changes the state, and may depend on all that is there. Cut in two, the stream is scanned
as in one if every turn on the first piece is the same with the second piece in sight. -/

namespace ManyAiCli.Runs

/-- With the state and what is left after a turn, and what it has put out. -/
structure Scanner (σ α β : Type*) where
  turn : σ → List α → Option (σ × List β × List α)
  size : σ → List α → ℕ
  shrinks : ∀ {s xs s' out rest}, turn s xs = some (s', out, rest) → size s' rest < size s xs

namespace Scanner

variable {σ α β : Type*} (r : Scanner σ α β)

/-- Up to so many turns. -/
def turns : ℕ → σ → List α → σ × List β × List α
  | 0, s, xs => (s, [], xs)
  | n + 1, s, xs =>
    match r.turn s xs with
    | none => (s, [], xs)
    | some (s', out, rest) =>
      let (s'', out', rest') := turns n s' rest
      (s'', out ++ out', rest')

/-- All turns. -/
def run (s : σ) (xs : List α) : σ × List β × List α := r.turns (r.size s xs) s xs

/-- The places of the first turns, and of the end. -/
def stops : ℕ → σ → List α → List (σ × List α)
  | 0, s, xs => [(s, xs)]
  | n + 1, s, xs =>
    (s, xs) ::
      match r.turn s xs with
      | none => []
      | some (s', _, rest) => stops n s' rest

/-- Where the scanner is between its turns. -/
def positions (s : σ) (xs : List α) : List (σ × List α) := r.stops (r.size s xs) s xs

variable {r} {s s' : σ} {xs ys rest : List α} {out : List β} {n m : ℕ}

theorem turns_of_none (h : r.turn s xs = none) : r.turns n s xs = (s, [], xs) := by
  cases n with
  | zero => rfl
  | succ n => rw [turns, h]

theorem turns_enough (hn : r.size s xs ≤ n) (hm : r.size s xs ≤ m) :
    r.turns n s xs = r.turns m s xs := by
  induction n generalizing m s xs with
  | zero =>
    cases h : r.turn s xs with
    | none => rw [turns_of_none h, turns_of_none h]
    | some next =>
      have hlt := r.shrinks h
      omega
  | succ n ih =>
    cases h : r.turn s xs with
    | none => rw [turns_of_none h, turns_of_none h]
    | some next =>
      obtain ⟨s', out, rest⟩ := next
      have hlt := r.shrinks h
      obtain ⟨m, rfl⟩ : ∃ k, m = k + 1 := ⟨m - 1, by omega⟩
      rw [turns, turns, h]
      dsimp only
      rw [ih (m := m) (by omega) (by omega)]

theorem run_of_none (h : r.turn s xs = none) : r.run s xs = (s, [], xs) := turns_of_none h

theorem run_of_some (h : r.turn s xs = some (s', out, rest)) :
    r.run s xs = ((r.run s' rest).1, out ++ (r.run s' rest).2.1, (r.run s' rest).2.2) := by
  have hlt := r.shrinks h
  obtain ⟨n, hn⟩ : ∃ k, r.size s xs = k + 1 := ⟨r.size s xs - 1, by omega⟩
  rw [run, hn, turns, h]
  dsimp only
  rw [turns_enough (m := r.size s' rest) (by omega) (Nat.le_refl _)]
  rfl

theorem mem_stops_of_le {p : σ × List α} (hnm : n ≤ m) (hp : p ∈ r.stops n s xs) :
    p ∈ r.stops m s xs := by
  induction n generalizing m s xs with
  | zero =>
    obtain rfl := List.mem_singleton.mp hp
    cases m with
    | zero => exact hp
    | succ m => exact List.mem_cons_self
  | succ n ih =>
    obtain ⟨m, rfl⟩ : ∃ k, m = k + 1 := ⟨m - 1, by omega⟩
    rw [stops] at hp ⊢
    rcases List.mem_cons.mp hp with rfl | hp
    · exact List.mem_cons_self
    · apply List.mem_cons_of_mem
      cases h : r.turn s xs with
      | none =>
        rw [h] at hp
        exact hp
      | some next =>
        rw [h] at hp
        exact ih (by omega) hp

theorem self_mem_positions : (s, xs) ∈ r.positions s xs :=
  mem_stops_of_le (Nat.zero_le _) (List.mem_singleton_self (s, xs))

theorem mem_positions_of_some (h : r.turn s xs = some (s', out, rest)) {p : σ × List α}
    (hp : p ∈ r.positions s' rest) : p ∈ r.positions s xs := by
  have hlt := r.shrinks h
  obtain ⟨n, hn⟩ : ∃ k, r.size s xs = k + 1 := ⟨r.size s xs - 1, by omega⟩
  rw [positions, hn, stops, h]
  exact List.mem_cons_of_mem _ (mem_stops_of_le (by omega) hp)

/-- The turn at a place is the same whether or not `ys` follows. -/
def SettledAt (r : Scanner σ α β) (ys : List α) (p : σ × List α) : Prop :=
  ∀ s' out rest, r.turn p.1 p.2 = some (s', out, rest) →
    r.turn p.1 (p.2 ++ ys) = some (s', out, rest ++ ys)

/-- A stream cut where every turn before is settled is scanned as in one. -/
theorem run_append (h : ∀ p ∈ r.positions s xs, r.SettledAt ys p) :
    r.run s (xs ++ ys) =
      ((r.run (r.run s xs).1 ((r.run s xs).2.2 ++ ys)).1,
        (r.run s xs).2.1 ++ (r.run (r.run s xs).1 ((r.run s xs).2.2 ++ ys)).2.1,
        (r.run (r.run s xs).1 ((r.run s xs).2.2 ++ ys)).2.2) := by
  induction hn : r.size s xs using Nat.strongRecOn generalizing s xs with
  | ind n ih =>
    cases ht : r.turn s xs with
    | none => rw [run_of_none ht, List.nil_append]
    | some next =>
      obtain ⟨s', out, rest⟩ := next
      have hlt := r.shrinks ht
      have hrest := ih (r.size s' rest) (by omega) (fun p hp => h p (mem_positions_of_some ht hp)) rfl
      have hsettled := h (s, xs) self_mem_positions s' out rest ht
      rw [run_of_some hsettled, run_of_some ht, hrest]
      simp only [List.append_assoc]

/-- What every turn keeps, all turns keep. -/
theorem run_invariant {P : σ → Prop}
    (hstep : ∀ {s xs s' out rest}, P s → r.turn s xs = some (s', out, rest) → P s') (hs : P s) :
    P (r.run s xs).1 := by
  induction hn : r.size s xs using Nat.strongRecOn generalizing s xs with
  | ind n ih =>
    cases ht : r.turn s xs with
    | none =>
      rw [run_of_none ht]
      exact hs
    | some next =>
      obtain ⟨s', out, rest⟩ := next
      have hlt := r.shrinks ht
      rw [run_of_some ht]
      exact ih (r.size s' rest) (by omega) (hstep hs ht) rfl

/-- What every turn keeps of all that is put out, the state and what is left, all turns keep. -/
theorem run_relates {P : List β → σ → List α → Prop}
    (hstep : ∀ {es s xs s' out rest}, P es s xs → r.turn s xs = some (s', out, rest) → P (es ++ out) s' rest)
    {es : List β} (hs : P es s xs) : P (es ++ (r.run s xs).2.1) (r.run s xs).1 (r.run s xs).2.2 := by
  induction hn : r.size s xs using Nat.strongRecOn generalizing es s xs with
  | ind n ih =>
    cases ht : r.turn s xs with
    | none =>
      rw [run_of_none ht, List.append_nil]
      exact hs
    | some next =>
      obtain ⟨s', out, rest⟩ := next
      have hlt := r.shrinks ht
      have hrest := ih (r.size s' rest) (by omega) (hstep hs ht) rfl
      rw [run_of_some ht, ← List.append_assoc]
      exact hrest

end Scanner

end ManyAiCli.Runs
