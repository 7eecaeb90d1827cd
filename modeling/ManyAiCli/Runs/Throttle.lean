import Mathlib.Data.List.Infix
import Mathlib.Tactic.Common

/-! Counters that lock. Attempts are counted, and when the count reaches `n` it starts
again from zero and no attempt is let through for a time of at least `d`. The count may
also be given up when the attempts are long past. Then any `n + 1` attempts in a row take
a time of at least `d`. -/

namespace ManyAiCli.Runs

/-- Any `n + 1` of these times in a row span at least `d`. -/
def Spans (n d : ℕ) (ts : List ℕ) : Prop :=
  ∀ i t t', ts[i]? = some t → ts[i + n]? = some t' → t + d ≤ t'

/-- The count `fails`, the end of the last lock and the time now, for attempts at the
times `ts`. Those that are not counted any more are at least `d` before the counted
ones and before the next one. -/
structure Throttle (n d fails lockedUntil clock : ℕ) (ts : List ℕ) : Prop where
  counted : ∃ old recent, ts = old ++ recent ∧ recent.length ≤ fails ∧
    (∀ t ∈ old, ∀ r ∈ recent, t + d ≤ r) ∧ ∀ t ∈ old, t + d ≤ max lockedUntil clock
  seen : ∀ t ∈ ts, t ≤ clock
  lt : fails < n
  spans : Spans n d ts

namespace Throttle

variable {n d fails lockedUntil clock now : ℕ} {ts : List ℕ}

theorem nil (h : fails < n) : Throttle n d fails lockedUntil clock [] :=
  ⟨⟨[], [], rfl, Nat.zero_le _, by simp, by simp⟩, by simp, h, fun i t _ hi => by simp at hi⟩

theorem later (h : Throttle n d fails lockedUntil clock ts) (hc : clock ≤ now) :
    Throttle n d fails lockedUntil now ts := by
  obtain ⟨old, recent, hts, hlen, hrec, hold⟩ := h.counted
  refine ⟨⟨old, recent, hts, hlen, hrec, fun t ht => (hold t ht).trans ?_⟩,
    fun t ht => (h.seen t ht).trans hc, h.lt, h.spans⟩
  exact max_le (le_max_left _ _) (hc.trans (le_max_right _ _))

/-- What is long past need not be counted. -/
theorem reset (h : Throttle n d fails lockedUntil clock ts) (hpast : ∀ t ∈ ts, t + d ≤ clock)
    (lockedUntil' : ℕ) : Throttle n d 0 lockedUntil' clock ts :=
  ⟨⟨ts, [], by simp, Nat.le_refl _, by simp, fun t ht => (hpast t ht).trans (le_max_right _ _)⟩, h.seen,
    Nat.zero_lt_of_lt h.lt, h.spans⟩

/-- The attempt that is let through now comes late enough. -/
theorem spans_attempt (h : Throttle n d fails lockedUntil clock ts) (hu : lockedUntil ≤ now)
    (hc : clock ≤ now) : Spans n d (ts ++ [now]) := by
  obtain ⟨old, recent, rfl, hlen, -, hold⟩ := h.counted
  have hlt := h.lt
  intro i t t' hi hi'
  rcases Nat.lt_or_ge (i + n) (old ++ recent).length with hin | hin
  · rw [List.getElem?_append_left hin] at hi'
    rw [List.getElem?_append_left (by omega)] at hi
    exact h.spans i t t' hi hi'
  · have hend : i + n = (old ++ recent).length := by
      have := (List.getElem?_eq_some_iff.1 hi').1
      rw [List.length_append, List.length_singleton] at this
      omega
    obtain rfl : now = t' := by simpa [hend] using hi'
    rw [List.length_append] at hend
    rw [List.append_assoc, List.getElem?_append_left (by omega)] at hi
    have := hold t (List.mem_of_getElem? hi)
    exact this.trans (max_le hu hc)

theorem seen_attempt (h : Throttle n d fails lockedUntil clock ts) (hc : clock ≤ now) :
    ∀ t ∈ ts ++ [now], t ≤ now := by
  intro t ht
  rcases List.mem_append.1 ht with ht | ht
  · exact (h.seen t ht).trans hc
  · exact Nat.le_of_eq (List.mem_singleton.1 ht)

theorem attempt (h : Throttle n d fails lockedUntil clock ts) (hu : lockedUntil ≤ now) (hc : clock ≤ now)
    (hlt : fails + 1 < n) : Throttle n d (fails + 1) lockedUntil now (ts ++ [now]) := by
  refine ⟨?_, h.seen_attempt hc, hlt, h.spans_attempt hu hc⟩
  obtain ⟨old, recent, rfl, hlen, hrec, hold⟩ := h.counted
  have hnow : ∀ t ∈ old, t + d ≤ now := fun t ht => (hold t ht).trans (max_le hu hc)
  refine ⟨old, recent ++ [now], List.append_assoc _ _ _, by simpa using hlen, fun t ht r hr => ?_,
    fun t ht => (hnow t ht).trans (le_max_right _ _)⟩
  rcases List.mem_append.1 hr with hr | hr
  · exact hrec t ht r hr
  · rw [List.mem_singleton.1 hr]
    exact hnow t ht

theorem lock {lockedUntil' : ℕ} (h : Throttle n d fails lockedUntil clock ts) (hu : lockedUntil ≤ now)
    (hc : clock ≤ now) (hlock : now + d ≤ lockedUntil') : Throttle n d 0 lockedUntil' now (ts ++ [now]) := by
  refine ⟨⟨ts ++ [now], [], by simp, Nat.le_refl _, by simp, fun t ht => ?_⟩, h.seen_attempt hc,
    Nat.zero_lt_of_lt h.lt, h.spans_attempt hu hc⟩
  have := h.seen_attempt hc t ht
  exact (by omega : t + d ≤ lockedUntil').trans (le_max_left _ _)

end Throttle

end ManyAiCli.Runs
