import ManyAiCli.Runs.Jobs
import ManyAiCli.Runs.Machine
import Mathlib.Data.Int.Basic

/-! The cache of what is fetched from the net. A fetch runs without the lock, one at a
time, and the other callers wait for it. An `invalidate` forgets the cached value and
leaves a fetch in flight alone. -/

namespace ManyAiCli.Hub.CachedFetch

open Runs

variable {T : Type*}

/-- What a user of the cache fixes. -/
structure Settings (T : Type*) where
  ttl : ℤ
  negativeTTL : ℤ
  fallback : T
  transform : T → T

structure TTLCache (T : Type*) where
  data : Option T
  fetchedAt : ℕ
  failedAt : Option ℕ
  fetchInflight : Bool

inductive Look (T : Type*)
  | answer (value : T)
  | wait
  | fetch

namespace TTLCache

variable (c : TTLCache T) (set : Settings T)

def value : T := c.data.getD set.fallback

/-- One turn of the loop of `get`, with the lock held. -/
def look (now : ℕ) : Look T :=
  if c.data.isSome ∧ (now : ℤ) - c.fetchedAt < set.ttl then .answer (c.value set)
  else if c.failedAt.any fun failedAt => (now : ℤ) - failedAt < set.negativeTTL then .answer (c.value set)
  else if c.fetchInflight then .wait
  else .fetch

/-- The end of a fetch: the cache after it and what `get` returns. -/
def store (result : Option T) (now : ℕ) : TTLCache T × T :=
  match result with
  | none => ({ c with fetchInflight := false, failedAt := some now }, c.value set)
  | some fetched =>
    let fetched := set.transform fetched
    (⟨some fetched, now, none, false⟩, fetched)

def invalidate : TTLCache T := { c with data := none, fetchedAt := 0, failedAt := none }

end TTLCache

/-! ### Calls that run at the same time -/

/-- A call of `get`; `started` counts the invalidations before its start and `began` those
before the start of its fetch. -/
inductive Caller
  | entered (started : ℕ)
  | waiting (started : ℕ)
  | fetching (started began : ℕ)
  | returned
  deriving DecidableEq, Repr

/-- `Broadcast` wakes those who wait. -/
def Caller.wake : Caller → Caller
  | .waiting started => .entered started
  | caller => caller

def Caller.isFetching : Caller → Bool
  | .fetching .. => true
  | _ => false

structure State (T : Type*) where
  cache : TTLCache T
  /-- The invalidations before the start of the fetch that the cached value is from. -/
  source : ℕ
  invalidations : ℕ
  callers : List Caller
  clock : ℕ

def State.init : State T := ⟨⟨none, 0, none, false⟩, 0, 0, [], 0⟩

inductive Action (T : Type*)
  | start
  | look (caller now : ℕ)
  /-- The fetch of a caller ends, with an error or a value. -/
  | fetched (caller : ℕ) (result : Option T) (now : ℕ)
  | invalidate

/-- A `get` returns; without `began` the value is the fallback. -/
structure Event (T : Type*) where
  value : T
  started : ℕ
  began : Option ℕ

namespace State

variable (set : Settings T) (s : State T)

/-- Where the cached value is from. -/
def cachedFrom : Option ℕ := if s.cache.data.isSome then some s.source else none

def step : Action T → Option (State T × List (Event T))
  | .start => some ({ s with callers := s.callers ++ [.entered s.invalidations] }, [])
  | .look i now =>
    if now < s.clock then none
    else match s.callers[i]? with
      | some (.entered started) =>
        match s.cache.look set now with
        | .answer v =>
          some ({ s with callers := s.callers.set i .returned, clock := now }, [⟨v, started, s.cachedFrom⟩])
        | .wait => some ({ s with callers := s.callers.set i (.waiting started), clock := now }, [])
        | .fetch =>
          some ({ s with
            cache := { s.cache with fetchInflight := true }
            callers := s.callers.set i (.fetching started s.invalidations)
            clock := now }, [])
      | _ => none
  | .fetched i result now =>
    if now < s.clock then none
    else match s.callers[i]? with
      | some (.fetching started began) =>
        let (cache, v) := s.cache.store set result now
        some ({ s with
          cache := cache
          source := if result.isSome then began else s.source
          callers := (s.callers.set i .returned).map Caller.wake
          clock := now }, [⟨v, started, if result.isSome then some began else s.cachedFrom⟩])
      | _ => none
  | .invalidate =>
    some ({ s with cache := s.cache.invalidate, invalidations := s.invalidations + 1 }, [])

end State

/-- The value is from no fetch that began before an invalidation that the call came after. -/
def Event.Fresh (e : Event T) : Prop := ∀ began ∈ e.began, e.started ≤ began

/-- A `get` that starts now and looks at once returns no such value. -/
def Honours (set : Settings T) (s : State T) : Prop :=
  ∀ now t es, exec (State.step set) s [.start, .look s.callers.length now] = some (t, es) → ∀ e ∈ es, e.Fresh

/-- A fetch that succeeds has begun after the last invalidation. -/
def Settled (s : State T) : Action T → Prop
  | .fetched i (some _) _ => ∀ started began, s.callers[i]? = some (.fetching started began) → began = s.invalidations
  | _ => True

/-! ### The steps -/

variable {set : Settings T} {s t : State T} {a : Action T} {es : List (Event T)}

/-- The steps that are taken, with what they do. -/
inductive Move (set : Settings T) (s : State T) : Action T → State T → List (Event T) → Prop
  | start : Move set s .start { s with callers := s.callers ++ [.entered s.invalidations] } []
  | answer {i now started : ℕ} (hi : s.callers[i]? = some (.entered started)) :
      Move set s (.look i now) { s with callers := s.callers.set i .returned, clock := now }
        [⟨s.cache.value set, started, s.cachedFrom⟩]
  | wait {i now started : ℕ} (hi : s.callers[i]? = some (.entered started)) :
      Move set s (.look i now) { s with callers := s.callers.set i (.waiting started), clock := now } []
  | fetch {i now started : ℕ} (hi : s.callers[i]? = some (.entered started))
      (hf : s.cache.fetchInflight = false) :
      Move set s (.look i now) { s with
        cache := { s.cache with fetchInflight := true }
        callers := s.callers.set i (.fetching started s.invalidations)
        clock := now } []
  | failed {i now started began : ℕ} (hi : s.callers[i]? = some (.fetching started began)) :
      Move set s (.fetched i none now) { s with
        cache := { s.cache with fetchInflight := false, failedAt := some now }
        callers := (s.callers.set i .returned).map Caller.wake
        clock := now } [⟨s.cache.value set, started, s.cachedFrom⟩]
  | stored {i now started began : ℕ} {fetched : T} (hi : s.callers[i]? = some (.fetching started began)) :
      Move set s (.fetched i (some fetched) now) { s with
        cache := ⟨some (set.transform fetched), now, none, false⟩
        source := began
        callers := (s.callers.set i .returned).map Caller.wake
        clock := now } [⟨set.transform fetched, started, some began⟩]
  | invalidate :
      Move set s .invalidate { s with cache := s.cache.invalidate, invalidations := s.invalidations + 1 } []

theorem look_answer {c : TTLCache T} {now : ℕ} {v : T} (h : c.look set now = .answer v) : v = c.value set := by
  unfold TTLCache.look at h
  split_ifs at h <;> cases h <;> rfl

theorem look_fetch {c : TTLCache T} {now : ℕ} (h : c.look set now = .fetch) : c.fetchInflight = false := by
  unfold TTLCache.look at h
  split_ifs at h with h1 h2 h3
  exact eq_false_of_ne_true h3

theorem move_of_step (h : s.step set a = some (t, es)) : Move set s a t es := by
  cases a with
  | start =>
    cases h
    exact .start
  | look i now =>
    rw [State.step] at h
    split_ifs at h
    split at h
    next started hi =>
      cases hl : s.cache.look set now with
      | answer v =>
        obtain rfl := look_answer hl
        simp only [hl, Option.some.injEq, Prod.mk.injEq] at h
        obtain ⟨rfl, rfl⟩ := h
        exact .answer hi
      | wait =>
        simp only [hl, Option.some.injEq, Prod.mk.injEq] at h
        obtain ⟨rfl, rfl⟩ := h
        exact .wait hi
      | fetch =>
        simp only [hl, Option.some.injEq, Prod.mk.injEq] at h
        obtain ⟨rfl, rfl⟩ := h
        exact .fetch hi (look_fetch hl)
    next => cases h
  | fetched i result now =>
    rw [State.step] at h
    split at h
    next => cases h
    next =>
      split at h
      next started began hi =>
        cases result with
        | none =>
          cases h
          exact .failed hi
        | some fetched =>
          cases h
          exact .stored hi
      next => cases h
  | invalidate =>
    cases h
    exact .invalidate

/-! ### What always holds -/

/-- A fetch begins after its call, and both in the past. -/
def Caller.Ordered (invalidations : ℕ) : Caller → Prop
  | .entered started | .waiting started => started ≤ invalidations
  | .fetching started began => started ≤ began ∧ began ≤ invalidations
  | .returned => True

structure Inv (s : State T) : Prop where
  ordered : ∀ c ∈ s.callers, c.Ordered s.invalidations
  /-- The flag tells whether a fetch is in flight. -/
  inflight : s.callers.countP Caller.isFetching = s.cache.fetchInflight.toNat

theorem Caller.Ordered.wake {c : Caller} {n : ℕ} (h : c.Ordered n) : c.wake.Ordered n := by
  cases c <;> exact h

theorem Caller.Ordered.later {c : Caller} {n : ℕ} (h : c.Ordered n) : c.Ordered (n + 1) := by
  cases c with
  | entered started => exact Nat.le_succ_of_le h
  | waiting started => exact Nat.le_succ_of_le h
  | fetching started began => exact ⟨h.1, Nat.le_succ_of_le h.2⟩
  | returned => trivial

theorem ordered_set {i : ℕ} {c : Caller} {cs : List Caller} {n : ℕ} (h : ∀ c ∈ cs, c.Ordered n) (hc : c.Ordered n) :
    ∀ c' ∈ cs.set i c, c'.Ordered n := by
  intro c' hmem
  rcases List.mem_or_eq_of_mem_set hmem with hmem | rfl
  · exact h c' hmem
  · exact hc

theorem countP_wake (cs : List Caller) : (cs.map Caller.wake).countP Caller.isFetching = cs.countP Caller.isFetching := by
  have hsame : Caller.isFetching ∘ Caller.wake = Caller.isFetching := by
    funext c
    cases c <;> rfl
  rw [List.countP_map, hsame]

theorem Inv.caller (h : Inv s) {i : ℕ} {c : Caller} (hi : s.callers[i]? = some c) : c.Ordered s.invalidations :=
  h.ordered c (List.mem_of_getElem? hi)

/-- One caller goes on; the number of fetches in flight follows the flag. -/
theorem inv_set (h : Inv s) {i : ℕ} {c : Caller} (hi : s.callers[i]? = some c) (c' : Caller) (inflight : Bool)
    (hc' : c'.Ordered s.invalidations)
    (hflag : inflight.toNat + c.isFetching.toNat = s.cache.fetchInflight.toNat + c'.isFetching.toNat) :
    (∀ d ∈ s.callers.set i c', d.Ordered s.invalidations) ∧
      (s.callers.set i c').countP Caller.isFetching = inflight.toNat := by
  have hadd := countP_set_add (w := c') hi Caller.isFetching
  have hone := h.inflight
  exact ⟨ordered_set h.ordered hc', by omega⟩

/-- A fetch is over. -/
theorem inv_end (h : Inv s) {i started began : ℕ} (hi : s.callers[i]? = some (.fetching started began)) :
    (∀ d ∈ (s.callers.set i .returned).map Caller.wake, d.Ordered s.invalidations) ∧
      ((s.callers.set i .returned).map Caller.wake).countP Caller.isFetching = false.toNat := by
  have hpos : 0 < s.callers.countP Caller.isFetching :=
    List.countP_pos_iff.2 ⟨_, List.mem_of_getElem? hi, rfl⟩
  have hflag : s.cache.fetchInflight = true := by
    by_contra hf
    rw [h.inflight, eq_false_of_ne_true hf] at hpos
    exact Nat.lt_irrefl 0 hpos
  obtain ⟨hord, hone⟩ := inv_set h hi .returned false trivial (by rw [hflag]; rfl)
  refine ⟨fun d hd => ?_, (countP_wake _).trans hone⟩
  obtain ⟨c, hc, rfl⟩ := List.mem_map.1 hd
  exact (hord c hc).wake

theorem inv_move (h : Inv s) (hm : Move set s a t es) : Inv t := by
  cases hm with
  | start =>
    constructor
    · intro c hc
      rcases List.mem_append.1 hc with hc | hc
      · exact h.ordered c hc
      · rw [List.mem_singleton.1 hc]
        exact Nat.le_refl _
    · rw [List.countP_append]
      exact h.inflight
  | answer hi =>
    obtain ⟨hord, hone⟩ := inv_set h hi .returned _ trivial rfl
    exact ⟨hord, hone⟩
  | @wait i now started hi =>
    have hs : started ≤ s.invalidations := h.caller hi
    obtain ⟨hord, hone⟩ := inv_set h hi (.waiting started) _ hs rfl
    exact ⟨hord, hone⟩
  | @fetch i now started hi hf =>
    have hs : started ≤ s.invalidations := h.caller hi
    obtain ⟨hord, hone⟩ := inv_set h hi (.fetching started s.invalidations) true ⟨hs, Nat.le_refl _⟩
      (by rw [hf]; rfl)
    exact ⟨hord, hone⟩
  | failed hi =>
    obtain ⟨hord, hone⟩ := inv_end h hi
    exact ⟨hord, hone⟩
  | stored hi =>
    obtain ⟨hord, hone⟩ := inv_end h hi
    exact ⟨hord, hone⟩
  | invalidate => exact ⟨fun c hc => (h.ordered c hc).later, h.inflight⟩

/-! ### What the values are from -/

/-- The cached value is from after the last invalidation. -/
def Current (s : State T) : Prop := s.cache.data.isSome = true → s.source = s.invalidations

theorem cachedFrom_fresh (h : Current s) {v : T} {started : ℕ} (hs : started ≤ s.invalidations) :
    Event.Fresh ⟨v, started, s.cachedFrom⟩ := by
  intro began hb
  rw [State.cachedFrom] at hb
  split_ifs at hb with hsome
  · obtain rfl := Option.some.inj hb
    rw [h hsome]
    exact hs
  · cases hb

/-- While the cached value is current, nothing older is returned. -/
theorem fresh_move (h : Inv s) (hc : Current s) (hm : Move set s a t es) : ∀ e ∈ es, e.Fresh := by
  cases hm with
  | answer hi => exact List.forall_mem_singleton.2 (cachedFrom_fresh hc (h.caller hi))
  | failed hi =>
    obtain ⟨hs, hb⟩ := h.caller hi
    exact List.forall_mem_singleton.2 (cachedFrom_fresh hc (Nat.le_trans hs hb))
  | stored hi =>
    refine List.forall_mem_singleton.2 fun began hb => ?_
    obtain rfl := Option.some.inj hb
    exact (h.caller hi).1
  | _ => exact fun _ he => absurd he List.not_mem_nil

theorem current_move (hc : Current s) (hok : Settled s a) (hm : Move set s a t es) : Current t := by
  cases hm with
  | stored hi => exact fun _ => hok _ _ hi
  | invalidate => exact fun h => absurd h Bool.false_ne_true
  | _ => exact hc

theorem honours_of_current (h : Inv s) (hc : Current s) : Honours set s := by
  intro now t es hx
  obtain ⟨u, es₁, es₂, hstart, hrest, rfl⟩ := exec_cons_eq_some.1 hx
  obtain ⟨v, es₃, es₄, hlook, hnil, rfl⟩ := exec_cons_eq_some.1 hrest
  have hm := move_of_step hstart
  have hfresh := fresh_move (inv_move h hm) (current_move (a := .start) hc trivial hm) (move_of_step hlook)
  cases hnil
  cases hm
  rwa [List.nil_append, List.append_nil]

/-- A value that has just been stored is what the next call gets. -/
theorem exec_probe (set : Settings T) {v : T} (hd : s.cache.data = some v) (hf : s.cache.fetchedAt = s.clock) (httl : 0 < set.ttl) :
    ∃ t, exec (State.step set) s [.start, .look s.callers.length s.clock] =
      some (t, [⟨v, s.invalidations, some s.source⟩]) := by
  have hanswer : s.cache.look set s.clock = .answer v := by
    have hvalue : s.cache.value set = v := by rw [TTLCache.value, hd, Option.getD_some]
    rw [TTLCache.look, if_pos ⟨by rw [hd]; rfl, by rw [hf]; omega⟩, hvalue]
  have hfrom : s.cachedFrom = some s.source := by rw [State.cachedFrom, hd, if_pos Option.isSome_some]
  have hcaller : (s.callers ++ [Caller.entered s.invalidations])[s.callers.length]? =
      some (.entered s.invalidations) := List.getElem?_concat_length
  have hlook : State.step set { s with callers := s.callers ++ [Caller.entered s.invalidations] }
      (.look s.callers.length s.clock) = some ({ s with
        callers := (s.callers ++ [Caller.entered s.invalidations]).set s.callers.length .returned },
        [⟨v, s.invalidations, some s.source⟩]) := by
    simp only [State.step, if_neg (Nat.lt_irrefl s.clock), hcaller, hanswer, ← hfrom]
    rfl
  exact ⟨_, exec_cons_eq_some.2 ⟨_, [], _, rfl, exec_cons_eq_some.2 ⟨_, _, [], hlook, rfl, rfl⟩, rfl⟩⟩

theorem not_honours_of_late (h : Inv s) (hok : ¬ Settled s a) (hm : Move set s a t es) (httl : 0 < set.ttl) :
    ¬ Honours set t := by
  cases hm with
  | @stored i now started began fetched hi =>
    intro hh
    have hlate : began ≠ s.invalidations := by
      rintro rfl
      refine hok fun st b hst => ?_
      rw [hi] at hst
      cases hst
      rfl
    have hb : began ≤ s.invalidations := (h.caller hi).2
    obtain ⟨t, ht⟩ := exec_probe set (v := set.transform fetched) (s := { s with
      cache := ⟨some (set.transform fetched), now, none, false⟩
      source := began
      callers := (s.callers.set i .returned).map Caller.wake
      clock := now }) rfl rfl httl
    have hfresh := hh now t _ ht _ (List.mem_singleton_self _) began rfl
    exact hlate (Nat.le_antisymm hb hfresh)
  | _ => exact absurd trivial hok

/-! ### Runs -/

theorem inv_init : Inv (State.init : State T) := ⟨fun _ hc => absurd hc List.not_mem_nil, rfl⟩

theorem current_init : Current (State.init : State T) := fun h => absurd h Bool.false_ne_true

/-- What the allowed steps keep. -/
def Kept (h : List (Event T)) (s : State T) : Prop := Inv s ∧ Current s ∧ ∀ e ∈ h, e.Fresh

theorem kept_init : Kept [] (State.init : State T) :=
  ⟨inv_init, current_init, fun _ he => absurd he List.not_mem_nil⟩

theorem kept_move {h : List (Event T)} (hI : Kept h s) (hok : Settled s a) (hm : Move set s a t es) :
    Kept (h ++ es) t :=
  ⟨inv_move hI.1 hm, current_move hI.2.1 hok hm, List.forall_mem_append.2 ⟨hI.2.2, fresh_move hI.1 hI.2.1 hm⟩⟩

/-- On every run one fetch is in flight at most. When no fetch that began before an
invalidation succeeds after it, no call that starts after an invalidation returns a value
of a fetch that began before it; and with a positive lifetime only then can the next call
be relied on in all states of the run. -/
theorem get_fresh_iff {acts : List (Action T)} (hx : exec (State.step set) .init acts = some (s, es)) :
    s.callers.countP Caller.isFetching ≤ 1 ∧
    (Meets (State.step set) Settled .init acts → ∀ e ∈ es, e.Fresh) ∧
    (0 < set.ttl → ((∀ acts', acts' <+: acts → ∀ u fs, exec (State.step set) .init acts' = some (u, fs) →
      (∀ e ∈ fs, e.Fresh) ∧ Honours set u) ↔ Meets (State.step set) Settled .init acts)) := by
  refine ⟨?_, fun hok => ?_, fun httl => ?_⟩
  · have hinv : Inv s := exec_keeps (fun _ _ _ _ hi hs => inv_move hi (move_of_step hs)) inv_init hx
    rw [hinv.inflight]
    exact Bool.toNat_le _
  · have hkept : Kept ([] ++ es) s :=
      exec_invariant (fun h s a t es hI hok hs => kept_move hI hok (move_of_step hs)) kept_init hok hx
    exact hkept.2.2
  · refine forall_prefix_iff_meets_of (P := fun h s => (∀ e ∈ h, e.Fresh) ∧ Honours set s)
      (fun h s hI => ⟨hI.2.2, honours_of_current hI.1 hI.2.1⟩) (fun h s a t es hI hs => ?_) kept_init hx
    refine ⟨fun hok => kept_move hI hok (move_of_step hs), fun hP => ?_⟩
    by_contra hok
    exact not_honours_of_late hI.1 hok (move_of_step hs) httl hP.2

def daily : Settings ℕ := ⟨24 * 3600, 180, 0, id⟩

/-- A call fetches, and a second one gets the cached value. -/
theorem get_fresh_cached : ∃ s es, exec (State.step daily) .init
    [.start, .look 0 1, .fetched 0 (some 7) 2, .start, .look 1 3] = some (s, es) ∧
      (∀ e ∈ es, e.Fresh) ∧ es.map Event.value = [7, 7] := by
  obtain ⟨s, es, hx⟩ : ∃ s es, exec (State.step daily) .init
      [.start, .look 0 1, .fetched 0 (some 7) 2, .start, .look 1 3] = some (s, es) := ⟨_, _, rfl⟩
  refine ⟨s, es, hx, (get_fresh_iff hx).2.1 ⟨trivial, trivial, fun st b h => ?_, trivial, trivial, trivial⟩, ?_⟩
  · cases h
    rfl
  · cases hx
    rfl

/-- A fetch is in flight when the cache is invalidated, and stores its value after that;
the next call returns it. -/
theorem stale_after_invalidate : ∃ s es, exec (State.step daily) .init
    [.start, .look 0 1, .invalidate, .fetched 0 (some 7) 2, .start, .look 1 3] = some (s, es) ∧
      ¬ ∀ e ∈ es, e.Fresh := by
  refine ⟨_, [⟨7, 0, some 0⟩, ⟨7, 1, some 0⟩], rfl, fun h => ?_⟩
  have hlast := h ⟨7, 1, some 0⟩ (by simp) 0 rfl
  exact absurd hlast (by decide)

end ManyAiCli.Hub.CachedFetch
