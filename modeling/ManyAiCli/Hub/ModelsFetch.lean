import ManyAiCli.Runs.Jobs
import ManyAiCli.Runs.Machine
import ManyAiCli.Text.Strings
import Mathlib.Data.UInt

/-! The cache of the models of a local Ollama. A fetch runs without the lock; the other callers
wait on its channel and look again. A forced call refuses what an earlier generation has
fetched, but the generation is written down at the end of a fetch. -/

namespace ManyAiCli.Hub.ModelsFetch

open Runs Text

abbrev Url := List Char

def defaultOllamaBaseURL : Url := "http://localhost:11434".toList

def effectiveOllamaBaseURL (baseURL : Url) : Url :=
  let baseURL := trimRight (· = '/') (trimSpace baseURL)
  if baseURL = [] then defaultOllamaBaseURL else baseURL

def ollamaTagsURL (baseURL : Url) : Url := effectiveOllamaBaseURL baseURL ++ "/api/tags".toList

/-- In nanoseconds. -/
def ollamaLocalCacheTTL : ℤ := 60 * 1000000000

variable {R : Type*}

/-- The result stands for the models and the error. -/
structure OllamaTagsCacheEntry (R : Type*) where
  result : R
  fetchedAt : ℕ
  tagsURL : Url
  generation : UInt64

/-- `done` is the number of the channel. -/
structure OllamaTagsFetch where
  done : ℕ
  startGen : UInt64
  deriving DecidableEq, Repr

structure ModelsCache (R : Type*) where
  entry : Option (OllamaTagsCacheEntry R)
  localFetch : Option OllamaTagsFetch
  generation : UInt64

def OllamaTagsCacheEntry.fits (e : OllamaTagsCacheEntry R) (tagsURL : Url) (now : ℕ) : Bool :=
  e.tagsURL = tagsURL && (now : ℤ) - e.fetchedAt < ollamaLocalCacheTTL

inductive Look (R : Type*)
  | answer (result : R)
  | wait (done : ℕ)
  | fetch

namespace ModelsCache

variable (c : ModelsCache R)

/-- One turn of the loop of `getOllamaLocal`, up to a wait. -/
def look (tagsURL : Url) (force : Bool) (now : ℕ) : Look R :=
  match c.entry.filter fun e => e.fits tagsURL now && (!force || e.generation ≥ c.generation) with
  | some e => .answer e.result
  | none =>
    match c.localFetch with
    | none => .fetch
    | some inFlight => .wait inFlight.done

/-- After the wait. -/
def lookAgain (tagsURL : Url) (myStartGen : UInt64) (now : ℕ) : Option R :=
  (c.entry.filter fun e => e.fits tagsURL now && e.generation ≥ myStartGen).map (·.result)

/-- The end of a fetch, but for its channel. -/
def store (tagsURL : Url) (inFlight : OllamaTagsFetch) (result : R) (now : ℕ) : ModelsCache R :=
  let newGen := if c.generation > inFlight.startGen then c.generation else inFlight.startGen
  { c with
    entry := some ⟨result, now, tagsURL, newGen⟩
    localFetch := if c.localFetch = some inFlight then none else c.localFetch }

def invalidate : ModelsCache R := { c with entry := none, generation := c.generation + 1 }

end ModelsCache

/-! ### Calls that run at the same time -/

/-- The arguments of a call, and the invalidations that have returned before its start. -/
structure Call where
  tagsURL : Url
  force : Bool
  started : ℕ
  deriving DecidableEq, Repr

/-- The address that a call fetches from. -/
def Call.address (call : Call) : Url :=
  let tagsURL := trimSpace call.tagsURL
  if tagsURL = [] then ollamaTagsURL [] else tagsURL

/-- The flag is what is left of `force`; `began` counts the invalidations before the fetch. -/
inductive Caller
  | entered (call : Call) (force : Bool)
  | waiting (call : Call) (myStartGen : UInt64) (wait : ℕ)
  | fetching (call : Call) (inFlight : OllamaTagsFetch) (began : ℕ)
  | returned
  deriving DecidableEq, Repr

/-- Where a result is from. -/
structure Source where
  tagsURL : Url
  began : ℕ
  deriving DecidableEq, Repr

structure State (R : Type*) where
  cache : ModelsCache R
  /-- Where the entry of the cache is from. -/
  source : Source
  /-- The channels that were made, and whether they are closed. -/
  closed : List Bool
  invalidations : ℕ
  callers : List Caller
  clock : ℕ

def State.init : State R := ⟨⟨none, none, 0⟩, ⟨[], 0⟩, [], 0, [], 0⟩

inductive Action (R : Type*)
  | start (tagsURL : Url) (force : Bool)
  | look (caller now : ℕ)
  /-- A caller finds the channel closed. -/
  | wake (caller now : ℕ)
  | fetched (caller : ℕ) (result : R) (now : ℕ)
  | invalidate

structure Event (R : Type*) where
  call : Call
  result : R
  source : Source

namespace State

variable (s : State R)

def step : Action R → Option (State R × List (Event R))
  | .start tagsURL force =>
    some ({ s with callers := s.callers ++ [.entered ⟨tagsURL, force, s.invalidations⟩ force] }, [])
  | .look i now =>
    if now < s.clock then none
    else match s.callers[i]? with
      | some (.entered call force) =>
        match s.cache.look call.address force now with
        | .answer result =>
          some ({ s with callers := s.callers.set i .returned, clock := now }, [⟨call, result, s.source⟩])
        | .wait done =>
          some ({ s with callers := s.callers.set i (.waiting call s.cache.generation done), clock := now }, [])
        | .fetch =>
          let inFlight : OllamaTagsFetch := ⟨s.closed.length, s.cache.generation⟩
          some ({ s with
            cache := { s.cache with localFetch := some inFlight }
            closed := s.closed ++ [false]
            callers := s.callers.set i (.fetching call inFlight s.invalidations)
            clock := now }, [])
      | _ => none
  | .wake i now =>
    if now < s.clock then none
    else match s.callers[i]? with
      | some (.waiting call myStartGen wait) =>
        if s.closed[wait]? = some true then
          match s.cache.lookAgain call.address myStartGen now with
          | some result =>
            some ({ s with callers := s.callers.set i .returned, clock := now }, [⟨call, result, s.source⟩])
          | none => some ({ s with callers := s.callers.set i (.entered call false), clock := now }, [])
        else none
      | _ => none
  | .fetched i result now =>
    if now < s.clock then none
    else match s.callers[i]? with
      | some (.fetching call inFlight began) =>
        let source : Source := ⟨call.address, began⟩
        some ({ s with
          cache := s.cache.store call.address inFlight result now
          source := source
          closed := if s.cache.localFetch = some inFlight then s.closed.set inFlight.done true else s.closed
          callers := s.callers.set i .returned
          clock := now }, [⟨call, result, source⟩])
      | _ => none
  | .invalidate =>
    some ({ s with cache := s.cache.invalidate, invalidations := s.invalidations + 1 }, [])

end State

/-- A forced call gets what a fetch from its address has found that began after all the
invalidations before the call. -/
def Event.Fresh (e : Event R) : Prop :=
  e.call.force = true → e.source.tagsURL = e.call.address ∧ e.call.started ≤ e.source.began

/-- So does a forced call that starts now and looks at once. -/
def Honours (s : State R) : Prop :=
  ∀ tagsURL now t es,
    exec State.step s [.start tagsURL true, .look s.callers.length now] = some (t, es) → ∀ e ∈ es, e.Fresh

/-- Who waits goes on, at once or as soon as the fetch in flight ends. -/
def Released (s : State R) : Prop :=
  ∀ i call myStartGen wait, s.callers[i]? = some (.waiting call myStartGen wait) →
    (s.step (.wake i s.clock)).isSome = true ∨
      ∃ j call' inFlight began, s.callers[j]? = some (.fetching call' inFlight began) ∧
        ∀ result now, s.clock ≤ now → ∃ t es,
          s.step (.fetched j result now) = some (t, es) ∧ (t.step (.wake i now)).isSome = true

/-- A fetch ends without an invalidation since its beginning. -/
def Settled (s : State R) : Action R → Prop
  | .fetched i _ _ => ∀ call inFlight began,
    s.callers[i]? = some (.fetching call inFlight began) → began = s.invalidations
  | _ => True

/-! ### The steps -/

variable {s t : State R} {a : Action R} {es : List (Event R)}

/-- The steps that are taken, with what they do. -/
inductive Move (s : State R) : Action R → State R → List (Event R) → Prop
  | start {tagsURL : Url} {force : Bool} :
      Move s (.start tagsURL force)
        { s with callers := s.callers ++ [.entered ⟨tagsURL, force, s.invalidations⟩ force] } []
  | answer {i now : ℕ} {call : Call} {force : Bool} {e : OllamaTagsCacheEntry R}
      (hi : s.callers[i]? = some (.entered call force)) (he : s.cache.entry = some e)
      (hurl : e.tagsURL = call.address) :
      Move s (.look i now) { s with callers := s.callers.set i .returned, clock := now } [⟨call, e.result, s.source⟩]
  | wait {i now : ℕ} {call : Call} {force : Bool} {inFlight : OllamaTagsFetch}
      (hi : s.callers[i]? = some (.entered call force)) (hf : s.cache.localFetch = some inFlight) :
      Move s (.look i now)
        { s with callers := s.callers.set i (.waiting call s.cache.generation inFlight.done), clock := now } []
  | fetch {i now : ℕ} {call : Call} {force : Bool}
      (hi : s.callers[i]? = some (.entered call force)) (hf : s.cache.localFetch = none) :
      Move s (.look i now) { s with
        cache := { s.cache with localFetch := some ⟨s.closed.length, s.cache.generation⟩ }
        closed := s.closed ++ [false]
        callers := s.callers.set i (.fetching call ⟨s.closed.length, s.cache.generation⟩ s.invalidations)
        clock := now } []
  | taken {i now wait : ℕ} {call : Call} {myStartGen : UInt64} {e : OllamaTagsCacheEntry R}
      (hi : s.callers[i]? = some (.waiting call myStartGen wait)) (he : s.cache.entry = some e)
      (hurl : e.tagsURL = call.address) :
      Move s (.wake i now) { s with callers := s.callers.set i .returned, clock := now } [⟨call, e.result, s.source⟩]
  | again {i now wait : ℕ} {call : Call} {myStartGen : UInt64}
      (hi : s.callers[i]? = some (.waiting call myStartGen wait)) :
      Move s (.wake i now) { s with callers := s.callers.set i (.entered call false), clock := now } []
  | fetched {i now began : ℕ} {call : Call} {inFlight : OllamaTagsFetch} {result : R}
      (hi : s.callers[i]? = some (.fetching call inFlight began)) :
      Move s (.fetched i result now) { s with
        cache := s.cache.store call.address inFlight result now
        source := ⟨call.address, began⟩
        closed := if s.cache.localFetch = some inFlight then s.closed.set inFlight.done true else s.closed
        callers := s.callers.set i .returned
        clock := now } [⟨call, result, ⟨call.address, began⟩⟩]
  | invalidate :
      Move s .invalidate { s with cache := s.cache.invalidate, invalidations := s.invalidations + 1 } []

theorem filter_fits {entry : Option (OllamaTagsCacheEntry R)} {e : OllamaTagsCacheEntry R} {tagsURL : Url}
    {now : ℕ} {newer : OllamaTagsCacheEntry R → Bool}
    (h : entry.filter (fun e => e.fits tagsURL now && newer e) = some e) : entry = some e ∧ e.tagsURL = tagsURL := by
  obtain ⟨he, hfits⟩ := Option.filter_eq_some_iff.1 h
  obtain ⟨hboth, -⟩ := Bool.and_eq_true_iff.1 hfits
  obtain ⟨hurl, -⟩ := Bool.and_eq_true_iff.1 hboth
  exact ⟨he, of_decide_eq_true hurl⟩

theorem move_of_step (h : s.step a = some (t, es)) : Move s a t es := by
  cases a with
  | start tagsURL force =>
    cases h
    exact .start
  | look i now =>
    rw [State.step] at h
    split_ifs at h
    split at h
    next call force hi =>
      unfold ModelsCache.look at h
      cases hentry : s.cache.entry.filter fun e =>
          e.fits call.address now && (!force || e.generation ≥ s.cache.generation) with
      | some e =>
        rw [hentry] at h
        cases h
        obtain ⟨he, hurl⟩ := filter_fits hentry
        exact .answer hi he hurl
      | none =>
        rw [hentry] at h
        cases hf : s.cache.localFetch with
        | some inFlight =>
          rw [hf] at h
          cases h
          exact .wait hi hf
        | none =>
          rw [hf] at h
          cases h
          exact .fetch hi hf
    next => cases h
  | wake i now =>
    rw [State.step] at h
    split_ifs at h
    split at h
    next call myStartGen wait hi =>
      split_ifs at h
      unfold ModelsCache.lookAgain at h
      cases hentry : s.cache.entry.filter fun e => e.fits call.address now && e.generation ≥ myStartGen with
      | some e =>
        rw [hentry] at h
        cases h
        obtain ⟨he, hurl⟩ := filter_fits hentry
        exact .taken hi he hurl
      | none =>
        rw [hentry] at h
        cases h
        exact .again hi
    next => cases h
  | fetched i result now =>
    rw [State.step] at h
    split_ifs at h
    split at h
    next call inFlight began hi =>
      cases h
      exact .fetched hi
    next => cases h
  | invalidate =>
    cases h
    exact .invalidate

/-! ### What always holds -/

def Caller.isFetching : Caller → Bool
  | .fetching .. => true
  | _ => false

/-- A fetch begins after its call, and both in the past. The channel of who waits is closed, or is
that of the fetch in flight. -/
def Caller.Fits (s : State R) : Caller → Prop
  | .entered call _ => call.started ≤ s.invalidations
  | .waiting call _ wait => call.started ≤ s.invalidations ∧
    (s.closed[wait]? = some true ∨ ∃ inFlight ∈ s.cache.localFetch, inFlight.done = wait)
  | .fetching call inFlight began => call.started ≤ began ∧ began ≤ s.invalidations ∧
    s.cache.localFetch = some inFlight ∧ s.closed[inFlight.done]? = some false
  | .returned => True

structure Inv (s : State R) : Prop where
  fits : ∀ c ∈ s.callers, c.Fits s
  /-- One fetch is in flight at most. -/
  single : s.callers.countP Caller.isFetching = s.cache.localFetch.isSome.toNat
  sourced : ∀ e ∈ s.cache.entry, s.source.tagsURL = e.tagsURL

theorem Inv.caller (h : Inv s) {i : ℕ} {c : Caller} (hi : s.callers[i]? = some c) : c.Fits s :=
  h.fits c (List.mem_of_getElem? hi)

theorem isFetching_eq_false {c : Caller} {cs : List Caller} (h : cs.countP Caller.isFetching = 0) (hc : c ∈ cs) :
    c.isFetching = false :=
  Bool.eq_false_iff.2 (List.countP_eq_zero.1 h c hc)

theorem forall_mem_set {i : ℕ} {c' : Caller} {cs : List Caller} {P : Caller → Prop} (hc' : P c')
    (hcs : ∀ c ∈ cs, c ∈ cs.set i c' → P c) : ∀ c ∈ cs.set i c', P c := by
  intro c hmem
  rcases List.mem_or_eq_of_mem_set hmem with hc | rfl
  · exact hcs c hc hmem
  · exact hc'

/-- One caller goes on, and the cache stays. -/
theorem inv_set (h : Inv s) {i now : ℕ} {c c' : Caller} (hi : s.callers[i]? = some c)
    (hplain : c.isFetching = c'.isFetching) (hc' : c'.Fits s) :
    Inv { s with callers := s.callers.set i c', clock := now } where
  fits := forall_mem_set (P := fun c => c.Fits s) hc' fun c hc _ => h.fits c hc
  single := by
    have hadd := countP_set_add (w := c') hi Caller.isFetching
    rw [hplain] at hadd
    exact (Nat.add_right_cancel hadd).trans h.single
  sourced := h.sourced

theorem inv_fetch (h : Inv s) {i now : ℕ} {call : Call} {force : Bool}
    (hi : s.callers[i]? = some (.entered call force)) (hf : s.cache.localFetch = none) :
    Inv { s with
      cache := { s.cache with localFetch := some ⟨s.closed.length, s.cache.generation⟩ }
      closed := s.closed ++ [false]
      callers := s.callers.set i (.fetching call ⟨s.closed.length, s.cache.generation⟩ s.invalidations)
      clock := now } := by
  have hnone : s.callers.countP Caller.isFetching = 0 := by
    rw [h.single, hf]
    rfl
  refine ⟨?_, ?_, h.sourced⟩
  · apply forall_mem_set
    · exact ⟨h.caller hi, Nat.le_refl _, rfl, List.getElem?_concat_length⟩
    · intro c hc _
      have hfits := h.fits c hc
      cases c with
      | entered call force => exact hfits
      | waiting call myStartGen wait =>
        obtain ⟨hs, hclosed | ⟨inFlight, hmem, -⟩⟩ := hfits
        · obtain ⟨hlt, -⟩ := List.getElem?_eq_some_iff.1 hclosed
          exact ⟨hs, Or.inl ((List.getElem?_append_left hlt).trans hclosed)⟩
        · rw [hf] at hmem
          cases hmem
      | fetching call inFlight began => exact absurd (isFetching_eq_false hnone hc).symm Bool.false_ne_true
      | returned => trivial
  · have hadd := countP_set_add (w := .fetching call ⟨s.closed.length, s.cache.generation⟩ s.invalidations) hi
      Caller.isFetching
    rw [hnone] at hadd
    exact hadd

theorem inv_fetched (h : Inv s) {i now began : ℕ} {call : Call} {inFlight : OllamaTagsFetch} {result : R}
    (hi : s.callers[i]? = some (.fetching call inFlight began)) :
    Inv { s with
      cache := s.cache.store call.address inFlight result now
      source := ⟨call.address, began⟩
      closed := if s.cache.localFetch = some inFlight then s.closed.set inFlight.done true else s.closed
      callers := s.callers.set i .returned
      clock := now } := by
  obtain ⟨-, -, hf, hopen⟩ := h.caller hi
  have hfree : (s.cache.store call.address inFlight result now).localFetch = none := if_pos hf
  have hnone : (s.callers.set i .returned).countP Caller.isFetching = 0 := by
    have hadd := countP_set_add (w := .returned) hi Caller.isFetching
    rw [h.single, hf] at hadd
    exact Nat.add_right_cancel hadd
  rw [if_pos hf]
  refine ⟨?_, ?_, ?_⟩
  · apply forall_mem_set
    · trivial
    · intro c hc hmem
      have hfits := h.fits c hc
      cases c with
      | entered call force => exact hfits
      | waiting call myStartGen wait =>
        obtain ⟨hs, hclosed⟩ := hfits
        refine ⟨hs, Or.inl ?_⟩
        show (s.closed.set inFlight.done true)[wait]? = some true
        by_cases hwait : inFlight.done = wait
        · subst hwait
          obtain ⟨hlt, -⟩ := List.getElem?_eq_some_iff.1 hopen
          exact List.getElem?_set_self hlt
        · rw [List.getElem?_set_ne hwait]
          rcases hclosed with hclosed | ⟨inFlight', hmem', hdone⟩
          · exact hclosed
          · rw [hf] at hmem'
            cases hmem'
            exact absurd hdone hwait
      | fetching call inFlight began => exact absurd (isFetching_eq_false hnone hmem).symm Bool.false_ne_true
      | returned => trivial
  · rw [hfree]
    exact hnone
  · intro e he
    cases he
    rfl

theorem inv_move (h : Inv s) (hm : Move s a t es) : Inv t := by
  cases hm with
  | start =>
    refine ⟨?_, ?_, h.sourced⟩
    · intro c hc
      rcases List.mem_append.1 hc with hc | hc
      · exact h.fits c hc
      · rw [List.mem_singleton.1 hc]
        exact Nat.le_refl _
    · rw [List.countP_append]
      exact h.single
  | answer hi => exact inv_set h hi rfl trivial
  | wait hi hf => exact inv_set h hi rfl ⟨h.caller hi, Or.inr ⟨_, hf, rfl⟩⟩
  | fetch hi hf => exact inv_fetch h hi hf
  | taken hi => exact inv_set h hi rfl trivial
  | again hi => exact inv_set h hi rfl (h.caller hi).1
  | fetched hi => exact inv_fetched h hi
  | invalidate =>
    refine ⟨?_, h.single, fun e he => by cases he⟩
    intro c hc
    have hfits := h.fits c hc
    cases c with
    | entered call force => exact Nat.le_succ_of_le hfits
    | waiting call myStartGen wait => exact ⟨Nat.le_succ_of_le hfits.1, hfits.2⟩
    | fetching call inFlight began => exact ⟨hfits.1, Nat.le_succ_of_le hfits.2.1, hfits.2.2⟩
    | returned => trivial

theorem inv_init : Inv (State.init : State R) :=
  ⟨fun _ hc => absurd hc List.not_mem_nil, rfl, fun e he => by cases he⟩

/-! ### Who waits -/

theorem wake_of_closed {i now wait : ℕ} {call : Call} {myStartGen : UInt64}
    (hi : s.callers[i]? = some (.waiting call myStartGen wait)) (hclosed : s.closed[wait]? = some true)
    (hnow : s.clock ≤ now) : (s.step (.wake i now)).isSome = true := by
  rw [State.step, if_neg (Nat.not_lt.2 hnow), hi]
  dsimp only
  rw [if_pos hclosed]
  cases s.cache.lookAgain call.address myStartGen now <;> rfl

theorem released_of_inv (h : Inv s) : Released s := by
  intro i call myStartGen wait hi
  obtain ⟨-, hclosed | ⟨inFlight, hf, rfl⟩⟩ := h.caller hi
  · exact Or.inl (wake_of_closed hi hclosed (Nat.le_refl _))
  · right
    -- the flag of the cache has an owner among the callers
    have hpos : 0 < s.callers.countP Caller.isFetching := by
      rw [h.single, hf]
      exact Nat.one_pos
    obtain ⟨c, hc, hfetching⟩ := List.countP_pos_iff.1 hpos
    obtain ⟨j, hj⟩ := List.mem_iff_getElem?.1 hc
    cases c with
    | fetching call' inFlight' began =>
      obtain ⟨-, -, hown, hopen⟩ := h.caller hj
      obtain rfl : inFlight' = inFlight := Option.some.inj (hown.symm.trans hf)
      refine ⟨j, call', inFlight', began, hj, fun result now hnow => ?_⟩
      have hstep : ∃ t es, s.step (.fetched j result now) = some (t, es) ∧
          t.callers = s.callers.set j .returned ∧ t.closed = s.closed.set inFlight'.done true ∧ t.clock = now := by
        rw [State.step, if_neg (Nat.not_lt.2 hnow), hj]
        exact ⟨_, _, rfl, rfl, if_pos hf, rfl⟩
      obtain ⟨t, es, hstep, hcallers, hclosed, hclock⟩ := hstep
      have hwaits : t.callers[i]? = some (.waiting call myStartGen inFlight'.done) := by
        rw [hcallers, List.getElem?_set_ne, hi]
        rintro rfl
        rw [hi] at hj
        cases hj
      have hdone : t.closed[inFlight'.done]? = some true := by
        obtain ⟨hlt, -⟩ := List.getElem?_eq_some_iff.1 hopen
        rw [hclosed]
        exact List.getElem?_set_self hlt
      exact ⟨t, es, hstep, wake_of_closed hwaits hdone (Nat.le_of_eq hclock)⟩
    | _ => cases hfetching

/-! ### What the results are from -/

/-- The entry of the cache is from after the last invalidation. -/
def Current (s : State R) : Prop := s.cache.entry.isSome = true → s.source.began = s.invalidations

theorem entry_fresh (h : Inv s) (hc : Current s) {e : OllamaTagsCacheEntry R} {call : Call}
    (he : s.cache.entry = some e) (hurl : e.tagsURL = call.address) (hs : call.started ≤ s.invalidations) :
    Event.Fresh ⟨call, e.result, s.source⟩ := by
  intro _
  have hbegan : s.source.began = s.invalidations := hc (by rw [he]; rfl)
  exact ⟨(h.sourced e he).trans hurl, hs.trans (Nat.le_of_eq hbegan.symm)⟩

/-- While the entry is current, nothing older is returned. -/
theorem fresh_move (h : Inv s) (hc : Current s) (hm : Move s a t es) : ∀ e ∈ es, e.Fresh := by
  cases hm with
  | answer hi he hurl => exact List.forall_mem_singleton.2 (entry_fresh h hc he hurl (h.caller hi))
  | taken hi he hurl => exact List.forall_mem_singleton.2 (entry_fresh h hc he hurl (h.caller hi).1)
  | fetched hi => exact List.forall_mem_singleton.2 fun _ => ⟨rfl, (h.caller hi).1⟩
  | _ => exact fun _ he => absurd he List.not_mem_nil

theorem current_move (hc : Current s) (hok : Settled s a) (hm : Move s a t es) : Current t := by
  cases hm with
  | fetched hi => exact fun _ => hok _ _ _ hi
  | invalidate => exact fun h => absurd h Bool.false_ne_true
  | _ => exact hc

theorem honours_of_current (h : Inv s) (hc : Current s) : Honours s := by
  intro tagsURL now t es hx
  obtain ⟨u, es₁, es₂, hstart, hrest, rfl⟩ := exec_cons_eq_some.1 hx
  obtain ⟨v, es₃, es₄, hlook, hnil, rfl⟩ := exec_cons_eq_some.1 hrest
  have hm := move_of_step hstart
  have hfresh := fresh_move (inv_move h hm) (current_move (a := .start tagsURL true) hc trivial hm)
    (move_of_step hlook)
  cases hnil
  cases hm
  rwa [List.nil_append, List.append_nil]

/-- What has just been stored is what the next forced call gets: its generation is the current one. -/
theorem exec_probe (tagsURL : Url) {inFlight : OllamaTagsFetch} {result : R} {c : ModelsCache R}
    (hcache : s.cache = c.store (Call.mk tagsURL true s.invalidations).address inFlight result s.clock) :
    ∃ t, exec State.step s [.start tagsURL true, .look s.callers.length s.clock] =
      some (t, [⟨⟨tagsURL, true, s.invalidations⟩, result, s.source⟩]) := by
  set call : Call := ⟨tagsURL, true, s.invalidations⟩ with hcall
  have hanswer : s.cache.look call.address true s.clock = .answer result := by
    have hgen : c.generation ≤ (if c.generation > inFlight.startGen then c.generation else inFlight.startGen) := by
      split_ifs with hlater
      · exact UInt64.le_refl _
      · exact UInt64.not_lt.1 hlater
    have hfits : (⟨result, s.clock, call.address,
        if c.generation > inFlight.startGen then c.generation else inFlight.startGen⟩ :
        OllamaTagsCacheEntry R).fits call.address s.clock = true := by
      rw [OllamaTagsCacheEntry.fits, decide_eq_true rfl, Bool.true_and, sub_self]
      rfl
    rw [ModelsCache.look, hcache, ModelsCache.store, Option.filter_some, hfits]
    rw [Bool.true_and, Bool.not_true, Bool.false_or, if_pos (decide_eq_true hgen)]
  have hcaller : (s.callers ++ [Caller.entered call true])[s.callers.length]? = some (.entered call true) :=
    List.getElem?_concat_length
  have hlook : State.step { s with callers := s.callers ++ [Caller.entered call true] }
      (.look s.callers.length s.clock) = some ({ s with
        callers := (s.callers ++ [Caller.entered call true]).set s.callers.length .returned },
        [⟨call, result, s.source⟩]) := by
    simp only [State.step, if_neg (Nat.lt_irrefl s.clock), hcaller, hanswer]
  exact ⟨_, exec_cons_eq_some.2 ⟨_, [], _, rfl, exec_cons_eq_some.2 ⟨_, _, [], hlook, rfl, rfl⟩, rfl⟩⟩

theorem not_honours_of_late (h : Inv s) (hok : ¬ Settled s a) (hm : Move s a t es) : ¬ Honours t := by
  cases hm with
  | @fetched i now began call inFlight result hi =>
    intro hh
    have hlate : began ≠ s.invalidations := by
      rintro rfl
      apply hok
      intro call' inFlight' began' hi'
      rw [hi] at hi'
      cases hi'
      rfl
    have hb : began ≤ s.invalidations := (h.caller hi).2.1
    obtain ⟨t, ht⟩ := exec_probe call.tagsURL (s := { s with
      cache := s.cache.store call.address inFlight result now
      source := ⟨call.address, began⟩
      closed := if s.cache.localFetch = some inFlight then s.closed.set inFlight.done true else s.closed
      callers := s.callers.set i .returned
      clock := now }) rfl
    have hfresh := hh call.tagsURL now t _ ht _ (List.mem_singleton_self _) rfl
    exact hlate (Nat.le_antisymm hb hfresh.2)
  | _ => exact absurd trivial hok

/-! ### Runs -/

theorem current_init : Current (State.init : State R) := fun h => absurd h Bool.false_ne_true

/-- What the allowed steps keep. -/
def Kept (h : List (Event R)) (s : State R) : Prop := Inv s ∧ Current s ∧ ∀ e ∈ h, e.Fresh

theorem kept_init : Kept [] (State.init : State R) :=
  ⟨inv_init, current_init, fun _ he => absurd he List.not_mem_nil⟩

theorem kept_move {h : List (Event R)} (hI : Kept h s) (hok : Settled s a) (hm : Move s a t es) : Kept (h ++ es) t :=
  ⟨inv_move hI.1 hm, current_move hI.2.1 hok hm, List.forall_mem_append.2 ⟨hI.2.2, fresh_move hI.1 hI.2.1 hm⟩⟩

/-- On every run, who waits is released. In all states of a run the forced calls have got what is
fresh, and the next one will, exactly if no fetch ends after an invalidation that came during it. -/
theorem forced_fresh_iff {acts : List (Action R)} (hx : exec State.step .init acts = some (s, es)) :
    Released s ∧
    ((∀ acts', acts' <+: acts → ∀ u fs, exec State.step .init acts' = some (u, fs) →
      (∀ e ∈ fs, e.Fresh) ∧ Honours u) ↔ Meets State.step Settled .init acts) := by
  constructor
  · have hinv : Inv s := exec_keeps (fun _ _ _ _ hi hs => inv_move hi (move_of_step hs)) inv_init hx
    exact released_of_inv hinv
  · refine forall_prefix_iff_meets_of (P := fun h s => (∀ e ∈ h, e.Fresh) ∧ Honours s)
      (fun h s hI => ⟨hI.2.2, honours_of_current hI.1 hI.2.1⟩) (fun h s a t es hI hs => ?_) kept_init hx
    refine ⟨fun hok => kept_move hI hok (move_of_step hs), fun hP => ?_⟩
    by_contra hok
    exact not_honours_of_late hI.1 hok (move_of_step hs) hP.2

/-- A second call waits for the fetch of the first and takes its result. -/
theorem forced_fresh_waiting : ∃ s es, exec State.step (.init : State ℕ)
    [.invalidate, .start [] true, .look 0 1, .start [] true, .look 1 2, .fetched 0 7 3, .wake 1 4] = some (s, es) ∧
      (∀ e ∈ es, e.Fresh) ∧ es.map Event.result = [7, 7] := by
  obtain ⟨s, es, hx⟩ : ∃ s es, exec State.step (.init : State ℕ)
      [.invalidate, .start [] true, .look 0 1, .start [] true, .look 1 2, .fetched 0 7 3, .wake 1 4] =
        some (s, es) := ⟨_, _, rfl⟩
  refine ⟨s, es, hx, ?_, ?_⟩
  · refine (((forced_fresh_iff hx).2.2 ?_) _ List.prefix_rfl s es hx).1
    refine ⟨trivial, trivial, trivial, trivial, trivial, ?_, trivial, trivial⟩
    intro call inFlight began hi
    cases hi
    rfl
  · cases hx
    rfl

/-- The fetch of an unforced call is in flight during an invalidation. A forced call that starts
after it finds the result with the new generation. -/
theorem stale_with_new_generation : ∃ s es, exec State.step (.init : State ℕ)
    [.start [] false, .look 0 1, .invalidate, .fetched 0 7 2, .start [] true, .look 1 3] = some (s, es) ∧
      ¬ ∀ e ∈ es, e.Fresh := by
  refine ⟨_, [⟨⟨[], false, 0⟩, 7, ⟨(Call.mk [] false 0).address, 0⟩⟩,
    ⟨⟨[], true, 1⟩, 7, ⟨(Call.mk [] false 0).address, 0⟩⟩], rfl, fun h => ?_⟩
  have hlast := h ⟨⟨[], true, 1⟩, 7, ⟨(Call.mk [] false 0).address, 0⟩⟩ (by simp) rfl
  exact absurd hlast.2 (by decide)

end ManyAiCli.Hub.ModelsFetch
