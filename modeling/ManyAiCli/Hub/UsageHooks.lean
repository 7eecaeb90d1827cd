import ManyAiCli.Hub.Registry
import ManyAiCli.Runs.Jobs
import ManyAiCli.Runs.Machine
import ManyAiCli.Wrapper.UsageHooks

/-! Does the Stop hook in Codex's configuration serve a session with a wrapper? A
registration or a reattach injects it for every active Codex session in turn, so the last
one has it; the end of a connection removes it if no active Codex session is left. In
between other handlers run. The token status bar is on and no call of the file system fails. -/

namespace ManyAiCli.Hub.UsageHooks

open Runs Wrapper
open Spawn (SessionState)

/-- Where the goroutine of a connection is. -/
inductive Phase
  /-- `injectUsageHooks` is about to read the sessions. -/
  | snapshot
  | injecting (ids : List ℕ)
  | injected
  | looping
  /-- `removeInactiveUsageHooks` is about to read the sessions. -/
  | cleanup (endedProvider : Option String)
  | removing
  | finished
  deriving DecidableEq, Repr

structure Conn where
  id : ℕ
  phase : Phase
  deriving DecidableEq, Repr

structure State where
  reg : Registry
  config : Option Bytes
  conns : List Conn
  deriving DecidableEq

inductive Action
  | store (id : ℕ) (ses : LiveSession)
  | setState (id : ℕ) (state : SessionState)
  | snapshot (c : ℕ) (ids : List ℕ)
  | inject (c : ℕ)
  | announce (c : ℕ)
  | disconnect (c : ℕ)
  | cleanup (c : ℕ)
  | remove (c : ℕ)
  deriving DecidableEq, Repr

/-- Of `activeUsageHookSnaps`, the Codex sessions. -/
def activeCodex (r : Registry) : List ℕ :=
  r.sessions.keys.filter fun id =>
    (r.sessions.lookup id).any fun ses => !Registry.isEnded ses.state && ses.provider = "codex"

namespace State

variable (head : Bytes) (s : State)

def initial (config : Option Bytes) : State := ⟨.empty, config, []⟩

def setPhase (c id : ℕ) (p : Phase) : State := { s with conns := s.conns.set c ⟨id, p⟩ }

def move : Action → Option State
  | .store id ses => some { s with
      reg := s.reg.store id ses s.conns.length
      conns := s.conns ++ [⟨id, .snapshot⟩] }
  | .setState id state => some { s with reg := s.reg.setState id state }
  | .snapshot c ids =>
    match s.conns[c]? with
    | some ⟨id, .snapshot⟩ =>
      -- a map is ranged over in any order
      if ids.Perm (activeCodex s.reg) then
        some (s.setPhase c id (if ids = [] then .injected else .injecting ids))
      else none
    | _ => none
  | .inject c =>
    match s.conns[c]? with
    | some ⟨id, .injecting (i :: ids)⟩ => some { s.setPhase c id (if ids = [] then .injected else .injecting ids) with
        config := injectCodexStopHook head i s.config }
    | _ => none
  | .announce c =>
    match s.conns[c]? with
    | some ⟨id, .injected⟩ => some (s.setPhase c id (if s.reg.stillRegistered id c then .looping else .finished))
    | _ => none
  | .disconnect c =>
    match s.conns[c]? with
    | some ⟨id, .looping⟩ => some { s.setPhase c id (.cleanup ((s.reg.sessions.lookup id).map (·.provider))) with
        reg := s.reg.disconnect id c }
    | _ => none
  | .cleanup c =>
    match s.conns[c]? with
    | some ⟨id, .cleanup endedProvider⟩ =>
      some (s.setPhase c id (if endedProvider = some "codex" ∧ activeCodex s.reg = [] then .removing else .finished))
    | _ => none
  | .remove c =>
    match s.conns[c]? with
    | some ⟨id, .removing⟩ => some { s.setPhase c id .finished with config := removeCodexStopHook s.config }
    | _ => none

def step (a : Action) : Option (State × List Empty) := (s.move head a).map fun t => (t, [])

/-- A Codex session has a connected wrapper. -/
def serves (id : ℕ) : Bool := s.reg.connected "codex" id

/-- No handler is running. -/
def AtRest : Prop := ∀ x ∈ s.conns, x.phase = .looping ∨ x.phase = .finished

instance : Decidable s.AtRest := inferInstanceAs (Decidable (∀ x ∈ s.conns, _))

end State

/-- The handler will put a block in. -/
def Phase.willInject : Phase → Bool
  | .snapshot | .injecting _ => true
  | _ => false

/-- The handler will put a block in or look whether to take it out. -/
def Phase.pending : Phase → Bool
  | .snapshot | .injecting _ | .removing => true
  | .cleanup endedProvider => endedProvider = some "codex"
  | _ => false

namespace State

variable (head : Bytes) (s : State)

/-- Of the other handlers one is of the kind. -/
def others (p : Phase → Bool) (c : ℕ) : Prop :=
  ∃ (d : ℕ) (x : Conn), s.conns[d]? = some x ∧ d ≠ c ∧ p x.phase = true

/-- The last block put in is of a session with a wrapper; where nothing is put in or taken
out, the block is of such a session, or there is no need for one; and it is taken out
while no Codex session has a wrapper. Else another handler comes after. -/
def undisturbed : Action → Prop
  | .snapshot c ids => ids = [] →
      ((∀ id, HasHook head s.config id → s.serves id = true) ∨ s.others Phase.pending c) ∧
        ((∃ id, HasHook head s.config id) ∨ (∀ id, s.serves id = false) ∨ s.others Phase.willInject c)
  | .inject c => ∀ id i, s.conns[c]? = some ⟨id, .injecting [i]⟩ → s.serves i = true ∨ s.others Phase.pending c
  | .cleanup c => ∀ id, s.conns[c]? = some ⟨id, .cleanup (some "codex")⟩ → activeCodex s.reg ≠ [] →
      (∀ id, HasHook head s.config id → s.serves id = true) ∨ s.others Phase.pending c
  | .remove c => (∀ id, s.serves id = false) ∨ s.others Phase.willInject c
  | _ => True

/-- One of the handlers is of the kind. -/
def any (p : Phase → Bool) : Prop := ∃ (d : ℕ) (x : Conn), s.conns[d]? = some x ∧ p x.phase = true

/-- What the file holds, and who will still see to it. -/
structure Kept (hook : Option ℕ) : Prop where
  holds : Holds head s.config hook
  right : ∀ id, hook = some id → s.serves id = true ∨ s.any Phase.pending
  there : hook ≠ none ∨ (∀ id, s.serves id = false) ∨ s.any Phase.willInject

variable {head s} {t : State} {c id : ℕ} {q : Phase} {p : Phase → Bool} {x : Conn} {hook : Option ℕ}

theorem any_of_others (h : s.others p c) (ht : t.conns = s.conns.set c x) : t.any p := by
  obtain ⟨d, y, hd, hne, hp⟩ := h
  exact ⟨d, y, by rw [ht, List.getElem?_set_ne hne.symm, hd], hp⟩

theorem any_of_self {y : Conn} (hc : s.conns[c]? = some y) (ht : t.conns = s.conns.set c x)
    (hp : p x.phase = true) : t.any p :=
  ⟨c, x, by rw [ht, List.getElem?_set_self (List.getElem?_eq_some_iff.1 hc).1], hp⟩

/-- A step of a handler that was not of the kind. -/
theorem any_of_any {y : Conn} (h : s.any p) (hc : s.conns[c]? = some y) (hy : p y.phase = false)
    (ht : t.conns = s.conns.set c x) : t.any p := by
  obtain ⟨d, z, hd, hp⟩ := h
  refine any_of_others ⟨d, z, hd, ?_, hp⟩ ht
  rintro rfl
  obtain rfl := Option.some.inj (hc.symm.trans hd)
  rw [hy] at hp
  cases hp

theorem Kept.store (h : s.Kept head hook) (ses : LiveSession) :
    Kept head { s with
      reg := s.reg.store id ses s.conns.length
      conns := s.conns ++ [⟨id, .snapshot⟩] } hook := by
  have hlast : (s.conns ++ [⟨id, .snapshot⟩])[s.conns.length]? = some ⟨id, .snapshot⟩ := by simp
  exact ⟨h.holds, fun _ _ => .inr ⟨_, _, hlast, rfl⟩, .inr (.inr ⟨_, _, hlast, rfl⟩)⟩

theorem Kept.setState (h : s.Kept head hook) (state : SessionState) :
    Kept head { s with reg := s.reg.setState id state } hook := by
  have hserves : ∀ i, serves { s with reg := s.reg.setState id state } i = s.serves i :=
    fun i => Registry.connected_setState
  exact ⟨h.holds, fun i hi => by rw [hserves]; exact h.right i hi,
    h.there.imp_right (Or.imp_left fun hall i => (hserves i).trans (hall i))⟩

/-- A handler goes on that had nothing more to see to. -/
theorem Kept.setPhase (h : s.Kept head hook) (hc : s.conns[c]? = some x) (hp : x.phase.pending = false) :
    Kept head (s.setPhase c id q) hook := by
  have hi : x.phase.willInject = false := by
    obtain ⟨i, ph⟩ := x
    cases ph <;> first | rfl | exact absurd hp (by simp [Phase.pending])
  exact ⟨h.holds, fun i hi => (h.right i hi).imp_right fun ha => any_of_any ha hc hp rfl,
    h.there.imp_right (Or.imp_right fun ha => any_of_any ha hc hi rfl)⟩

theorem Kept.snapshot (hh : CleanHead head) (h : s.Kept head hook) {ids : List ℕ}
    (hc : s.conns[c]? = some ⟨id, .snapshot⟩) (hok : s.undisturbed head (.snapshot c ids)) :
    Kept head (s.setPhase c id (if ids = [] then .injected else .injecting ids)) hook := by
  split_ifs with hids
  · obtain ⟨h1, h2⟩ := hok hids
    refine ⟨h.holds, fun i hi => ?_, ?_⟩
    · rcases h1 with h1 | h1
      · exact .inl (h1 i ((hasHook_iff hh h.holds).2 hi))
      · exact .inr (any_of_others h1 rfl)
    · rcases h2 with ⟨i, hi⟩ | h2 | h2
      · exact .inl (by rw [(hasHook_iff hh h.holds).1 hi]; exact Option.some_ne_none i)
      · exact .inr (.inl h2)
      · exact .inr (.inr (any_of_others h2 rfl))
  · exact ⟨h.holds, fun _ _ => .inr (any_of_self hc rfl rfl), .inr (.inr (any_of_self hc rfl rfl))⟩

theorem Kept.inject (hh : CleanHead head) (h : s.Kept head hook) {i : ℕ} {ids : List ℕ}
    (hc : s.conns[c]? = some ⟨id, .injecting (i :: ids)⟩) (hok : s.undisturbed head (.inject c)) :
    Kept head { s.setPhase c id (if ids = [] then .injected else .injecting ids) with
      config := injectCodexStopHook head i s.config } (some i) := by
  refine ⟨injectCodexStopHook_holds hh h.holds i, fun j hj => ?_, .inl (Option.some_ne_none i)⟩
  obtain rfl := Option.some.inj hj
  split_ifs with hids
  · subst hids
    exact (hok id i hc).imp_right fun ho => any_of_others ho rfl
  · exact .inr (any_of_self hc rfl rfl)

/-- A session that loses its wrapper is looked after by the end of its connection. -/
theorem Kept.disconnect (h : s.Kept head hook) (hc : s.conns[c]? = some ⟨id, .looping⟩) :
    Kept head { s.setPhase c id (.cleanup ((s.reg.sessions.lookup id).map (·.provider))) with
      reg := s.reg.disconnect id c } hook := by
  have hserves : ∀ i, serves { s.setPhase c id (.cleanup ((s.reg.sessions.lookup id).map (·.provider))) with
      reg := s.reg.disconnect id c } i =
        (s.serves i && !(i = id && s.reg.wrappers.lookup id = some c)) :=
    fun i => Registry.connected_disconnect
  refine ⟨h.holds, fun i hi => ?_, ?_⟩
  · rcases h.right i hi with hs | ha
    · by_cases hid : i = id ∧ s.reg.wrappers.lookup id = some c
      · obtain ⟨rfl, -⟩ := hid
        refine .inr (any_of_self hc rfl ?_)
        rw [serves, Registry.connected, Bool.and_eq_true, Option.any_eq_true] at hs
        obtain ⟨ses, hses, hp⟩ := hs.1
        rw [hses, Option.map_some, of_decide_eq_true hp]
        rfl
      · refine .inl ?_
        rw [hserves, hs, ← Bool.decide_and, decide_eq_false hid]
        rfl
    · exact .inr (any_of_any ha hc rfl rfl)
  · refine h.there.imp_right (Or.imp (fun hall i => ?_) fun ha => any_of_any ha hc rfl rfl)
    rw [hserves, hall i, Bool.false_and]

theorem Kept.cleanup (hh : CleanHead head) (h : s.Kept head hook) {endedProvider : Option String}
    (hc : s.conns[c]? = some ⟨id, .cleanup endedProvider⟩) (hok : s.undisturbed head (.cleanup c)) :
    Kept head (s.setPhase c id
      (if endedProvider = some "codex" ∧ activeCodex s.reg = [] then .removing else .finished)) hook := by
  by_cases hp : endedProvider = some "codex"
  · subst hp
    have hthere : hook ≠ none ∨ (∀ i, s.serves i = false) ∨ (s.setPhase c id
        (if some "codex" = some "codex" ∧ activeCodex s.reg = [] then .removing else .finished)).any
          Phase.willInject :=
      h.there.imp_right (Or.imp_right fun ha => any_of_any ha hc rfl rfl)
    refine ⟨h.holds, fun i hi => ?_, hthere⟩
    by_cases ha : activeCodex s.reg = []
    · exact .inr (any_of_self hc rfl (by rw [if_pos ⟨rfl, ha⟩]; rfl))
    · refine (hok id hc ha).imp (fun hall => ?_) fun ho => any_of_others ho rfl
      exact hall i ((hasHook_iff hh h.holds).2 hi)
  · exact h.setPhase hc (decide_eq_false hp)

theorem Kept.remove (hh : CleanHead head) (h : s.Kept head hook) (hok : s.undisturbed head (.remove c)) :
    Kept head { s.setPhase c id .finished with config := removeCodexStopHook s.config } none :=
  ⟨removeCodexStopHook_holds hh h.holds, fun _ hi => (by cases hi),
    .inr (hok.imp_right fun ho => any_of_others ho rfl)⟩

theorem Kept.move (hh : CleanHead head) (h : s.Kept head hook) {a : Action} (hok : s.undisturbed head a)
    (hs : s.move head a = some t) : ∃ hook', t.Kept head hook' := by
  cases a with
  | store id ses =>
    obtain rfl := Option.some.inj hs
    exact ⟨hook, h.store ses⟩
  | setState id state =>
    obtain rfl := Option.some.inj hs
    exact ⟨hook, h.setState state⟩
  | snapshot c ids =>
    simp only [State.move] at hs
    split at hs
    · rename_i id hc
      by_cases hperm : ids.Perm (activeCodex s.reg)
      · rw [if_pos hperm] at hs
        obtain rfl := Option.some.inj hs
        exact ⟨hook, h.snapshot hh hc hok⟩
      · rw [if_neg hperm] at hs
        cases hs
    · cases hs
  | inject c =>
    simp only [State.move] at hs
    split at hs
    · rename_i id i ids hc
      obtain rfl := Option.some.inj hs
      exact ⟨some i, h.inject hh hc hok⟩
    · cases hs
  | announce c =>
    simp only [State.move] at hs
    split at hs
    · rename_i id hc
      obtain rfl := Option.some.inj hs
      exact ⟨hook, h.setPhase hc rfl⟩
    · cases hs
  | disconnect c =>
    simp only [State.move] at hs
    split at hs
    · rename_i id hc
      obtain rfl := Option.some.inj hs
      exact ⟨hook, h.disconnect hc⟩
    · cases hs
  | cleanup c =>
    simp only [State.move] at hs
    split at hs
    · rename_i id endedProvider hc
      obtain rfl := Option.some.inj hs
      exact ⟨hook, h.cleanup hh hc hok⟩
    · cases hs
  | remove c =>
    simp only [State.move] at hs
    split at hs
    · rename_i id hc
      obtain rfl := Option.some.inj hs
      exact ⟨none, h.remove hh hok⟩
    · cases hs

end State

open State

end ManyAiCli.Hub.UsageHooks
