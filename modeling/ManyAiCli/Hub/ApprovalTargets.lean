import ManyAiCli.Hub.Registry
import ManyAiCli.Runs.Machine
import Mathlib.Data.Finset.Union

/-! The instruction files that the Hub keeps the approval rules in. Each handler reads the
sessions, the files it knows and the feature's switch in stretches of their own and
rewrites the files one by one; between any two of these steps other handlers run. A file is
its path, and holds the rules or not. No call of the file system fails. -/

namespace ManyAiCli.Hub.ApprovalTargets

open Runs
open Spawn (SessionState)

abbrev Path := List Char

/-- Where the files are; `root` is `instructionRootForCWD`, `none` for no root. -/
structure Places where
  claudeMd : Path
  codexAgents : Path
  root : List Char → Option Path

def agentsMd (root : Path) : Path := root ++ "/AGENTS.md".toList

def isAIProvider (provider : String) : Bool :=
  ["claude", "codex", "copilot", "cursor-agent", "opencode", "grok"].contains provider

variable (pl : Places)

def projectAgentsApprovalRuleTarget (cwd : List Char) : Finset Path :=
  match pl.root cwd with
  | none => ∅
  | some root => {agentsMd root}

def providerApprovalRuleTargets (provider : String) (cwd : List Char) : Finset Path :=
  if provider = "claude" then {pl.claudeMd}
  else if provider = "codex" then {pl.codexAgents}
  else if provider = "copilot" ∨ provider = "cursor-agent" ∨ provider = "grok" then
    projectAgentsApprovalRuleTarget pl cwd
  else ∅

def legacyApprovalRuleTargets (provider : String) (cwd : List Char) : Finset Path :=
  if provider = "codex" then projectAgentsApprovalRuleTarget pl cwd else ∅

/-- The session counts, with a wrapper and in no state that is ended. -/
def isActive (r : Registry) (id : ℕ) : Bool :=
  (r.wrappers.lookup id).isSome &&
    (r.sessions.lookup id).any fun ses => !Registry.isEnded ses.state

/-- `activeApprovalRuleSessionSnaps`. -/
def activeSessions (r : Registry) : Finset ℕ :=
  r.sessions.keys.toFinset.filter fun id =>
    isActive r id && (r.sessions.lookup id).any fun ses => isAIProvider ses.provider

/-- The files of the session, by a rule for its provider and directory. -/
def filesOf (targets : String → List Char → Finset Path) (r : Registry) (id : ℕ) : Finset Path :=
  match r.sessions.lookup id with
  | none => ∅
  | some ses => targets ses.provider ses.cwd

def activeApprovalRuleTargets (r : Registry) : Finset Path :=
  (activeSessions r).biUnion (filesOf (providerApprovalRuleTargets pl) r)

def activeLegacyApprovalRuleTargets (r : Registry) : Finset Path :=
  (activeSessions r).biUnion (filesOf (legacyApprovalRuleTargets pl) r)

/-- The next step of a handler. The files left to write and those written are sets, as the
order of a map is any order. -/
inductive Phase
  /-- A registration or reattach is about to look at the switch. -/
  | gate
  /-- `injectApprovalRules` is about to read the active targets. -/
  | snapshot
  | injecting (todo done : Finset Path)
  | legacy
  /-- `removeInactiveApprovalRules` is about to add the known targets. -/
  | candidates (ts : Finset Path)
  /-- It is about to read the active targets, which it spares. -/
  | sparing (ts : Finset Path)
  | removing (todo done : Finset Path)
  /-- `removeApprovalRules` is about to read the known, the active and the legacy targets. -/
  | disabling
  | disablingActive (ts : Finset Path)
  | disablingLegacy (ts : Finset Path)
  | announced
  | looping
  | finished
  deriving DecidableEq

/-- The goroutine of a connection or of a request; `loops` while it goes on to the message loop. -/
structure Handler where
  id : ℕ
  loops : Bool
  phase : Phase
  deriving DecidableEq

structure State where
  reg : Registry
  enabled : Bool
  rules : Finset Path
  known : Finset Path
  handlers : List Handler
  deriving DecidableEq

inductive Action
  | register (id : ℕ) (provider : String) (cwd : List Char)
  | reattach (id : ℕ) (provider : String) (cwd : List Char)
  | handleApprovalEnable
  | handleApprovalDisable
  | disconnect (h : ℕ)
  | proceed (h : ℕ)
  | write (h : ℕ) (t : Path)
  deriving DecidableEq

/-- After the last removal. -/
def Handler.leave (x : Handler) : Handler := { x with phase := if x.loops then .announced else .finished }

namespace State

variable (s : State)

def initial (enabled : Bool) : State := ⟨.empty, enabled, ∅, ∅, []⟩

def set (h : ℕ) (x : Handler) : State := { s with handlers := s.handlers.set h x }

def spawn (x : Handler) : State := { s with handlers := s.handlers ++ [x] }

/-- A wrapper is stored with its session. -/
def store (id : ℕ) (ses : LiveSession) : State :=
  { s.spawn ⟨id, true, .gate⟩ with reg := s.reg.store id ses s.handlers.length }

/-- A step without a write. -/
def proceed (h : ℕ) (x : Handler) : Option State :=
  match x.phase with
  | .gate => some (s.set h { x with phase := if s.enabled then .snapshot else .announced })
  | .snapshot => some (s.set h { x with phase := .injecting (activeApprovalRuleTargets pl s.reg) ∅ })
  | .injecting todo done =>
    if todo = ∅ then some { s.set h { x with phase := .legacy } with known := s.known ∪ done } else none
  | .legacy => some (s.set h { x with phase := .candidates (activeLegacyApprovalRuleTargets pl s.reg) })
  | .candidates ts =>
    some (s.set h (if ts ∪ s.known = ∅ then x.leave else { x with phase := .sparing (ts ∪ s.known) }))
  | .sparing ts => some (s.set h { x with phase := .removing (ts \ activeApprovalRuleTargets pl s.reg) ∅ })
  | .removing todo done => if todo = ∅ then some { s.set h x.leave with known := s.known \ done } else none
  | .disabling => some (s.set h { x with phase := .disablingActive s.known })
  | .disablingActive ts =>
    some (s.set h { x with phase := .disablingLegacy (ts ∪ activeApprovalRuleTargets pl s.reg) })
  | .disablingLegacy ts =>
    some (s.set h { x with phase := .removing (ts ∪ activeLegacyApprovalRuleTargets pl s.reg) ∅ })
  | .announced => some (s.set h { x with phase := if s.reg.stillRegistered x.id h then .looping else .finished })
  | .looping | .finished => none

/-- `InjectRules` or `RemoveRules` on a file. -/
def write (h : ℕ) (x : Handler) (t : Path) : Option State :=
  match x.phase with
  | .injecting todo done =>
    if t ∈ todo then
      some { s.set h { x with phase := .injecting (todo.erase t) (insert t done) } with
        rules := insert t s.rules }
    else none
  | .removing todo done =>
    if t ∈ todo then
      some { s.set h { x with phase := .removing (todo.erase t) (insert t done) } with
        rules := s.rules.erase t }
    else none
  | _ => none

def move : Action → Option State
  | .register id provider cwd => some (s.store id ⟨provider, cwd, .standby⟩)
  | .reattach id provider cwd => some (s.store id ⟨provider, cwd, .running⟩)
  | .handleApprovalEnable => some { s.spawn ⟨0, false, .snapshot⟩ with enabled := true }
  | .handleApprovalDisable => some { s.spawn ⟨0, false, .disabling⟩ with enabled := false }
  | .disconnect h =>
    match s.handlers[h]? with
    | some ⟨id, _, .looping⟩ =>
      some { s.set h ⟨id, false, .candidates (filesOf (providerApprovalRuleTargets pl) s.reg id)⟩ with
        reg := s.reg.disconnect id h }
    | _ => none
  | .proceed h => s.handlers[h]?.bind (s.proceed pl h)
  | .write h t => s.handlers[h]?.bind fun x => s.write h x t

def step (a : Action) : Option (State × List Empty) := (s.move pl a).map fun t => (t, [])

/-- No handler is running. -/
def AtRest : Prop := ∀ x ∈ s.handlers, x.phase = .looping ∨ x.phase = .finished

instance : Decidable s.AtRest := inferInstanceAs (Decidable (∀ x ∈ s.handlers, _))

end State

/-! ### The active targets -/

variable {pl} {r : Registry} {t : Path} {id : ℕ}

theorem isAIProvider_of_mem {provider : String} {cwd : List Char}
    (h : t ∈ providerApprovalRuleTargets pl provider cwd) : isAIProvider provider = true := by
  unfold providerApprovalRuleTargets at h
  split_ifs at h with h1 h2 h3
  · rw [h1]; rfl
  · rw [h2]; rfl
  · rcases h3 with rfl | rfl | rfl <;> rfl
  · cases h

theorem mem_active_iff : t ∈ activeApprovalRuleTargets pl r ↔ ∃ id ses,
    r.sessions.lookup id = some ses ∧ r.wrappers.lookup id ≠ none ∧ Registry.isEnded ses.state = false ∧
      t ∈ providerApprovalRuleTargets pl ses.provider ses.cwd := by
  simp only [activeApprovalRuleTargets, activeSessions, Finset.mem_biUnion, Finset.mem_filter,
    List.mem_toFinset, Bool.and_eq_true, isActive]
  constructor
  · rintro ⟨id, ⟨-, ⟨hw, hs⟩, -⟩, ht⟩
    obtain ⟨ses, hses, he⟩ := (Option.any_eq_true _ _).1 hs
    rw [filesOf, hses] at ht
    exact ⟨id, ses, hses, Option.isSome_iff_ne_none.1 hw, by simpa using he, ht⟩
  · rintro ⟨id, ses, hses, hw, he, ht⟩
    refine ⟨id, ⟨?_, ⟨Option.isSome_iff_ne_none.2 hw, ?_⟩, ?_⟩, ?_⟩
    · rw [← AList.mem_keys, ← AList.lookup_isSome, hses]
      rfl
    · simp [hses, he]
    · simp [hses, isAIProvider_of_mem ht]
    · rwa [filesOf, hses]

/-- A store under an ID without a wrapper ends no session. -/
theorem mem_active_store (hw : r.wrappers.lookup id = none) (ses : LiveSession) (c : ℕ)
    (h : t ∈ activeApprovalRuleTargets pl r) : t ∈ activeApprovalRuleTargets pl (r.store id ses c) := by
  obtain ⟨i, ses', hs, hi, he, ht⟩ := mem_active_iff.1 h
  have hne : i ≠ id := by
    rintro rfl
    exact hi hw
  exact mem_active_iff.2 ⟨i, ses', by rw [Registry.sessions_store, AList.lookup_insert_ne hne, hs],
    by rwa [Registry.wrappers_store, AList.lookup_insert_ne hne], he, ht⟩

/-- The end of a connection takes out the files of its session at most. -/
theorem mem_active_disconnect (c : ℕ) (h : t ∈ activeApprovalRuleTargets pl r) :
    t ∈ activeApprovalRuleTargets pl (r.disconnect id c) ∨
      t ∈ filesOf (providerApprovalRuleTargets pl) r id := by
  obtain ⟨i, ses, hs, hi, he, ht⟩ := mem_active_iff.1 h
  by_cases hid : i = id
  · subst hid
    refine .inr ?_
    rwa [filesOf, hs]
  · refine .inl (mem_active_iff.2 ⟨i, ses, ?_, ?_, he, ht⟩)
    · rw [Registry.sessions_disconnect_of_ne hid, hs]
    · rwa [Registry.wrappers_disconnect, if_neg fun h => hid h.1]

theorem mem_active_of_disconnect {c : ℕ} (h : t ∈ activeApprovalRuleTargets pl (r.disconnect id c)) :
    t ∈ activeApprovalRuleTargets pl r := by
  obtain ⟨i, ses, hs, hi, he, ht⟩ := mem_active_iff.1 h
  rw [Registry.wrappers_disconnect] at hi
  have hw : r.wrappers.lookup i ≠ none := by
    split_ifs at hi
    · exact absurd rfl hi
    · exact hi
  by_cases hid : i = id
  · subst hid
    rcases Registry.sessions_disconnect_self hs with hd | hs
    · rw [hd] at he
      cases he
    · exact mem_active_iff.2 ⟨i, ses, hs, hw, he, ht⟩
  · rw [Registry.sessions_disconnect_of_ne hid] at hs
    exact mem_active_iff.2 ⟨i, ses, hs, hw, he, ht⟩

end ManyAiCli.Hub.ApprovalTargets
