import Mathlib.Logic.Function.Basic
import ManyAiCli.Runs.Machine

/-! The dismissal of ended sessions by a browser. Five seconds after a `session_end` with an error
or a lost connection, a timer dismisses the session, and the hub then closes its connection and
drops its input and its worktree. The timer is cleared when the session is removed and when the
socket closes, but not when the session is alive again. -/

namespace ManyAiCli.Web.AutoDismiss

open Runs

/-! ### The hub -/

/-- What a dismissal takes from a session. -/
structure Hub (W : Type) where
  sessions : ℕ → Option String
  wrappers : ℕ → Bool
  pendingInput : ℕ → List String
  worktrees : ℕ → Option W

variable {W : Type}

/-- `cleanup` says what is left of a worktree. -/
def Hub.handleDismiss (cleanup : W → Option W) (hub : Hub W) (id : ℕ) : Hub W :=
  if (hub.sessions id).isNone then hub
  else
    { sessions := Function.update hub.sessions id none
      wrappers := Function.update hub.wrappers id false
      pendingInput := Function.update hub.pendingInput id []
      worktrees := Function.update hub.worktrees id ((hub.worktrees id).bind cleanup) }

/-- The session with all that belongs to it is as it was. -/
def Hub.Keeps (id : ℕ) (hub hub' : Hub W) : Prop :=
  hub'.sessions id = hub.sessions id ∧ hub'.wrappers id = hub.wrappers id ∧
    hub'.pendingInput id = hub.pendingInput id ∧ hub'.worktrees id = hub.worktrees id

def isTerminalSessionState (state : String) : Bool :=
  state ∈ ["completed", "error", "disconnected", "done", "timeout", "dismissed"]

/-- The browser's sessions, timers and socket. `alive` are the sessions whose last message with a
state was an update or an entry of a snapshot with a state that is not terminal. -/
structure UI where
  isOpen : Bool := false
  hubInstance : String := ""
  sessions : ℕ → Option String := fun _ => none
  terminals : ℕ → Bool := fun _ => false
  chatHistory : ℕ → Bool := fun _ => false
  autoDismissTimers : ℕ → Bool := fun _ => false
  alive : ℕ → Bool := fun _ => false

/-- A `session_dismiss`, whether the timer sends it and whether the session was alive. -/
structure Sent where
  id : ℕ
  byTimer : Bool
  alive : Bool
  deriving DecidableEq, Repr

inductive Event where
  /-- Messages of the hub; a state that is empty or not there is none. -/
  | snapshot (hubInstance : String) (entries : List (ℕ × String))
  | sessionUpdate (id : ℕ) (state : Option String)
  | sessionEnd (id : ℕ) (state : Option String)
  | sessionRemoved (id : ℕ)
  /-- The five seconds of a timer are over. -/
  | timeout (id : ℕ)
  /-- The user closes a session. -/
  | dismiss (id : ℕ)
  /-- The socket closes, another one is made, and is open. -/
  | close
  | connect
  | opened
  /-- Terminals and chat histories come and go. -/
  | surfaces (terminals chatHistory : ℕ → Bool)

def UI.requestSessionDismiss (s : UI) (byTimer : Bool) (id : ℕ) : List Sent :=
  if s.isOpen then [⟨id, byTimer, s.alive id⟩] else []

def UI.dismissSession (s : UI) (byTimer : Bool) (id : ℕ) : List Sent :=
  if (s.sessions id).isNone then [] else s.requestSessionDismiss byTimer id

def UI.removeLocalSession (s : UI) (id : ℕ) : UI :=
  { s with
    autoDismissTimers := Function.update s.autoDismissTimers id false
    sessions := Function.update s.sessions id none
    terminals := Function.update s.terminals id false
    chatHistory := Function.update s.chatHistory id false }

/-- The session shows up in the browser. -/
def UI.known (s : UI) (id : ℕ) : Bool :=
  s.terminals id || s.chatHistory id || (s.sessions id).isSome

def UI.purgeLocalStateForHubRestart (s : UI) : UI :=
  { s with
    autoDismissTimers := fun id => s.autoDismissTimers id && !s.known id
    sessions := fun _ => none
    terminals := fun _ => false
    chatHistory := fun _ => false }

def UI.setAlive (s : UI) (id : ℕ) (alive : Bool) : UI :=
  { s with alive := Function.update s.alive id alive }

def UI.setSession (s : UI) (id : ℕ) (state : String) : UI :=
  { s with sessions := Function.update s.sessions id (some state) }

/-- Another instance of the hub than before. -/
def UI.meetInstance (s : UI) (hubInstance : String) : UI :=
  if hubInstance = "" then s
  else
    { (if s.hubInstance ≠ "" ∧ hubInstance ≠ s.hubInstance then s.purgeLocalStateForHubRestart else s)
      with hubInstance }

def UI.snapshotEntry (r : UI × List Sent) (e : ℕ × String) : UI × List Sent :=
  let s := r.1.setAlive e.1 (!isTerminalSessionState e.2)
  if e.2 = "completed" then (s, r.2 ++ s.requestSessionDismiss false e.1)
  else (s.setSession e.1 e.2, r.2)

def UI.sessionUpdate (s : UI) (id : ℕ) : Option String → UI × List Sent
  | none => (s.setSession id ((s.sessions id).getD ""), [])
  | some state =>
    let s := s.setAlive id (!isTerminalSessionState state)
    if state = "completed" then (s.removeLocalSession id, s.requestSessionDismiss false id)
    else (s.setSession id state, [])

def UI.armTimer (s : UI) (id : ℕ) : UI :=
  { s with autoDismissTimers := Function.update s.autoDismissTimers id true }

def UI.sessionEnd (s : UI) (id : ℕ) (state : Option String) : UI × List Sent :=
  let s := s.setAlive id false
  if state = some "completed" then (s.removeLocalSession id, s.requestSessionDismiss false id)
  else
    let s := if (s.sessions id).isSome then s.setSession id (state.getD "disconnected") else s
    (if state = some "error" ∨ state = some "disconnected" then s.armTimer id else s, [])

def step (s : UI) : Event → Option (UI × List Sent)
  | .snapshot hubInstance entries => some (entries.foldl UI.snapshotEntry (s.meetInstance hubInstance, []))
  | .sessionUpdate id state => some (s.sessionUpdate id state)
  | .sessionEnd id state => some (s.sessionEnd id state)
  | .sessionRemoved id => some ((s.setAlive id false).removeLocalSession id, [])
  | .timeout id =>
    if s.autoDismissTimers id then
      let s := { s with autoDismissTimers := Function.update s.autoDismissTimers id false }
      some (s, s.dismissSession true id)
    else none
  | .dismiss id => some (s, s.dismissSession false id)
  | .close => some ({ s with isOpen := false, sessions := fun _ => none, autoDismissTimers := fun _ => false
      }, [])
  | .connect => some ({ s with isOpen := false }, [])
  | .opened => some ({ s with isOpen := true }, [])
  | .surfaces terminals chatHistory => some ({ s with terminals, chatHistory }, [])

/-! ### A timer that is pending is of a session that has ended -/

variable {s t : UI} {a : Event} {es : List Sent} {id : ℕ}

def TimersDead (s : UI) : Prop := ∀ id, s.autoDismissTimers id = true → s.alive id = false

theorem TimersDead.clear (h : TimersDead s) {timers : ℕ → Bool}
    (hle : ∀ id, timers id = true → s.autoDismissTimers id = true) (ht : t.autoDismissTimers = timers)
    (ha : t.alive = s.alive) : TimersDead t := by
  intro id hid
  rw [ha]
  exact h id (hle id (ht ▸ hid))

theorem TimersDead.setAlive (h : TimersDead s) {alive : Bool}
    (hd : alive = true → s.autoDismissTimers id = false) : TimersDead (s.setAlive id alive) := by
  intro id' hid'
  change Function.update s.alive id alive id' = false
  rw [Function.update_apply]
  split
  next heq =>
    cases alive with
    | false => rfl
    | true => exact absurd (hid'.symm.trans (heq ▸ hd rfl)) (by decide)
  next => exact h id' hid'

theorem TimersDead.setSession (h : TimersDead s) (id : ℕ) (state : String) :
    TimersDead (s.setSession id state) :=
  h.clear (fun _ hid => hid) rfl rfl

theorem update_false_le {f : ℕ → Bool} {i : ℕ} (id : ℕ) (h : Function.update f id false i = true) :
    f i = true := by
  rw [Function.update_apply] at h
  split at h
  next => cases h
  next => exact h

theorem TimersDead.removeLocalSession (h : TimersDead s) (id : ℕ) : TimersDead (s.removeLocalSession id) :=
  h.clear (fun _ => update_false_le id) rfl rfl

theorem TimersDead.meetInstance (h : TimersDead s) (hubInstance : String) :
    TimersDead (s.meetInstance hubInstance) := by
  rw [UI.meetInstance]
  split
  next => exact h
  next =>
    split
    next => exact h.clear (fun _ hid => (Bool.and_eq_true_iff.mp hid).1) rfl rfl
    next => exact h.clear (fun _ hid => hid) rfl rfl

theorem TimersDead.armTimer (h : TimersDead s) (hd : s.alive id = false) : TimersDead (s.armTimer id) := by
  intro id' hid'
  by_cases heq : id' = id
  · rw [heq]
    exact hd
  · apply h id'
    change Function.update s.autoDismissTimers id true id' = true at hid'
    rwa [Function.update_of_ne heq] at hid'

/-- A message that the session has ended. -/
def ends (id : ℕ) : Event → Bool
  | .snapshot _ entries => entries.any fun e => decide (e.1 = id) && isTerminalSessionState e.2
  | .sessionUpdate id' (some state) => decide (id' = id) && isTerminalSessionState state
  | .sessionEnd id' _ => decide (id' = id)
  | .sessionRemoved id' => decide (id' = id)
  | _ => false

end ManyAiCli.Web.AutoDismiss
