import ManyAiCli.Hub.SpawnChild
import Mathlib.Data.List.AList

/-! The Hub's maps of sessions and of wrappers, as far as the files are concerned that it
keeps for the sessions: each change is one stretch under `sessionsMu`. -/

namespace ManyAiCli.Hub

open Spawn (SessionState isTerminalSessionState)

/-- Of a session object: what it runs, where, and its state. -/
structure LiveSession where
  provider : String
  cwd : List Char
  state : SessionState
  deriving DecidableEq, Repr

structure Registry where
  sessions : AList fun _ : ℕ => LiveSession
  /-- The connection of each wrapper. -/
  wrappers : AList fun _ : ℕ => ℕ
  deriving DecidableEq

namespace Registry

variable (r : Registry)

def empty : Registry := ⟨∅, ∅⟩

/-- A registration or a reattach stores its session and its wrapper. -/
def store (id : ℕ) (ses : LiveSession) (c : ℕ) : Registry :=
  ⟨r.sessions.insert id ses, r.wrappers.insert id c⟩

def setState (id : ℕ) (state : SessionState) : Registry :=
  match r.sessions.lookup id with
  | none => r
  | some ses => { r with sessions := r.sessions.insert id { ses with state } }

def dropWrapper (id c : ℕ) : Registry :=
  if r.wrappers.lookup id = some c then { r with wrappers := r.wrappers.erase id } else r

/-- A state that is terminal already is kept. -/
def markDisconnected (id : ℕ) : Registry :=
  match r.sessions.lookup id with
  | none => r
  | some ses => if isTerminalSessionState ses.state then r else r.setState id .disconnected

/-- The end of connection `c` in `wrapperMessageLoop`. -/
def disconnect (id c : ℕ) : Registry := (r.dropWrapper id c).markDisconnected id

/-- `wrapperStillRegistered`. -/
def stillRegistered (id c : ℕ) : Bool := (r.sessions.lookup id).isSome && r.wrappers.lookup id = some c

/-- A session of the provider has a connected wrapper. -/
def connected (provider : String) (id : ℕ) : Bool :=
  (r.sessions.lookup id).any (·.provider = provider) && (r.wrappers.lookup id).isSome

/-- The states that both the usage hooks and the approval rules take for ended. -/
def isEnded : SessionState → Bool
  | .completed | .error | .disconnected => true
  | _ => false

variable {r} {id id' c : ℕ} {ses : LiveSession} {provider : String} {state : SessionState}

@[simp] theorem sessions_store : (r.store id ses c).sessions = r.sessions.insert id ses := rfl

@[simp] theorem wrappers_store : (r.store id ses c).wrappers = r.wrappers.insert id c := rfl

@[simp] theorem wrappers_setState : (r.setState id state).wrappers = r.wrappers := by
  unfold setState
  split <;> rfl

/-- A session keeps its provider and directory when its state changes. -/
theorem lookup_setState : (r.setState id state).sessions.lookup id' =
    if id' = id then (r.sessions.lookup id).map ({ · with state }) else r.sessions.lookup id' := by
  unfold setState
  split_ifs with h
  · subst h
    split <;> rename_i hl <;> simp [hl]
  · split
    · rfl
    · exact AList.lookup_insert_ne h

@[simp] theorem connected_setState : (r.setState id state).connected provider id' = r.connected provider id' := by
  rw [connected, connected, wrappers_setState, lookup_setState]
  split_ifs with h
  · subst h
    cases r.sessions.lookup id' <;> rfl
  · rfl

@[simp] theorem connected_markDisconnected :
    (r.markDisconnected id).connected provider id' = r.connected provider id' := by
  unfold markDisconnected
  split
  · rfl
  · split_ifs
    · rfl
    · exact connected_setState

theorem lookup_dropWrapper : (r.dropWrapper id c).wrappers.lookup id' =
    if id' = id ∧ r.wrappers.lookup id = some c then none else r.wrappers.lookup id' := by
  unfold dropWrapper
  by_cases hw : r.wrappers.lookup id = some c
  · rw [if_pos hw]
    by_cases hid : id' = id
    · rw [if_pos ⟨hid, hw⟩, hid]
      exact AList.lookup_erase id r.wrappers
    · rw [if_neg fun h => hid h.1]
      exact AList.lookup_erase_ne hid
  · rw [if_neg hw, if_neg fun h => hw h.2]

@[simp] theorem sessions_dropWrapper : (r.dropWrapper id c).sessions = r.sessions := by
  unfold dropWrapper
  split_ifs <;> rfl

/-- Only the wrapper of the session whose connection ends goes. -/
theorem connected_disconnect : (r.disconnect id c).connected provider id' =
    (r.connected provider id' && !(id' = id && r.wrappers.lookup id = some c)) := by
  rw [disconnect, connected_markDisconnected, connected, connected, sessions_dropWrapper, lookup_dropWrapper]
  by_cases h : id' = id ∧ r.wrappers.lookup id = some c
  · simp [h]
  · rw [if_neg h, ← Bool.decide_and, decide_eq_false h, Bool.not_false, Bool.and_true]

@[simp] theorem wrappers_markDisconnected : (r.markDisconnected id).wrappers = r.wrappers := by
  unfold markDisconnected
  split
  · rfl
  · split_ifs
    · rfl
    · exact wrappers_setState

theorem wrappers_disconnect : (r.disconnect id c).wrappers.lookup id' =
    if id' = id ∧ r.wrappers.lookup id = some c then none else r.wrappers.lookup id' := by
  rw [disconnect, wrappers_markDisconnected, lookup_dropWrapper]

theorem sessions_disconnect_of_ne (h : id' ≠ id) :
    (r.disconnect id c).sessions.lookup id' = r.sessions.lookup id' := by
  rw [disconnect, markDisconnected, sessions_dropWrapper]
  split
  · rw [sessions_dropWrapper]
  · split_ifs
    · rw [sessions_dropWrapper]
    · rw [lookup_setState, if_neg h, sessions_dropWrapper]

/-- The session whose connection ends is ended, unless its state is terminal already. -/
theorem sessions_disconnect_self {ses' : LiveSession}
    (h : (r.disconnect id c).sessions.lookup id = some ses') :
    ses'.state = .disconnected ∨ r.sessions.lookup id = some ses' := by
  rw [disconnect, markDisconnected, sessions_dropWrapper] at h
  split at h
  · rw [sessions_dropWrapper] at h
    exact .inr h
  · split_ifs at h
    · rw [sessions_dropWrapper] at h
      exact .inr h
    · rw [lookup_setState, if_pos rfl, Option.map_eq_some_iff] at h
      obtain ⟨_, -, rfl⟩ := h
      exact .inl rfl

end Registry

end ManyAiCli.Hub
