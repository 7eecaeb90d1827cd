import ManyAiCli.Hub.SpawnChild
import ManyAiCli.Runs.Machine
import ManyAiCli.SessionStore.Sessions
import Mathlib.Data.Finset.Erase
import Mathlib.Data.Finset.Insert
import Mathlib.Data.List.AList

/-! The connections of the wrappers with the Hub, from the session ID to the last message
about the session, as far as the maps of the Hub, the `sessions` table and the UIs are
concerned. Every stretch under a lock and every statement is a step, so handlers may
interleave. The table is there and no statement fails. -/

namespace ManyAiCli.Hub.Connections

open SessionStore
open Spawn (SessionState isTerminalSessionState)

/-- The text of a state. -/
def stateText : SessionState → Str
  | .standby => "standby".toList
  | .running => "running".toList
  | .waiting => "waiting".toList
  | .completed => "completed".toList
  | .error => "error".toList
  | .disconnected => "disconnected".toList
  | .done => "done".toList
  | .timeout => "timeout".toList
  | .dismissed => "dismissed".toList

/-- A session object, with the connection that made it. -/
structure Session where
  conn : ℕ
  storeID : ℕ
  cardMeta : SessionCardMeta
  state : SessionState
  endReason : Str := []
  /-- The file of the history is open. -/
  history : Bool := true
  deriving DecidableEq, Repr

/-- The next step of the goroutine of a connection. -/
inductive Phase
  /-- The ID is chosen. -/
  | attach
  | store (storeID : ℕ) (cardMeta : SessionCardMeta)
  | announce
  | looping
  /-- `EndSession`. -/
  | ending (endState : SessionState) (endReason : Str)
  /-- `DeleteSessionUsageStat`. -/
  | deleting
  /-- The broadcast of `session_end`. -/
  | closing
  | finished
  deriving DecidableEq, Repr

structure Conn where
  start : SessionStart
  state : SessionState
  phase : Phase
  deriving DecidableEq, Repr

abbrev Conn.id (x : Conn) : ℕ := x.start.liveSessionID

/-- The next step of `handleDismiss`. -/
inductive Dismissal
  | deleting (id : ℕ)
  | ending (id : ℕ)
  | closing (id : ℕ)
  | finished
  deriving DecidableEq, Repr

structure State where
  nextID : ℕ
  sessions : AList fun _ : ℕ => Session
  wrappers : AList fun _ : ℕ => ℕ
  /-- The sessions with an entry in `usageStats`. -/
  usage : Finset ℕ
  store : Sessions
  conns : List Conn
  dismissals : List Dismissal

inductive UIMessage
  | sessionUpdate
  | sessionEnd
  | sessionRemoved
  deriving DecidableEq, Repr

inductive Event
  /-- `attachStore` has returned the row and the metadata; `row` is the row as it stands. -/
  | attached (liveSessionID storeID : ℕ) (cardMeta : SessionCardMeta) (row : Option SessionRow)
  | ui (id : ℕ) (msg : UIMessage)
  deriving DecidableEq, Repr

/-- `base` is the name of the log file up to the session ID, with its directory. -/
inductive Action
  | register (info : SessionInfo) (label base : Str)
  | reattach (sessionID : ℕ) (info : SessionInfo) (label base : Str)
  | proceed (c : ℕ) (now : Str)
  | dismiss (id : ℕ)
  | proceedDismiss (h : ℕ) (now : Str)
  | setState (id : ℕ) (state : SessionState) (endReason : Str)
  | usage (id : ℕ)
  | update (id : ℕ) (u : Update)
  | restart (now : Str)
  deriving DecidableEq, Repr

/-- `sessionlog.Paths`. -/
def jsonlPath (base : Str) (sessionID : ℕ) : Str :=
  base ++ "_s".toList ++ Nat.toDigits 10 sessionID ++ ".jsonl".toList

/-- The row of the start, and the metadata that is stored for its live session. -/
def attachStore (t : Sessions) (start : SessionStart) : Sessions × ℕ × SessionCardMeta :=
  let (t', storeID) := startSession t start
  (t', storeID, sessionCardMetaByLiveSession t' start.liveSessionID)

/-- The row with the number. -/
def rowOf (t : Sessions) (storeID : ℕ) : Option SessionRow := (t.rows.find? (·.id = storeID)).map (·.val)

/-- Of a session object under the lock that ends a connection. -/
def Session.markDisconnected (ses : Session) : Session :=
  { ses with
    state := if isTerminalSessionState ses.state then ses.state else .disconnected
    history := false }

namespace State

variable (s : State)

def initial : State := ⟨0, ∅, ∅, ∅, .empty, [], []⟩

def setPhase (c : ℕ) (x : Conn) (p : Phase) : State :=
  { s with conns := s.conns.set c { x with phase := p } }

/-- `wrapperStillRegistered`. -/
def stillRegistered (id c : ℕ) : Bool := (s.sessions.lookup id).isSome && s.wrappers.lookup id = some c

def spawn (x : Conn) : State := { s with conns := s.conns ++ [x] }

def register (info : SessionInfo) (label base : Str) : State :=
  let id := s.nextID + 1
  { s.spawn ⟨⟨id, info, label, stateText .standby, jsonlPath base id⟩, .standby, .attach⟩ with nextID := id }

/-- A session ID that has a wrapper is not taken over. -/
def reattach (sessionID : ℕ) (info : SessionInfo) (label base : Str) : State :=
  let id := if s.wrappers.lookup sessionID = none then sessionID else s.nextID + 1
  { s.spawn ⟨⟨id, info, label, stateText .running, jsonlPath base id⟩, .running, .attach⟩ with
    nextID := max s.nextID id }

/-- What the end of a connection does after its lock section. -/
def ended (id : ℕ) : Phase :=
  match s.sessions.lookup id with
  | none => .ending .disconnected []
  | some ses => .ending ses.markDisconnected.state ses.endReason

/-- A session object that is there is changed. -/
def modifySession (id : ℕ) (f : Session → Session) : AList fun _ : ℕ => Session :=
  match s.sessions.lookup id with
  | none => s.sessions
  | some ses => s.sessions.insert id (f ses)

/-- The lock section at the end of a connection. -/
def disconnect (c : ℕ) (x : Conn) : State :=
  { s.setPhase c x (s.ended x.id) with
    wrappers := if s.wrappers.lookup x.id = some c then s.wrappers.erase x.id else s.wrappers
    sessions := s.modifySession x.id Session.markDisconnected }

def proceed (c : ℕ) (now : Str) (x : Conn) : Option (State × List Event) :=
  match x.phase with
  | .attach =>
    let (store, storeID, cardMeta) := attachStore s.store x.start
    some ({ s.setPhase c x (.store storeID cardMeta) with store },
      [.attached x.id storeID cardMeta (rowOf store storeID)])
  | .store storeID cardMeta => some ({ s.setPhase c x .announce with
      sessions := s.sessions.insert x.id { conn := c, storeID, cardMeta, state := x.state }
      wrappers := s.wrappers.insert x.id c
      nextID := max s.nextID x.id }, [])
  | .announce =>
    some (if s.stillRegistered x.id c then (s.setPhase c x .looping, [.ui x.id .sessionUpdate])
      else (s.setPhase c x .finished, []))
  | .looping => some (s.disconnect c x, [])
  | .ending endState endReason => some ({ s.setPhase c x .deleting with
      store := endSession s.store x.id (stateText endState) endReason now }, [])
  | .deleting => some ({ s.setPhase c x .closing with usage := s.usage.erase x.id }, [])
  | .closing => some (s.setPhase c x .finished, [.ui x.id .sessionEnd])
  | .finished => none

def dismiss (id : ℕ) : State × List Event :=
  match s.sessions.lookup id with
  | none => (s, [.ui id .sessionRemoved])
  | some _ => ({ s with
      sessions := s.sessions.erase id
      wrappers := s.wrappers.erase id
      dismissals := s.dismissals ++ [.deleting id] }, [])

def proceedDismiss (h : ℕ) (now : Str) : Dismissal → Option (State × List Event)
  | .deleting id => some ({ s with
      usage := s.usage.erase id
      dismissals := s.dismissals.set h (.ending id) }, [])
  | .ending id => some ({ s with
      store := endSession s.store id (stateText .dismissed) [] now
      dismissals := s.dismissals.set h (.closing id) }, [])
  | .closing id => some ({ s with dismissals := s.dismissals.set h .finished }, [.ui id .sessionRemoved])
  | .finished => none

def setState (id : ℕ) (state : SessionState) (endReason : Str) : State :=
  { s with sessions := s.modifySession id fun ses => { ses with state, endReason } }

/-- The Hub ends as it stands and a new one opens the table. -/
def restart (now : Str) : State :=
  { initial with store := closeStaleSessions s.store now "hub_restart".toList }

def step : Action → Option (State × List Event)
  | .register info label base => some (s.register info label base, [])
  | .reattach sessionID info label base =>
    if sessionID = 0 then none else some (s.reattach sessionID info label base, [])
  | .proceed c now => s.conns[c]?.bind (s.proceed c now)
  | .dismiss id => some (s.dismiss id)
  | .proceedDismiss h now => s.dismissals[h]?.bind (s.proceedDismiss h now)
  | .setState id state endReason => some (s.setState id state endReason, [])
  | .usage id => some ({ s with usage := insert id s.usage }, [])
  | .update id u => some ({ s with store := update s.store id u }, [])
  | .restart now => some (s.restart now, [])

end State

/-! ### What a step does -/

/-- The UIs' last message about the session. -/
def lastUI (es : List Event) (id : ℕ) : Option UIMessage :=
  es.reverse.findSome? fun
    | .attached _ _ _ _ => none
    | .ui id' msg => if id' = id then some msg else none

/-- The phases of a connection in turn. -/
def Phase.Next : Phase → Phase → Prop
  | .attach, .store _ _ | .store _ _, .announce | .announce, .looping | .announce, .finished
  | .looping, .ending _ _ | .ending _ _, .deleting | .deleting, .closing | .closing, .finished => True
  | _, _ => False

namespace State

variable {s t : State} {a : Action} {fs : List Event} {id : ℕ}

/-- The session objects are those of the same connections, or less. -/
def SameMakers (s t : State) : Prop := ∀ id ses, t.sessions.lookup id = some ses →
  ∃ ses₀, s.sessions.lookup id = some ses₀ ∧ ses₀.conn = ses.conn

theorem SameMakers.of_eq (h : t.sessions = s.sessions) : s.SameMakers t :=
  fun _ ses hs => ⟨ses, h ▸ hs, rfl⟩

theorem sameMakers_modify {f : Session → Session} (hf : ∀ ses, (f ses).conn = ses.conn)
    (h : t.sessions = s.modifySession id f) : s.SameMakers t := by
  intro i ses hs
  rw [h, modifySession] at hs
  cases hl : s.sessions.lookup id with
  | none =>
    rw [hl] at hs
    exact ⟨ses, hs, rfl⟩
  | some ses₀ =>
    rw [hl] at hs
    by_cases hi : i = id
    · subst hi
      rw [AList.lookup_insert] at hs
      obtain rfl := Option.some.inj hs
      exact ⟨ses₀, hl, (hf ses₀).symm⟩
    · rw [AList.lookup_insert_ne hi] at hs
      exact ⟨ses, hs, rfl⟩

theorem sameMakers_erase (h : t.sessions = s.sessions.erase id) : s.SameMakers t := by
  intro i ses hs
  rw [h] at hs
  by_cases hi : i = id
  · rw [hi, AList.lookup_erase] at hs
    cases hs
  · rw [AList.lookup_erase_ne hi] at hs
    exact ⟨ses, hs, rfl⟩

/-- Connection `c` takes a step. -/
structure ConnStep (s : State) (c : ℕ) (x : Conn) (q : Phase) (t : State) (fs : List Event) : Prop where
  next : x.phase.Next q
  conns : t.conns = s.conns.set c { x with phase := q }
  makers : (q ≠ .announce ∧ s.SameMakers t) ∨
    (q = .announce ∧ ∃ ses : Session, ses.conn = c ∧ t.sessions = s.sessions.insert x.id ses)
  ended : ∀ id, .ui id .sessionEnd ∈ fs → x.phase = .closing ∧ x.id = id
  announced : q = .looping → lastUI fs x.id = some .sessionUpdate

theorem connStep_of_proceed {c : ℕ} {now : Str} {x : Conn} (h : s.proceed c now x = some (t, fs)) :
    ∃ q, s.ConnStep c x q t fs := by
  obtain ⟨start, state, phase⟩ := x
  cases phase <;> simp only [State.proceed] at h
  case attach =>
    cases h
    exact ⟨.store _ _, trivial, rfl, .inl ⟨nofun, .of_eq rfl⟩, fun _ he => by simp at he, fun hq => nomatch hq⟩
  case store storeID cardMeta =>
    cases h
    exact ⟨.announce, trivial, rfl, .inr ⟨rfl, _, rfl, rfl⟩, fun _ he => by simp at he, fun hq => nomatch hq⟩
  case announce =>
    split_ifs at h
    · cases h
      exact ⟨.looping, trivial, rfl, .inl ⟨nofun, .of_eq rfl⟩, fun _ he => by simp at he, fun _ => by simp [lastUI]⟩
    · cases h
      exact ⟨.finished, trivial, rfl, .inl ⟨nofun, .of_eq rfl⟩, fun _ he => by simp at he, fun hq => nomatch hq⟩
  case looping =>
    cases h
    have hm : s.SameMakers (s.disconnect c ⟨start, state, .looping⟩) :=
      sameMakers_modify (f := Session.markDisconnected) (fun _ => rfl) rfl
    obtain ⟨endState, endReason, he⟩ : ∃ endState endReason,
        s.ended start.liveSessionID = .ending endState endReason := by
      unfold ended
      split <;> exact ⟨_, _, rfl⟩
    exact ⟨.ending endState endReason, trivial, by rw [← he]; rfl, .inl ⟨nofun, hm⟩, fun _ he => by simp at he,
      fun hq => nomatch hq⟩
  case ending endState endReason =>
    cases h
    exact ⟨.deleting, trivial, rfl, .inl ⟨nofun, .of_eq rfl⟩, fun _ he => by simp at he, fun hq => nomatch hq⟩
  case deleting =>
    cases h
    exact ⟨.closing, trivial, rfl, .inl ⟨nofun, .of_eq rfl⟩, fun _ he => by simp at he, fun hq => nomatch hq⟩
  case closing =>
    cases h
    refine ⟨.finished, trivial, rfl, .inl ⟨nofun, .of_eq rfl⟩, fun _ he => ?_, fun hq => nomatch hq⟩
    exact ⟨rfl, (Event.ui.inj (List.mem_singleton.1 he)).1.symm⟩
  case finished => cases h

/-- A connection takes a step, one is added, all are gone, or they stay. -/
theorem step_conns (h : s.step a = some (t, fs)) :
    (∃ c now x q, a = .proceed c now ∧ s.conns[c]? = some x ∧ s.ConnStep c x q t fs) ∨
    (∃ x, t.conns = s.conns ++ [x] ∧ x.id ≠ 0 ∧ x.phase = .attach ∧ t.sessions = s.sessions ∧ fs = []) ∨
    (t.conns = [] ∧ t.sessions = ∅ ∧ fs = []) ∨
    (t.conns = s.conns ∧ s.SameMakers t ∧ ∀ id, .ui id .sessionEnd ∉ fs) := by
  cases a with
  | register info label base =>
    cases h
    exact .inr (.inl ⟨_, rfl, Nat.succ_ne_zero _, rfl, rfl, rfl⟩)
  | reattach sessionID info label base =>
    simp only [State.step] at h
    split_ifs at h with hid
    cases h
    refine .inr (.inl ⟨_, rfl, ?_, rfl, rfl, rfl⟩)
    dsimp only [Conn.id]
    split_ifs
    · exact hid
    · exact Nat.succ_ne_zero _
  | proceed c now =>
    obtain ⟨x, hx, h⟩ := Option.bind_eq_some_iff.1 h
    obtain ⟨q, hq⟩ := connStep_of_proceed h
    exact .inl ⟨c, now, x, q, rfl, hx, hq⟩
  | dismiss id =>
    simp only [State.step, State.dismiss] at h
    split at h
    · cases h
      exact .inr (.inr (.inr ⟨rfl, .of_eq rfl, fun _ he => by simp at he⟩))
    · cases h
      exact .inr (.inr (.inr ⟨rfl, sameMakers_erase rfl, fun _ he => nomatch he⟩))
  | proceedDismiss i now =>
    obtain ⟨d, hd, h⟩ := Option.bind_eq_some_iff.1 h
    cases d <;> simp only [State.proceedDismiss] at h <;> cases h <;>
      exact .inr (.inr (.inr ⟨rfl, .of_eq rfl, fun _ he => by simp at he⟩))
  | setState id state endReason =>
    cases h
    exact .inr (.inr (.inr ⟨rfl, sameMakers_modify (f := fun ses => { ses with state, endReason }) (fun _ => rfl) rfl,
      fun _ he => nomatch he⟩))
  | usage id =>
    cases h
    exact .inr (.inr (.inr ⟨rfl, .of_eq rfl, fun _ he => nomatch he⟩))
  | update id u =>
    cases h
    exact .inr (.inr (.inr ⟨rfl, .of_eq rfl, fun _ he => nomatch he⟩))
  | restart now =>
    cases h
    exact .inr (.inr (.inl ⟨rfl, rfl, rfl⟩))

end State

end ManyAiCli.Hub.Connections
