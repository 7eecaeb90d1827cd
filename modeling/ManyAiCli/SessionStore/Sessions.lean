import ManyAiCli.Tables.Numbered
import ManyAiCli.Text.Strings

/-! The `sessions` table. A row is found by its `jsonl_path` on a start, by its live session
ID and `ended_at IS NULL` on an update, and by its live session ID alone when the metadata
of a card is read. An empty text stands for `NULL` too, where the two are treated alike. -/

namespace ManyAiCli.SessionStore

open Tables
open Text (trimSpace)

abbrev Str := List Char

structure SessionCardMeta where
  label : Str
  pinned : Bool := false
  color : Str := []
  note : Str := []
  autoTitle : Str := []
  deriving DecidableEq, Repr

/-- The columns that a start sets and no other statement touches. -/
structure SessionInfo where
  provider : Str := []
  display : Str := []
  cwd : Str := []
  branch : Str := []
  model : Str := []
  route : Str := []
  shell : Str := []
  startedAt : Str := []
  logPath : Str := []
  parentSessionID : ℕ := 0
  role : Str := []
  auto : Bool := false
  depth : ℕ := 0
  orchestrationID : Str := []
  boardPath : Str := []
  worktreeBranch : Str := []
  deriving DecidableEq, Repr

structure SessionStart where
  liveSessionID : ℕ
  info : SessionInfo
  label : Str
  state : Str
  jsonlPath : Str
  deriving DecidableEq, Repr

structure SessionRow where
  liveSessionID : ℕ
  info : SessionInfo
  state : Str
  cardMeta : SessionCardMeta
  firstMessage : Str := []
  lastMessage : Str := []
  lastOutputAt : Str := []
  endedAt : Option Str := none
  endReason : Str := []
  deriving DecidableEq, Repr

/-- By `jsonl_path`, which is unique. -/
abbrev Sessions := Table Str SessionRow

def SessionStart.path (st : SessionStart) : Str :=
  if st.jsonlPath = [] then "virtual-live-".toList ++ Nat.toDigits 10 st.liveSessionID else st.jsonlPath

def SessionStart.stateOrStandby (st : SessionStart) : Str :=
  if trimSpace st.state = [] then "standby".toList else trimSpace st.state

def SessionStart.fresh (st : SessionStart) : SessionRow where
  liveSessionID := st.liveSessionID
  info := st.info
  state := st.stateOrStandby
  cardMeta := { label := st.label }

/-- The row goes on; its label is not that of the start, as the user may have edited it. -/
def SessionStart.revive (st : SessionStart) (r : SessionRow) : SessionRow :=
  { r with
    liveSessionID := st.liveSessionID
    info := st.info
    state := st.stateOrStandby
    endedAt := none
    endReason := [] }

def startSession (t : Sessions) (st : SessionStart) : Sessions × ℕ := t.upsert st.path st.fresh st.revive

def closeStaleSessions (t : Sessions) (endedAt reason : Str) : Sessions :=
  t.updateWhere (·.endedAt = none) fun r => { r with
    state := "disconnected".toList
    endReason := if reason = [] then r.endReason else reason
    endedAt := some endedAt }

/-- `live_session_id=? AND ended_at IS NULL` -/
def isLive (liveSessionID : ℕ) (r : SessionRow) : Bool := r.liveSessionID = liveSessionID ∧ r.endedAt = none

def updateSessionMessages (t : Sessions) (liveSessionID : ℕ) (firstMessage lastMessage : Str) : Sessions :=
  t.updateWhere (isLive liveSessionID) fun r => { r with
    firstMessage := if r.firstMessage = [] then firstMessage else r.firstMessage
    lastMessage := lastMessage }

def updateSessionState (t : Sessions) (liveSessionID : ℕ) (state lastOutputAt : Str) : Sessions :=
  if trimSpace state = [] ∧ trimSpace lastOutputAt = [] then t
  else t.updateWhere (isLive liveSessionID) fun r => { r with
    state := if state = [] then r.state else state
    lastOutputAt := if lastOutputAt = [] then r.lastOutputAt else lastOutputAt }

def updateSessionCardMeta (t : Sessions) (liveSessionID : ℕ) (cardMeta : SessionCardMeta) : Sessions :=
  t.updateWhere (isLive liveSessionID) fun r => { r with cardMeta }

def endSession (t : Sessions) (liveSessionID : ℕ) (state reason endedAt : Str) : Sessions :=
  t.updateWhere (isLive liveSessionID) fun r => { r with
    state := if state = [] then r.state else state
    endReason := if reason = [] then r.endReason else reason
    endedAt := some endedAt }

/-- The metadata of the newest row of the live session. -/
def sessionCardMetaByLiveSession (t : Sessions) (liveSessionID : ℕ) : SessionCardMeta :=
  if liveSessionID = 0 then { label := [] }
  else match t.newest (·.liveSessionID = liveSessionID) with
    | none => { label := [] }
    | some r => r.val.cardMeta

/-- What is written by live session ID. -/
inductive Update
  | messages (firstMessage lastMessage : Str)
  | state (state lastOutputAt : Str)
  | cardMeta (cardMeta : SessionCardMeta)
  | ended (state reason endedAt : Str)
  deriving DecidableEq, Repr

def update (t : Sessions) (liveSessionID : ℕ) : Update → Sessions
  | .messages firstMessage lastMessage => updateSessionMessages t liveSessionID firstMessage lastMessage
  | .state state lastOutputAt => updateSessionState t liveSessionID state lastOutputAt
  | .cardMeta cardMeta => updateSessionCardMeta t liveSessionID cardMeta
  | .ended state reason endedAt => endSession t liveSessionID state reason endedAt

/-! ### What an update and a start do to the rows -/

variable {t : Sessions} {liveSessionID : ℕ} {r : Numbered Str SessionRow} {st : SessionStart}

/-- The row was there, as a row of the same live session that was open if it is; it is the
same row still if it was not open for the updated one. -/
def Stems (t : Sessions) (liveSessionID : ℕ) (r : Numbered Str SessionRow) : Prop :=
  ∃ r₀ ∈ t.rows, r₀.id = r.id ∧ r₀.key = r.key ∧ r₀.val.liveSessionID = r.val.liveSessionID ∧
    (r.val.endedAt = none → r₀.val.endedAt = none) ∧ (isLive liveSessionID r₀.val = false → r = r₀)

theorem stems_of_mem_updateWhere {f : SessionRow → SessionRow} (hlive : ∀ v, (f v).liveSessionID = v.liveSessionID)
    (hended : ∀ v, (f v).endedAt = none → v.endedAt = none)
    (h : r ∈ (t.updateWhere (isLive liveSessionID) f).rows) : Stems t liveSessionID r := by
  obtain ⟨r₀, hr₀, rfl⟩ := Table.mem_updateWhere.1 h
  refine ⟨r₀, hr₀, rfl, rfl, ?_, ?_, fun hno => ?_⟩
  · dsimp only
    split_ifs
    · exact (hlive _).symm
    · rfl
  · dsimp only
    split_ifs
    · exact hended _
    · exact id
  · rw [if_neg (Bool.eq_false_iff.1 hno)]

/-- A row of a live session is updated in place, any other one stays. -/
theorem stems_of_mem_update {u : Update} (h : r ∈ (update t liveSessionID u).rows) : Stems t liveSessionID r := by
  cases u with
  | messages firstMessage lastMessage =>
    refine stems_of_mem_updateWhere ?_ ?_ h
    · exact fun _ => rfl
    · exact fun _ h => h
  | state state lastOutputAt =>
    by_cases hempty : trimSpace state = [] ∧ trimSpace lastOutputAt = []
    · rw [update, updateSessionState, if_pos hempty] at h
      exact ⟨r, h, rfl, rfl, rfl, id, fun _ => rfl⟩
    · rw [update, updateSessionState, if_neg hempty] at h
      refine stems_of_mem_updateWhere ?_ ?_ h
      · exact fun _ => rfl
      · exact fun _ h => h
  | cardMeta cardMeta =>
    refine stems_of_mem_updateWhere ?_ ?_ h
    · exact fun _ => rfl
    · exact fun _ h => h
  | ended state reason endedAt =>
    refine stems_of_mem_updateWhere ?_ ?_ h
    · exact fun _ => rfl
    · exact fun _ h => nomatch h

theorem mem_closeStaleSessions {endedAt reason : Str} (h : r ∈ (closeStaleSessions t endedAt reason).rows) :
    r.val.endedAt ≠ none := by
  obtain ⟨r₀, hr₀, rfl⟩ := Table.mem_updateWhere.1 h
  by_cases hnone : r₀.val.endedAt = none
  · rw [if_pos (decide_eq_true hnone)]
    exact Option.some_ne_none endedAt
  · rw [if_neg fun h => hnone (of_decide_eq_true h)]
    exact hnone

/-- The row that a start returns. -/
theorem exists_started (t : Sessions) (st : SessionStart) :
    ∃ r ∈ (startSession t st).1.rows, r.id = (startSession t st).2 ∧ r.key = st.path ∧
      r.val.liveSessionID = st.liveSessionID ∧
      ((∀ r ∈ t.rows, r.key ≠ st.path ∧ r.id < (startSession t st).2) ∨
        ∃ q ∈ t.rows, q.key = st.path ∧ q.id = (startSession t st).2) := by
  obtain ⟨b, hmem, ⟨hb, hall⟩ | ⟨q, hq, hk, hid, hb⟩⟩ := t.exists_upserted st.path st.fresh st.revive
  · exact ⟨_, hmem, rfl, rfl, by rw [hb]; rfl, .inl hall⟩
  · exact ⟨_, hmem, rfl, rfl, by rw [hb]; rfl, .inr ⟨q, hq, hk, hid⟩⟩

theorem mem_startSession (h : r ∈ (startSession t st).1.rows) :
    r.id = (startSession t st).2 ∧ r.key = st.path ∨ r ∈ t.rows ∧ r.key ≠ st.path :=
  t.mem_upsert st.path st.fresh st.revive h

end ManyAiCli.SessionStore
