import ManyAiCli.Hub.CardMessages
import ManyAiCli.SessionStore.Sessions

/-! Is a change of a card all or nothing, and do memory and the store agree after it? The fields
are assigned one by one under the lock, and the whole metadata is written after it is released;
requests in between may take the lock and write in any order. -/

namespace ManyAiCli.Hub.SessionMeta

open SessionStore
open CardMessages (normalizeSessionMetaText)

/-- Of a field that is not in the request nothing is known. -/
structure SessionMetaPatch where
  label : Option Str := none
  pinned : Option Bool := none
  color : Option Str := none
  note : Option Str := none
  deriving DecidableEq, Repr

def sessionCardColors : List String := ["", "blue", "green", "orange", "red", "purple"]

def normalColor (color : Str) : Str := Text.toLower (Text.trimSpace color)

def isSessionCardColor (color : Str) : Bool := sessionCardColors.any fun c => c.toList = color

/-- The assignments before that of the colour. -/
def SessionMetaPatch.assignFirst (p : SessionMetaPatch) (m : SessionCardMeta) : SessionCardMeta :=
  { m with
    label := (p.label.map (normalizeSessionMetaText · 120)).getD m.label
    pinned := p.pinned.getD m.pinned }

/-- The colour is not one of a card. -/
def SessionMetaPatch.badColor (p : SessionMetaPatch) : Bool :=
  p.color.any fun color => !isSessionCardColor (normalColor color)

def SessionMetaPatch.assignRest (p : SessionMetaPatch) (m : SessionCardMeta) : SessionCardMeta :=
  { m with
    color := (p.color.map normalColor).getD m.color
    note := (p.note.map (normalizeSessionMetaText · 160)).getD m.note }

/-! ### Requests -/

inductive Phase
  | waiting (id : ℕ) (patch : SessionMetaPatch)
  /-- The lock is released; with what is to be written. -/
  | saving (id : ℕ) (persisted : SessionCardMeta)
  | answered (status : ℕ)
  deriving DecidableEq, Repr

structure State where
  sessions : ℕ → Option SessionCardMeta
  store : Option Sessions
  requests : List Phase

inductive Action
  /-- What a request does before and under the lock. -/
  | lock (i : ℕ)
  /-- What it does after. -/
  | save (i : ℕ) (fails : Bool)
  deriving DecidableEq, Repr

namespace State

def answer (s : State) (i : ℕ) (status : ℕ) : State := { s with requests := s.requests.set i (.answered status) }

def setSession (s : State) (id : ℕ) (m : SessionCardMeta) : State :=
  { s with sessions := Function.update s.sessions id (some m) }

/-- `handleSessionMeta` up to the release of the lock. -/
def lock (s : State) (i id : ℕ) (p : SessionMetaPatch) : State :=
  if p = {} then s.answer i 400
  else match s.sessions id with
    | none => s.answer i 404
    | some m =>
      if p.badColor then (s.setSession id (p.assignFirst m)).answer i 400
      else
        let m' := p.assignRest (p.assignFirst m)
        { s.setSession id m' with requests := s.requests.set i (.saving id m') }

/-- And from there on. -/
def save (s : State) (i id : ℕ) (persisted : SessionCardMeta) (fails : Bool) : State :=
  match s.store with
  | none => s.answer i 200
  | some t =>
    if fails then s.answer i 500
    else { s.answer i 200 with store := some (updateSessionCardMeta t id persisted) }

def step (s : State) : Action → Option State
  | .lock i =>
    match s.requests[i]? with
    | some (.waiting id p) => some (s.lock i id p)
    | _ => none
  | .save i fails =>
    match s.requests[i]? with
    | some (.saving id persisted) => some (s.save i id persisted fails)
    | _ => none

end State

/-! ### What a change is to do -/

/-- What a request can change. -/
def shown (m : SessionCardMeta) : Str × Bool × Str × Str := (m.label, m.pinned, m.color, m.note)

/-- The fields of the request, normalised, and the others as they are. -/
def SessionMetaPatch.merged (p : SessionMetaPatch) (m : SessionCardMeta) : Str × Bool × Str × Str :=
  ((p.label.map (normalizeSessionMetaText · 120)).getD m.label, p.pinned.getD m.pinned,
    (p.color.map normalColor).getD m.color, (p.note.map (normalizeSessionMetaText · 160)).getD m.note)

namespace State

/-- The open rows of a session have the metadata. -/
def RowsShow (s : State) (id : ℕ) (v : Str × Bool × Str × Str) : Prop :=
  ∀ t, s.store = some t → ∀ r ∈ t.rows, isLive id r.val = true → shown r.val.cardMeta = v

/-- The store has what memory has. -/
def Agrees (s : State) (id : ℕ) : Prop := ∀ m, s.sessions id = some m → s.RowsShow id (shown m)

/-- Where the colour is refused, nothing was changed before it; where it is not, the write succeeds or
nothing changes. -/
def Clean (s : State) (p : SessionMetaPatch) (m : SessionCardMeta) (fails : Bool) : Prop :=
  p = {} ∨ if p.badColor then shown (p.assignFirst m) = shown m
    else fails = true → s.store ≠ none → p.merged m = shown m

/-- A write of what is in memory is still to come, other than that of one request. -/
def ToCome (s : State) (i id : ℕ) : Prop :=
  ∃ j persisted, j ≠ i ∧ s.requests[j]? = some (.saving id persisted) ∧
    (s.sessions id).map shown = some (shown persisted)

/-- A request whose colour is refused has changed nothing, and one that writes does so with what is in
memory, unless a write of that is still to come or it is there already. -/
def Kept (s : State) : Action → Prop
  | .lock i => ∀ id p m, s.requests[i]? = some (.waiting id p) → s.sessions id = some m → p ≠ {} →
      p.badColor = true → shown (p.assignFirst m) = shown m
  | .save i fails => ∀ id persisted, s.requests[i]? = some (.saving id persisted) → s.store ≠ none →
      fails = false ∧ (s.sessions id).map shown = some (shown persisted) ∨ s.ToCome i id ∨
        fails = true ∧ s.Agrees id

variable {s t : State} {i id : ℕ} {p : SessionMetaPatch} {m persisted : SessionCardMeta} {fails : Bool}

/-! ### The rows -/

/-- The rows have what is in memory, or a write of it is to come. -/
def Settles (s : State) (id : ℕ) : Prop :=
  s.Agrees id ∨ ∃ (j : ℕ) (persisted : SessionCardMeta), s.requests[j]? = some (.saving id persisted) ∧
    (s.sessions id).map shown = some (shown persisted)

/-- A session with its row, before a request. -/
def card (patch : SessionMetaPatch) : State where
  sessions id := if id = 1 then some { label := "old".toList } else none
  store := some (startSession Tables.Table.empty
    { liveSessionID := 1, info := {}, label := "old".toList, state := [], jsonlPath := [] }).1
  requests := [.waiting 1 patch]

end State

end ManyAiCli.Hub.SessionMeta
