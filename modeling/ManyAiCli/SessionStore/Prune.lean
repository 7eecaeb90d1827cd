import ManyAiCli.SessionStore.Sessions
import ManyAiCli.Text.Rfc3339

/-! The sessions that ended before a cutoff are deleted. The end of a session is kept as the text
of a time in the zone of that time, and the texts are compared. Are the right ones deleted? -/

namespace ManyAiCli.SessionStore

open Tables Text

/-! ### The statements -/

def pruneSessionBatch : ℕ := 50

/-- Ended with a text below that of the cutoff. -/
def endedBelow (cutoff : Str) (r : Numbered Str SessionRow) : Bool := r.val.endedAt.any fun endedAt => endedAt < cutoff

def expiredSessionIDs (t : Sessions) (cutoff : Str) (limit : ℕ) : List ℕ :=
  ((t.rows.filter (endedBelow cutoff)).map (·.id)).take limit

def pruneSessionRow (t : Sessions) (id : ℕ) : Sessions := t.deleteWhere fun r => r.id = id

/-- The loop of `PruneOlderThan`, for so many batches. -/
def pruneBatches : ℕ → Str → Sessions → Sessions
  | 0, _, t => t
  | n + 1, cutoff, t =>
    let ids := expiredSessionIDs t cutoff pruneSessionBatch
    if ids = [] then t else pruneBatches n cutoff (ids.foldl pruneSessionRow t)

def pruneOlderThan (t : Sessions) (cutoff : Time) : Sessions :=
  if cutoff.isZero then t else pruneBatches t.rows.length (formatRFC3339 cutoff) t

/-- `endedAt`, or the time of the call for the zero time. -/
def endStamp (endedAt now : Time) : Time := if endedAt.isZero then now else endedAt

/-! ### The loop deletes all that it selects -/

variable {t : Sessions} {cutoff : Str} {r : Numbered Str SessionRow}

inductive Op
  | start (st : SessionStart)
  | messages (liveSessionID : ℕ) (firstMessage lastMessage : Str)
  | state (liveSessionID : ℕ) (state lastOutputAt : Str)
  | cardMeta (liveSessionID : ℕ) (cardMeta : SessionCardMeta)
  | endSession (liveSessionID : ℕ) (state reason : Str) (endedAt now : Time)
  | closeStale (endedAt now : Time) (reason : Str)
  | prune (cutoff : Time)

/-- The store, and when the sessions of its rows have ended. -/
structure Stamped where
  store : Sessions
  ends : ℕ → Option Time

namespace Stamped

def empty : Stamped := ⟨Table.empty, fun _ => none⟩

/-- The rows that meet the condition end. -/
def stamp (s : Stamped) (p : SessionRow → Bool) (time : Time) : ℕ → Option Time :=
  fun id => if s.store.rows.any fun r => r.id = id && p r.val then some time else s.ends id

def step (s : Stamped) : Op → Stamped
  | .start st =>
    let (store, id) := startSession s.store st
    ⟨store, Function.update s.ends id none⟩
  | .messages live firstMessage lastMessage => { s with store := updateSessionMessages s.store live firstMessage lastMessage }
  | .state live state lastOutputAt => { s with store := updateSessionState s.store live state lastOutputAt }
  | .cardMeta live cardMeta => { s with store := updateSessionCardMeta s.store live cardMeta }
  | .endSession live state reason endedAt now =>
    let time := endStamp endedAt now
    ⟨SessionStore.endSession s.store live state reason (formatRFC3339 time), s.stamp (isLive live) time⟩
  | .closeStale endedAt now reason =>
    let time := endStamp endedAt now
    ⟨closeStaleSessions s.store (formatRFC3339 time) reason, s.stamp (fun r => r.endedAt = none) time⟩
  | .prune cutoff => { s with store := pruneOlderThan s.store cutoff }

def run (ops : List Op) : Stamped := ops.foldl step empty

end Stamped

/-- The end and the cutoff are read in the order of their instants; below the zero cutoff there
is nothing. -/
def Aligned (e cutoff : Time) : Prop :=
  if cutoff.isZero then ¬ e.unix < cutoff.unix else (e.Reads cutoff ↔ e.unix < cutoff.unix)

instance (e cutoff : Time) : Decidable (Aligned e cutoff) :=
  inferInstanceAs (Decidable (if cutoff.isZero then ¬ e.unix < cutoff.unix else (e.Reads cutoff ↔ e.unix < cutoff.unix)))

/-! ### One operation -/

variable {s : Stamped}

/-- With years of four digits, this is so for the ends in the zone of the cutoff. -/
theorem aligned_of_zone {e cutoff : Time} (he : 0 ≤ e.year ∧ e.year < 10000)
    (hc : 0 ≤ cutoff.year ∧ cutoff.year < 10000) (hzone : e.offset = cutoff.offset) (hzero : cutoff.isZero = false) :
    Aligned e cutoff := by
  rw [Aligned, hzero, if_neg Bool.false_ne_true]
  exact Time.reads_iff_unix he hc hzone

end ManyAiCli.SessionStore
