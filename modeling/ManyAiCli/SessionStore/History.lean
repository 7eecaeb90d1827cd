import ManyAiCli.Hub.StoredSummary
import ManyAiCli.Runs.Machine
import ManyAiCli.SessionStore.Prune
import ManyAiCli.Tables.Owned

/-! The rows that belong to a session, the full text index over the messages, and the callers that
write and delete them. There is one connection, so a statement or a transaction is one step; between
two of them any other caller may go on, and a caller that fails or runs out of time goes on no more. -/

namespace ManyAiCli.SessionStore.History

open Tables Text SessionLog
open Hub.StoredSummary (cutLineEnds)

/-! ### The tables -/

structure EventRow where
  ts : Str
  typ : Str
  payload : Str
  deriving DecidableEq, Repr

structure MessageRow where
  ts : Str
  role : Str
  kind : Str
  text : Str
  rawText : Str
  payload : Str
  deriving DecidableEq, Repr

structure ApprovalRow where
  sig : Str
  source : Str
  kind : Str
  question : Str
  context : Str
  options : Str
  detectedAt : Str
  state : Str := "pending".toList
  selectedText : Option Str := none
  resolvedAt : Option Str := none
  deriving DecidableEq, Repr

structure AttachmentRow where
  ts : Str
  path : Str
  filename : Str
  deriving DecidableEq, Repr

inductive ChildTable
  | events
  | messages
  | approvals
  | attachments
  deriving DecidableEq, Repr

abbrev ChildTable.Row : ChildTable → Type
  | .events => EventRow
  | .messages => MessageRow
  | .approvals => ApprovalRow
  | .attachments => AttachmentRow

/-- In the order in which they are emptied. -/
def childTables : List ChildTable := [.events, .messages, .approvals, .attachments]

/-- An entry of `messages_fts`, which keeps no text of its own: it stands for the words that were there
when it was made. -/
structure Indexed where
  rowid : ℕ
  text : Str
  rawText : Str
  deriving DecidableEq, Repr

structure Store where
  sessions : Sessions
  children : (c : ChildTable) → OwnedTable c.Row
  fts : List Indexed

namespace Store

def empty : Store := ⟨Table.empty, fun _ => OwnedTable.empty, []⟩

def messages (db : Store) : OwnedTable MessageRow := db.children .messages

def setChildren (db : Store) (c : ChildTable) (t : OwnedTable c.Row) : Store :=
  { db with children := Function.update db.children c t }

/-- `INSERT`, which fails when there is no such session. -/
def insert (db : Store) (c : ChildTable) (sessionID : ℕ) (row : c.Row) : Option Store :=
  if db.sessions.rows.any (·.id = sessionID) then
    some (db.setChildren c ((db.children c).insert sessionID row))
  else none

def deleteChildren (db : Store) (c : ChildTable) (p : Owned c.Row → Bool) : Store :=
  db.setChildren c ((db.children c).deleteWhere p)

/-- `DELETE FROM messages_fts`, for the messages that meet the condition. The words to take out are read
from the row of the message, so that an entry whose message is gone stays. -/
def unindex (db : Store) (p : Owned MessageRow → Bool) : Store :=
  { db with fts := db.fts.filter fun e => !(db.messages.rows.any fun m => m.id = e.rowid && p m) }

/-- `DELETE FROM sessions`, which takes the rows of the other tables with it, but for the index. -/
def deleteSessions (db : Store) (p : ℕ → Bool) : Store :=
  { db with
    sessions := db.sessions.deleteWhere fun r => p r.id
    children := fun c => (db.children c).deleteWhere fun r => p r.owner }

/-- The texts of the sessions are forgotten. -/
def clearMetadata (db : Store) (p : ℕ → Bool) : Store :=
  let sessions := db.sessions.mapVal fun r =>
    if p r.id = true then { r.val with firstMessage := [], lastMessage := [] } else r.val
  { db with sessions }

end Store

/-! ### The callers that write -/

/-- The fields of an event that the store reads. -/
structure SessionEvent where
  ts : Str := []
  typ : Str
  text : Str := []
  path : Str := []
  filename : Str := []
  branch : Str := []
  label : Str := []
  model : Str := []
  shell : Str := []
  state : Str := []
  reason : Str := []
  deriving DecidableEq, Repr

/-- What becomes of the texts of an event: the JSON of it, without the bulk of an output, and what is
seen of an output. -/
structure Texts where
  payload : SessionEvent → Str
  cleanVisibleText : Str → Str
  isNoiseOutput : Str → Bool

variable (T : Texts)

/-- The rowid of the message is listed when the index does not take it, which is not an error. -/
def insertMessage (db : Store) (sessionID : ℕ) (row : MessageRow) (indexFails : Bool) : Option (Store × List ℕ) :=
  (db.insert .messages sessionID row).map fun db =>
    if indexFails then (db, [db.messages.seq])
    else ({ db with fts := db.fts ++ [⟨db.messages.seq, row.text, row.rawText⟩] }, [])

def storeMessageForEvent (db : Store) (sessionID : ℕ) (event : SessionEvent) (payload : Str) (indexFails : Bool) :
    Option (Store × List ℕ) :=
  if event.typ = "user_input".toList then
    let text := cutLineEnds (maskSecrets event.text)
    if trimSpace text = [] then some (db, [])
    else insertMessage db sessionID ⟨event.ts, "user".toList, "text".toList, text, text, payload⟩ indexFails
  else if event.typ = "pty_output".toList then
    let text := trimSpace (T.cleanVisibleText event.text)
    if text = [] ∨ T.isNoiseOutput text = true then some (db, [])
    else insertMessage db sessionID ⟨event.ts, "ai".toList, "text".toList, text, text, []⟩ indexFails
  else if event.typ = "attach".toList then
    let text := if event.filename = [] then event.path else event.filename
    if text = [] then some (db, [])
    else (db.insert .attachments sessionID ⟨event.ts, event.path, event.filename⟩).bind fun db =>
      insertMessage db sessionID ⟨event.ts, "system".toList, "attach".toList, text, text, payload⟩ indexFails
  else some (db, [])

/-- `COALESCE(NULLIF(?, ''), …)` -/
def orKeep (new old : Str) : Str := if new = [] then old else new

def updateSessionForEvent (t : Sessions) (liveSessionID : ℕ) (event : SessionEvent) (now : Str) : Sessions :=
  if event.typ = "session_start".toList ∨ event.typ = "session_reattach".toList then
    t.updateWhere (isLive liveSessionID) fun r => { r with
      info := { r.info with
        branch := orKeep event.branch r.info.branch
        model := orKeep event.model r.info.model
        shell := orKeep event.shell r.info.shell }
      cardMeta := { r.cardMeta with label := orKeep event.label r.cardMeta.label } }
  else if event.typ = "session_end".toList then
    t.updateWhere (isLive liveSessionID) fun r => { r with
      state := orKeep event.state r.state
      endReason := orKeep event.reason r.endReason
      endedAt := some (orKeep event.ts now) }
  else if event.typ = "user_input".toList then
    Hub.StoredSummary.updateSessionForEvent t liveSessionID event.text
  else t

/-- The transaction of `StoreEvent`. -/
def storeEvent (db : Store) (liveSessionID sessionID : ℕ) (event : SessionEvent) (now : Str) (indexFails : Bool) :
    Option (Store × List ℕ) :=
  let typ := if event.typ = [] then "event".toList else event.typ
  (db.insert .events sessionID ⟨event.ts, typ, T.payload event⟩).bind fun db =>
    (storeMessageForEvent T db sessionID { event with typ := typ } (T.payload event) indexFails).map fun r =>
      ({ r.1 with sessions := updateSessionForEvent r.1.sessions liveSessionID { event with typ := typ } now }, r.2)

/-- The row of a signature is pending again; what was selected stays. -/
def storeApprovalDetected (db : Store) (sessionID : ℕ) (approval : ApprovalRow) : Option Store :=
  if (db.children .approvals).rows.any fun r => r.owner = sessionID && r.val.sig = approval.sig then
    some (db.setChildren .approvals ((db.children .approvals).updateWhere
      (fun r => r.owner = sessionID && r.val.sig = approval.sig) fun r =>
        { approval with selectedText := r.selectedText }))
  else db.insert .approvals sessionID approval

def storeApprovalConsumed (db : Store) (sessionID : ℕ) (sig selectedText resolvedAt : Str) : Store :=
  db.setChildren .approvals ((db.children .approvals).updateWhere
    (fun r => r.owner = sessionID && r.val.sig = sig) fun r =>
      { r with state := "resolved".toList, selectedText := some selectedText, resolvedAt := some resolvedAt })

/-- The transaction of `ClearSessionHistory`. -/
def clearSessionHistory (db : Store) (id : ℕ) : Store :=
  let db := db.unindex fun m => m.owner = id
  let db := db.deleteChildren .messages fun r => r.owner = id
  let db := db.deleteChildren .events fun r => r.owner = id
  let db := db.deleteChildren .approvals fun r => r.owner = id
  let db := db.deleteChildren .attachments fun r => r.owner = id
  db.clearMetadata fun n => n = id

def sessionIDForLive (t : Sessions) (liveSessionID : ℕ) : Option ℕ :=
  if liveSessionID = 0 then none else (t.newest (isLive liveSessionID)).map (·.id)

/-- What is written under the number of the session that has been looked up. -/
inductive Write
  | event (liveSessionID : ℕ) (event : SessionEvent) (now : Str)
  | approvalDetected (approval : ApprovalRow)
  | approvalConsumed (sig selectedText resolvedAt : Str)
  | clearHistory
  deriving DecidableEq, Repr

/-- Whether the write can put in a row. -/
def Write.inserts : Write → Bool
  | .event .. | .approvalDetected _ => true
  | .approvalConsumed .. | .clearHistory => false

/-- A write without its session is undone. -/
def Write.apply (db : Store) (sessionID : ℕ) (indexFails : Bool) : Write → Store × List ℕ
  | .event liveSessionID e now => (storeEvent T db liveSessionID sessionID e now indexFails).getD (db, [])
  | .approvalDetected approval =>
    if approval.sig = [] then (db, []) else ((storeApprovalDetected db sessionID approval).getD db, [])
  | .approvalConsumed sig selectedText resolvedAt =>
    if sig = [] then (db, []) else (storeApprovalConsumed db sessionID sig selectedText resolvedAt, [])
  | .clearHistory => (clearSessionHistory db sessionID, [])

/-! ### The callers that delete -/

def pruneChildRowBatch : ℕ := 2000

/-- `deleteChildRowsChunked`, for the rows of a session, and `deleteAllChildRowsChunked`, by the statement
that is next: the tables that are left, and the chunk that has been read. -/
inductive Sweep
  | select (tables : List ChildTable)
  | unindex (ids : List ℕ) (tables : List ChildTable)
  | delete (c : ChildTable) (ids : List ℕ) (tables : List ChildTable)
  deriving DecidableEq, Repr

/-- The rows to delete: those of a session, or all. -/
def concerns {β : Type} (owner : Option ℕ) (r : Owned β) : Bool := owner.all fun id => r.owner = id

/-- The answer of a `SELECT` is given. Only for one session, a chunk that is not full is the last. -/
def Sweep.step (owner : Option ℕ) (picked : List ℕ) (fails : Bool) (db : Store) : Sweep → Option (Sweep × Store)
  | .select [] => none
  | .select (c :: cs) =>
    if (db.children c).Picks (concerns owner) pruneChildRowBatch picked then
      if picked = [] then some (.select cs, db)
      else if c = .messages then some (.unindex picked cs, db)
      else some (.delete c picked cs, db)
    else none
  | .unindex ids cs => some (.delete .messages ids cs, if fails then db else db.unindex fun m => m.id ∈ ids)
  | .delete c ids cs =>
    some (if owner.isSome ∧ ids.length < pruneChildRowBatch then .select cs else .select (c :: cs),
      db.deleteChildren c fun r => r.id ∈ ids)

/-- A caller, by what it does next. -/
inductive Job
  | lookup (liveSessionID : ℕ) (write : Write)
  | write (sessionID : ℕ) (write : Write)
  /-- `PruneOlderThan`: the sessions that are left of a batch, the first of which is at work. -/
  | prune (cutoff : Str) (ids : List ℕ) (sweep : Sweep)
  /-- `resetHistorySQL`: the live sessions to look up, and the rows found. -/
  | preserve (todo preserved : List ℕ)
  | wipe (preserved : List ℕ)
  /-- With the number of the last message that the wipe of the index saw. -/
  | reset (preserved : List ℕ) (wiped : ℕ) (sweep : Sweep)
  | forget (preserved : List ℕ)
  | returned
  deriving DecidableEq, Repr

inductive Event
  | notIndexed (id : ℕ)
  /-- A prune deletes rows of a session, which may be gone itself. -/
  | rowsPruned (cutoff : Str) (session : Option (Numbered Str SessionRow))
  /-- A prune deletes the row of a session, perhaps with rows of other tables. -/
  | sessionPruned (cutoff : Str) (session : Option (Numbered Str SessionRow)) (cascades : Bool)
  deriving DecidableEq, Repr

def Store.session (db : Store) (id : ℕ) : Option (Numbered Str SessionRow) := db.sessions.rows.find? (·.id = id)

def Store.hasChildren (db : Store) (id : ℕ) : Bool :=
  childTables.any fun c => (db.children c).rows.any fun r => r.owner = id

/-- What a prune tells of its step. -/
def Sweep.told (cutoff : Str) (session : Option (Numbered Str SessionRow)) : Sweep → List Event
  | .delete .. => [.rowsPruned cutoff session]
  | .select _ | .unindex .. => []

def pruneStep (db : Store) (cutoff : Str) (picked : List ℕ) (fails : Bool) :
    List ℕ → Sweep → Option (Job × Store × List Event)
  | [], _ =>
    let ids := expiredSessionIDs db.sessions cutoff pruneSessionBatch
    some (if ids = [] then .returned else .prune cutoff ids (.select childTables), db, [])
  | id :: rest, .select [] =>
    some (.prune cutoff rest (.select childTables), db.deleteSessions fun n => n = id,
      [.sessionPruned cutoff (db.session id) (db.hasChildren id)])
  | id :: rest, sweep =>
    (sweep.step (some id) picked fails db).map fun r =>
      (.prune cutoff (id :: rest) r.1, r.2, sweep.told cutoff (db.session id))

def resetStep (db : Store) (preserved : List ℕ) (wiped : ℕ) (picked : List ℕ) (fails : Bool) :
    Sweep → Option (Job × Store × List Event)
  | .select [] =>
    some (if preserved = [] then .returned else .forget preserved, db.deleteSessions fun n => n ∉ preserved, [])
  | sweep => (sweep.step none picked fails db).map fun r => (.reset preserved wiped r.1, r.2, [])

/-- The next statement of a caller; the answer of a `SELECT` without an order is given, and whether
the index fails. -/
def Job.resume (db : Store) (picked : List ℕ) (fails : Bool) : Job → Option (Job × Store × List Event)
  | .lookup liveSessionID w =>
    some ((sessionIDForLive db.sessions liveSessionID).elim .returned fun id => .write id w, db, [])
  | .write sessionID w =>
    let r := w.apply T db sessionID fails
    some (.returned, r.1, r.2.map .notIndexed)
  | .prune cutoff ids sweep => pruneStep db cutoff picked fails ids sweep
  | .preserve [] preserved => some (.wipe preserved, db, [])
  | .preserve (id :: todo) preserved =>
    let found := (db.sessions.newest (·.liveSessionID = id)).map (·.id)
    some (.preserve todo (preserved ++ found.toList), db, [])
  | .wipe preserved => some (.reset preserved db.messages.seq (.select childTables), db.unindex fun _ => true, [])
  | .reset preserved wiped sweep => resetStep db preserved wiped picked fails sweep
  | .forget preserved => some (.returned, db.clearMetadata fun n => n ∈ preserved, [])
  | .returned => none

/-! ### The store and its callers -/

structure State where
  store : Store
  jobs : List Job

def State.empty : State := ⟨Store.empty, []⟩

inductive Call
  | write (liveSessionID : ℕ) (write : Write)
  | pruneOlderThan (cutoff : Time)
  | resetHistory (preserveLiveIDs : List ℕ)

def Call.job : Call → Job
  | .write liveSessionID w => .lookup liveSessionID w
  | .pruneOlderThan cutoff =>
    if cutoff.isZero then .returned else .prune (formatRFC3339 cutoff) [] (.select childTables)
  | .resetHistory preserveLiveIDs => .preserve (preserveLiveIDs.filter (0 < ·)).dedup []

inductive Act
  | start (st : SessionStart)
  | update (liveSessionID : ℕ) (u : Update)
  | closeStale (endedAt reason : Str)
  | call (call : Call)
  | resume (i : ℕ) (picked : List ℕ) (fails : Bool)
  /-- A new file, at a start of the hub that a reset has asked for. -/
  | recreate

def step (s : State) : Act → Option (State × List Event)
  | .start st => some ({ s with store := { s.store with sessions := (startSession s.store.sessions st).1 } }, [])
  | .update liveSessionID u =>
    some ({ s with store := { s.store with sessions := SessionStore.update s.store.sessions liveSessionID u } }, [])
  | .closeStale endedAt reason =>
    some ({ s with store := { s.store with sessions := closeStaleSessions s.store.sessions endedAt reason } }, [])
  | .call c => some ({ s with jobs := s.jobs ++ [c.job] }, [])
  | .resume i picked fails =>
    (s.jobs[i]?.bind (Job.resume T s.store picked fails)).map fun r => (⟨r.2.1, s.jobs.set i r.1⟩, r.2.2)
  | .recreate => some (State.empty, [])

end ManyAiCli.SessionStore.History
