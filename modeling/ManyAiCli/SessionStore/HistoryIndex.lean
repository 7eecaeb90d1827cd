import ManyAiCli.SessionStore.HistorySteps

/-! What a full text search finds while sessions are written, cleared, pruned and reset. The index is not
deleted with the messages, and a deletion takes the words of a message out before the message: is a hit
always a message with these words, and which messages are not found? -/

namespace ManyAiCli.SessionStore.History

open Tables Text

/-! ### The search -/

structure SearchHit where
  message : Owned MessageRow
  session : Numbered Str SessionRow
  deriving DecidableEq, Repr

/-- The hits of `searchFTS` before they are ranked and cut off. -/
def Store.searchFTS (found : Str → Str → Bool) (db : Store) : List SearchHit :=
  (db.fts.filter fun e => found e.text e.rawText).flatMap fun e =>
    (db.messages.rows.filter fun m => m.id = e.rowid).flatMap fun m =>
      (db.sessions.rows.filter fun q => q.id = m.owner).map fun q => ⟨m, q⟩

def Store.Indexes (db : Store) (id : ℕ) : Prop := ∃ e ∈ db.fts, e.rowid = id

/-- No entry is of a message to come or has other words than its message, and each row has its session. -/
structure Store.Sound (db : Store) : Prop where
  bound : ∀ e ∈ db.fts, e.rowid ≤ db.messages.seq
  agrees : ∀ e ∈ db.fts, ∀ m ∈ db.messages.rows, m.id = e.rowid → e.text = m.val.text ∧ e.rawText = m.val.rawText
  owners : ∀ c, ∀ r ∈ (db.children c).rows, r.owner ∈ db.sessions.rows.map (·.id)

variable {T : Texts} {db db₁ db₂ db' : Store} {c : ChildTable} {sessionID liveSessionID id : ℕ} {fails : Bool}
  {out picked : List ℕ} {owner : Option ℕ} {sweep sweep' : Sweep} {j j' : Job} {es : List Event}

theorem Store.mem_searchFTS {found : Str → Str → Bool} {hit : SearchHit} : hit ∈ db.searchFTS found ↔
    ∃ e ∈ db.fts, found e.text e.rawText = true ∧ hit.message ∈ db.messages.rows ∧
      hit.message.id = e.rowid ∧ hit.session ∈ db.sessions.rows ∧ hit.session.id = hit.message.owner := by
  simp only [Store.searchFTS, List.mem_flatMap, List.mem_filter, List.mem_map, decide_eq_true_eq]
  constructor
  · rintro ⟨e, ⟨he, hfound⟩, m, ⟨hm, hid⟩, q, ⟨hq, howner⟩, rfl⟩
    exact ⟨e, he, hfound, hm, hid, hq, howner⟩
  · rintro ⟨e, he, hfound, hm, hid, hq, howner⟩
    exact ⟨e, ⟨he, hfound⟩, hit.message, ⟨hm, hid⟩, hit.session, ⟨hq, howner⟩, rfl⟩

/-- A hit has the words. -/
theorem Store.Sound.hit {found : Str → Str → Bool} {hit : SearchHit} (hs : db.Sound)
    (h : hit ∈ db.searchFTS found) : hit.message ∈ db.messages.rows ∧ hit.session ∈ db.sessions.rows ∧
      hit.session.id = hit.message.owner ∧ found hit.message.val.text hit.message.val.rawText = true := by
  obtain ⟨e, he, hfound, hm, hid, hq, howner⟩ := mem_searchFTS.1 h
  obtain ⟨htext, hraw⟩ := hs.agrees e he _ hm hid
  rw [htext, hraw] at hfound
  exact ⟨hm, hq, howner, hfound⟩

/-- Entries and messages only go. -/
theorem Store.Sound.shrink (hs : db.Sound) (hfts : ∀ e ∈ db'.fts, e ∈ db.fts)
    (hseq : db.messages.seq ≤ db'.messages.seq) (hrows : ∀ m ∈ db'.messages.rows, m ∈ db.messages.rows)
    (howners : ∀ c, ∀ r ∈ (db'.children c).rows, r.owner ∈ db'.sessions.rows.map (·.id)) : db'.Sound where
  bound e he := Nat.le_trans (hs.bound e (hfts e he)) hseq
  agrees e he m hm := hs.agrees e (hfts e he) m (hrows m hm)
  owners := howners

theorem Store.Sound.deleteChildren (hs : db.Sound) (p : Owned c.Row → Bool) : (db.deleteChildren c p).Sound := by
  apply hs.shrink
  · exact fun e he => he
  · exact Nat.le_of_eq (seq_deleteChildren p .messages).symm
  · exact fun m hm => mem_deleteChildren hm
  · exact fun d r hr => hs.owners d r (mem_deleteChildren hr)

theorem Store.Sound.unindex (hs : db.Sound) (p : Owned MessageRow → Bool) : (db.unindex p).Sound := by
  apply hs.shrink
  · exact fun e he => (mem_unindex.1 he).1
  · exact Nat.le_refl _
  · exact fun m hm => hm
  · exact hs.owners

theorem Store.Sound.deleteSessions (hs : db.Sound) (p : ℕ → Bool) : (db.deleteSessions p).Sound := by
  apply hs.shrink
  · exact fun e he => he
  · exact Nat.le_refl _
  · exact fun m hm => (OwnedTable.mem_deleteWhere.1 hm).1
  · intro c r hr
    obtain ⟨hr, hp⟩ := OwnedTable.mem_deleteWhere.1 hr
    obtain ⟨q, hq, howner⟩ := List.mem_map.1 (hs.owners c r hr)
    refine List.mem_map.2 ⟨q, List.mem_filter.2 ⟨hq, ?_⟩, howner⟩
    show (!p q.id) = true
    rw [howner, hp]
    rfl

/-- Sessions are changed or added. -/
theorem Store.Sound.sessions (hs : db.Sound) {t : Sessions}
    (h : ∀ n ∈ db.sessions.rows.map (·.id), n ∈ t.rows.map (·.id)) : Store.Sound { db with sessions := t } where
  bound := hs.bound
  agrees := hs.agrees
  owners c r hr := h _ (hs.owners c r hr)

theorem Store.Sound.mapVal (hs : db.Sound) (f : Numbered Str SessionRow → SessionRow) :
    Store.Sound { db with sessions := db.sessions.mapVal f } := by
  apply hs.sessions
  intro n hn
  rw [Table.mapVal, Table.ids_mapVal]
  exact hn

theorem Store.Sound.insert {row : c.Row} (hs : db.Sound) (hc : c ≠ .messages)
    (h : db.insert c sessionID row = some db') : db'.Sound := by
  have hmem := @Store.mem_insert db db' c sessionID row h
  obtain ⟨hid, rfl⟩ := insert_eq_some.1 h
  apply hs.shrink
  · exact fun e he => he
  · exact seq_insert h .messages
  · intro m hm
    rcases hmem hm with hm | ⟨hc', -, -⟩
    · exact hm
    · exact absurd hc'.symm hc
  · intro d r hr
    rcases hmem hr with hr | ⟨-, howner, -⟩
    · exact hs.owners d r hr
    · rw [howner]
      exact hid

/-- The new message has a number above those of the index. -/
theorem Store.Sound.insertMessage {row : MessageRow} (hs : db.Sound)
    (h : insertMessage db sessionID row fails = some (db', out)) : db'.Sound := by
  obtain ⟨db₁, h₁, heq⟩ := Option.map_eq_some_iff.1 h
  have hmem := @Store.mem_insert db db₁ .messages sessionID row h₁
  have hseq : db₁.messages.seq = db.messages.seq + 1 := by
    obtain ⟨-, rfl⟩ := insert_eq_some.1 h₁
    rw [Store.messages, children_setChildren]
    rfl
  have hfts : db₁.fts = db.fts := by
    obtain ⟨-, rfl⟩ := insert_eq_some.1 h₁
    rfl
  have hs₁ : db₁.Sound := by
    refine ⟨fun e he => ?_, fun e he m hm hid => ?_, fun d r hr => ?_⟩
    · rw [hfts] at he
      have := hs.bound e he
      omega
    · rw [hfts] at he
      rcases hmem hm with hm | ⟨-, -, hnew⟩
      · exact hs.agrees e he m hm hid
      · have := hs.bound e he
        have hnew : m.id = db.messages.seq + 1 := hnew
        omega
    · have hsessions : db₁.sessions = db.sessions := by
        obtain ⟨-, rfl⟩ := insert_eq_some.1 h₁
        rfl
      rw [hsessions]
      rcases hmem hr with hr | ⟨-, howner, -⟩
      · exact hs.owners d r hr
      · rw [howner]
        exact (insert_eq_some.1 h₁).1
  cases fails with
  | true =>
    obtain ⟨rfl, -⟩ := Prod.mk.inj heq
    exact hs₁
  | false =>
    obtain ⟨rfl, -⟩ := Prod.mk.inj heq
    have hnew : (⟨db.messages.seq + 1, sessionID, row⟩ : Owned MessageRow) ∈ db₁.messages.rows := by
      obtain ⟨-, rfl⟩ := insert_eq_some.1 h₁
      rw [Store.messages, children_setChildren]
      exact OwnedTable.mem_insert.2 (.inr rfl)
    refine ⟨fun e he => ?_, fun e he m hm hid => ?_, hs₁.owners⟩
    · rcases List.mem_append.1 he with he | he
      · exact hs₁.bound e he
      · rw [List.mem_singleton.1 he]
        exact Nat.le_refl _
    · rcases List.mem_append.1 he with he | he
      · exact hs₁.agrees e he m hm hid
      · rw [List.mem_singleton.1 he] at hid ⊢
        rw [OwnedTable.eq_of_id hm hnew (hid.trans hseq)]
        exact ⟨rfl, rfl⟩

theorem Store.Sound.updateApprovals (hs : db.Sound) (p : Owned ApprovalRow → Bool) (f : ApprovalRow → ApprovalRow) :
    (db.setChildren .approvals ((db.children .approvals).updateWhere p f)).Sound := by
  apply hs.shrink
  · exact fun e he => he
  · rw [messages_updateApprovals]
  · rw [messages_updateApprovals]
    exact fun m hm => hm
  · intro d r hr
    obtain ⟨q, hq, -, howner⟩ := exists_of_mem_updateApprovals p f hr
    rw [← howner]
    exact hs.owners d q hq

theorem Store.Sound.storeMessageForEvent {event : SessionEvent} {payload : Str} (hs : db.Sound)
    (h : storeMessageForEvent T db sessionID event payload fails = some (db', out)) : db'.Sound := by
  rcases storeMessageForEvent_cases h with ⟨rfl, -⟩ | ⟨row, h⟩ | ⟨db₁, attachment, row, h₁, h₂⟩
  · exact hs
  · exact hs.insertMessage h
  · have hs₁ : db₁.Sound := hs.insert (by decide) h₁
    exact hs₁.insertMessage h₂

theorem Store.Sound.storeEvent {event : SessionEvent} {now : Str} (hs : db.Sound)
    (h : storeEvent T db liveSessionID sessionID event now fails = some (db', out)) : db'.Sound := by
  obtain ⟨db₁, h₁, hrest⟩ := Option.bind_eq_some_iff.1 h
  obtain ⟨⟨db₂, out₂⟩, h₂, heq⟩ := Option.map_eq_some_iff.1 hrest
  obtain ⟨rfl, -⟩ := Prod.mk.inj heq
  have hs₂ : db₂.Sound := (hs.insert (by decide) h₁).storeMessageForEvent h₂
  apply hs₂.sessions
  intro n hn
  rw [ids_updateSessionForEvent]
  exact hn

theorem Store.Sound.storeApprovalDetected {approval : ApprovalRow} (hs : db.Sound)
    (h : storeApprovalDetected db sessionID approval = some db') : db'.Sound := by
  rw [History.storeApprovalDetected] at h
  split_ifs at h
  · obtain rfl := Option.some.inj h
    exact hs.updateApprovals _ _
  · exact hs.insert (by decide) h

theorem Store.Sound.clearSessionHistory (hs : db.Sound) (id : ℕ) : (clearSessionHistory db id).Sound :=
  (((((hs.unindex _).deleteChildren _).deleteChildren _).deleteChildren _).deleteChildren _).mapVal _

theorem Store.Sound.apply (hs : db.Sound) (w : Write) : (w.apply T db sessionID fails).1.Sound := by
  cases w with
  | event liveSessionID e now =>
    show ((History.storeEvent T db liveSessionID sessionID e now fails).getD (db, [])).1.Sound
    cases h : History.storeEvent T db liveSessionID sessionID e now fails with
    | none => exact hs
    | some r => exact hs.storeEvent h
  | approvalDetected approval =>
    rw [Write.apply]
    split_ifs
    · exact hs
    · cases h : History.storeApprovalDetected db sessionID approval with
      | none => exact hs
      | some r => exact hs.storeApprovalDetected h
  | approvalConsumed sig selectedText resolvedAt =>
    rw [Write.apply]
    split_ifs
    · exact hs
    · exact hs.updateApprovals _ _
  | clearHistory => exact hs.clearSessionHistory sessionID

theorem Store.Sound.swept (hs : db.Sound) (h : sweep.step owner picked fails db = some (sweep', db')) : db'.Sound := by
  rcases sweep_cases h with ⟨c, cs, rfl, -, rfl, -⟩ | ⟨ids, cs, rfl, -, rfl⟩ | ⟨c, ids, cs, rfl, rfl, -⟩
  · exact hs
  · split_ifs
    · exact hs
    · exact hs.unindex _
  · exact hs.deleteChildren _

theorem Store.Sound.resume (hs : db.Sound) (h : j.resume T db picked fails = some (j', db', es)) : db'.Sound := by
  rcases j with ⟨liveSessionID, w⟩ | ⟨sessionID, w⟩ | ⟨cutoff, ids, sweep⟩ | ⟨_ | ⟨id, todo⟩, preserved⟩ |
    ⟨preserved⟩ | ⟨preserved, wiped, sweep⟩ | ⟨preserved⟩ | _
  · obtain ⟨-, rfl, -⟩ : _ ∧ db = db' ∧ [] = es := by simpa only [Job.resume, Option.some.injEq, Prod.mk.injEq] using h
    exact hs
  · obtain ⟨-, rfl, -⟩ : _ ∧ _ = db' ∧ _ = es := by simpa only [Job.resume, Option.some.injEq, Prod.mk.injEq] using h
    exact hs.apply w
  · rcases pruneStep_cases h with ⟨-, rfl, -, -⟩ | ⟨id, rest, -, -, -, rfl, -⟩ | ⟨id, rest, sweep', -, hstep, -, -⟩
    · exact hs
    · exact hs.deleteSessions _
    · exact hs.swept hstep
  · obtain ⟨-, rfl, -⟩ : _ ∧ db = db' ∧ [] = es := by simpa only [Job.resume, Option.some.injEq, Prod.mk.injEq] using h
    exact hs
  · obtain ⟨-, rfl, -⟩ : _ ∧ db = db' ∧ [] = es := by simpa only [Job.resume, Option.some.injEq, Prod.mk.injEq] using h
    exact hs
  · obtain ⟨-, rfl, -⟩ : _ ∧ _ = db' ∧ _ = es := by simpa only [Job.resume, Option.some.injEq, Prod.mk.injEq] using h
    exact hs.unindex _
  · rcases resetStep_cases h with ⟨-, -, rfl, -⟩ | ⟨sweep', hstep, -, -⟩
    · exact hs.deleteSessions _
    · exact hs.swept hstep
  · obtain ⟨-, rfl, -⟩ : _ ∧ _ = db' ∧ _ = es := by simpa only [Job.resume, Option.some.injEq, Prod.mk.injEq] using h
    exact hs.mapVal _
  · exact nomatch h

/-! ### Which messages the index misses -/

/-- What the next statement of a sweep deletes has been taken out of the index. -/
def Sweep.Takes (id : ℕ) : Sweep → Prop
  | .delete c ids _ => c = .messages ∧ id ∈ ids
  | .select _ | .unindex .. => False

/-- A caller that is at work, or was when it stopped, has taken the message out of the index and has not
deleted it yet. -/
def Job.Takes (id : ℕ) : Job → Prop
  | .prune _ ids sweep => ids ≠ [] ∧ sweep.Takes id
  | .reset _ wiped sweep => sweep.Takes id ∨ .messages ∈ sweep.tables ∧ id ≤ wiped
  | .lookup .. | .write .. | .preserve .. | .wipe _ | .forget _ | .returned => False

/-- A message that the index misses afterwards it has missed before, but for `except`. -/
def Covers (db db' : Store) (except : ℕ → Prop) : Prop :=
  ∀ m ∈ db'.messages.rows, db'.Indexes m.id ∨ except m.id ∨ m ∈ db.messages.rows ∧ ¬ db.Indexes m.id

variable {except except' : ℕ → Prop}

theorem Covers.trans (h : Covers db db₁ except) (h' : Covers db₁ db₂ except') :
    Covers db db₂ fun id => except id ∨ except' id := by
  intro m hm
  rcases h' m hm with hi | he | ⟨hm₁, hno⟩
  · exact .inl hi
  · exact .inr (.inl (.inr he))
  · rcases h m hm₁ with hi | he | hold
    · exact absurd hi hno
    · exact .inr (.inl (.inl he))
    · exact .inr (.inr hold)

theorem Covers.mono (h : Covers db db' except) (hle : ∀ id, except id → except' id) : Covers db db' except' := by
  intro m hm
  rcases h m hm with hi | he | hold
  · exact .inl hi
  · exact .inr (.inl (hle _ he))
  · exact .inr (.inr hold)

/-- Messages only go, entries only come. -/
theorem covers_of_subset (hrows : ∀ m ∈ db'.messages.rows, m ∈ db.messages.rows) (hfts : ∀ e ∈ db.fts, e ∈ db'.fts) :
    Covers db db' except := by
  intro m hm
  by_cases hi : db.Indexes m.id
  · obtain ⟨e, he, hid⟩ := hi
    exact .inl ⟨e, hfts e he, hid⟩
  · exact .inr (.inr ⟨hrows m hm, hi⟩)

theorem covers_refl : Covers db db except := covers_of_subset (fun _ h => h) (fun _ h => h)

theorem covers_insert {row : c.Row} (hc : c ≠ .messages) (h : db.insert c sessionID row = some db') :
    Covers db db' except := by
  apply covers_of_subset
  · intro m hm
    rcases Store.mem_insert h hm with hm | ⟨hc', -, -⟩
    · exact hm
    · exact absurd hc'.symm hc
  · obtain ⟨-, rfl⟩ := Store.insert_eq_some.1 h
    exact fun e he => he

theorem covers_insertMessage {row : MessageRow} (h : insertMessage db sessionID row fails = some (db', out)) :
    Covers db db' (· ∈ out) := by
  obtain ⟨db₁, h₁, heq⟩ := Option.map_eq_some_iff.1 h
  have hfts : db₁.fts = db.fts := by
    obtain ⟨-, rfl⟩ := Store.insert_eq_some.1 h₁
    rfl
  have hseq : db₁.messages.seq = db.messages.seq + 1 := by
    obtain ⟨-, rfl⟩ := Store.insert_eq_some.1 h₁
    rw [Store.messages, Store.children_setChildren]
    rfl
  intro m hm
  have hm₁ : m ∈ db₁.messages.rows := by
    cases fails with
    | true => exact (Prod.mk.inj heq).1 ▸ hm
    | false =>
      obtain ⟨rfl, -⟩ := Prod.mk.inj heq
      exact hm
  rcases Store.mem_insert h₁ hm₁ with hold | ⟨-, -, hnew⟩
  · by_cases hi : db.Indexes m.id
    · obtain ⟨e, he, hid⟩ := hi
      refine .inl ⟨e, ?_, hid⟩
      rw [← hfts] at he
      cases fails with
      | true => exact (Prod.mk.inj heq).1 ▸ he
      | false =>
        obtain ⟨rfl, -⟩ := Prod.mk.inj heq
        exact List.mem_append_left _ he
    · exact .inr (.inr ⟨hold, hi⟩)
  · have hid : m.id = db₁.messages.seq := hnew.trans hseq.symm
    cases fails with
    | true =>
      obtain ⟨-, rfl⟩ := Prod.mk.inj heq
      exact .inr (.inl (List.mem_singleton.2 hid))
    | false =>
      obtain ⟨rfl, -⟩ := Prod.mk.inj heq
      exact .inl ⟨_, List.mem_append_right _ (List.mem_singleton_self _), hid.symm⟩

theorem covers_storeMessageForEvent {event : SessionEvent} {payload : Str}
    (h : storeMessageForEvent T db sessionID event payload fails = some (db', out)) : Covers db db' (· ∈ out) := by
  rcases storeMessageForEvent_cases h with ⟨rfl, -⟩ | ⟨row, h⟩ | ⟨db₁, attachment, row, h₁, h₂⟩
  · exact covers_refl
  · exact covers_insertMessage h
  · have hattachment : Covers db db₁ fun _ => False := covers_insert (by decide) h₁
    exact (hattachment.trans (covers_insertMessage h₂)).mono fun _ he => he.resolve_left fun h => h

theorem covers_storeEvent {event : SessionEvent} {now : Str}
    (h : storeEvent T db liveSessionID sessionID event now fails = some (db', out)) : Covers db db' (· ∈ out) := by
  obtain ⟨db₁, h₁, hrest⟩ := Option.bind_eq_some_iff.1 h
  obtain ⟨⟨db₂, out₂⟩, h₂, heq⟩ := Option.map_eq_some_iff.1 hrest
  obtain ⟨rfl, rfl⟩ := Prod.mk.inj heq
  have hevent : Covers db db₁ fun _ => False := covers_insert (by decide) h₁
  -- the update of the session changes neither the messages nor the index
  exact (hevent.trans (covers_storeMessageForEvent h₂)).mono fun _ he => he.resolve_left fun h => h

theorem covers_updateApprovals (p : Owned ApprovalRow → Bool) (f : ApprovalRow → ApprovalRow) :
    Covers db (db.setChildren .approvals ((db.children .approvals).updateWhere p f)) except := by
  apply covers_of_subset
  · rw [messages_updateApprovals]
    exact fun m hm => hm
  · exact fun e he => he

theorem covers_unindex (p : Owned MessageRow → Bool) :
    Covers db (db.unindex p) fun id => ∃ m ∈ db.messages.rows, m.id = id ∧ p m = true := by
  intro m hm
  by_cases hp : ∃ q ∈ db.messages.rows, q.id = m.id ∧ p q = true
  · exact .inr (.inl hp)
  · by_cases hi : db.Indexes m.id
    · obtain ⟨e, he, hid⟩ := hi
      refine .inl ⟨e, Store.mem_unindex.2 ⟨he, fun q hq hqid => ?_⟩, hid⟩
      exact Bool.eq_false_iff.2 fun htrue => hp ⟨q, hq, hqid.trans hid, htrue⟩
    · exact .inr (.inr ⟨hm, hi⟩)

/-- What is taken out of the index goes in the same transaction. -/
theorem covers_clearSessionHistory (id : ℕ) : Covers db (clearSessionHistory db id) except := by
  have hsub : ∀ m ∈ (clearSessionHistory db id).messages.rows, m ∈ db.messages.rows ∧ m.owner ≠ id := by
    intro m hm
    have hm : m ∈ ((((((db.unindex fun m => m.owner = id).deleteChildren .messages fun r => r.owner = id).deleteChildren
      .events fun r => r.owner = id).deleteChildren .approvals fun r => r.owner = id).deleteChildren
      .attachments fun r => r.owner = id).children .messages).rows := hm
    have hm := Store.mem_deleteChildren (Store.mem_deleteChildren (Store.mem_deleteChildren hm))
    rw [Store.deleteChildren, Store.children_setChildren] at hm
    obtain ⟨hm, howner⟩ := OwnedTable.mem_deleteWhere.1 hm
    exact ⟨hm, of_decide_eq_false howner⟩
  intro m hm
  obtain ⟨hold, howner⟩ := hsub m hm
  rcases covers_unindex (fun m => m.owner = id) m hold with hi | ⟨q, hq, hid, hp⟩ | hno
  · exact .inl hi
  · rw [OwnedTable.eq_of_id hq hold hid] at hp
    exact absurd (of_decide_eq_true hp) howner
  · exact .inr (.inr hno)

theorem covers_apply (w : Write) :
    Covers db (w.apply T db sessionID fails).1 (· ∈ (w.apply T db sessionID fails).2) := by
  cases w with
  | event liveSessionID e now =>
    show Covers db ((storeEvent T db liveSessionID sessionID e now fails).getD (db, [])).1
      (· ∈ ((storeEvent T db liveSessionID sessionID e now fails).getD (db, [])).2)
    cases h : storeEvent T db liveSessionID sessionID e now fails with
    | none => exact covers_refl
    | some r => exact covers_storeEvent h
  | approvalDetected approval =>
    rw [Write.apply]
    split_ifs
    · exact covers_refl
    · rw [storeApprovalDetected]
      split_ifs
      · exact covers_updateApprovals _ _
      · cases h : db.insert .approvals sessionID approval with
        | none => exact covers_refl
        | some r => exact covers_insert (by decide) h
  | approvalConsumed sig selectedText resolvedAt =>
    rw [Write.apply]
    split_ifs
    · exact covers_refl
    · exact covers_updateApprovals _ _
  | clearHistory => exact covers_clearSessionHistory sessionID

/-- The chunk that a sweep takes out of the index it deletes next. -/
theorem covers_sweep (h : sweep.step owner picked fails db = some (sweep', db')) :
    ∀ m ∈ db'.messages.rows, db'.Indexes m.id ∨ sweep'.Takes m.id ∨
      m ∈ db.messages.rows ∧ ¬ db.Indexes m.id ∧ ¬ sweep.Takes m.id := by
  intro m hm
  rcases sweep_cases h with ⟨c, cs, rfl, -, rfl, -⟩ | ⟨ids, cs, rfl, rfl, rfl⟩ | ⟨c, ids, cs, rfl, rfl, rfl⟩
  · by_cases hi : db'.Indexes m.id
    · exact .inl hi
    · exact .inr (.inr ⟨hm, hi, fun h => h⟩)
  · cases fails with
    | true =>
      by_cases hi : db.Indexes m.id
      · exact .inl hi
      · exact .inr (.inr ⟨hm, hi, fun h => h⟩)
    | false =>
      rcases covers_unindex (fun m => m.id ∈ ids) m hm with hi | ⟨q, hq, hid, hp⟩ | ⟨hold, hno⟩
      · exact .inl hi
      · exact .inr (.inl ⟨rfl, hid ▸ of_decide_eq_true hp⟩)
      · exact .inr (.inr ⟨hold, hno, fun h => h⟩)
  · have hold := Store.mem_deleteChildren hm
    by_cases hi : db.Indexes m.id
    · exact .inl hi
    · refine .inr (.inr ⟨hold, hi, ?_⟩)
      rintro ⟨rfl, hid⟩
      rw [Store.messages, Store.deleteChildren, Store.children_setChildren] at hm
      exact of_decide_eq_false (OwnedTable.mem_deleteWhere.1 hm).2 hid

/-- What a caller has taken out of the index is gone or is still in its hands. -/
theorem covers_resume (h : j.resume T db picked fails = some (j', db', es)) :
    ∀ m ∈ db'.messages.rows, db'.Indexes m.id ∨ .notIndexed m.id ∈ es ∨ j'.Takes m.id ∨
      m ∈ db.messages.rows ∧ ¬ db.Indexes m.id ∧ ¬ j.Takes m.id := by
  -- a caller that takes nothing
  have hplain (except : ℕ → Prop) (hc : Covers db db' except) (hno : ∀ id, ¬ j.Takes id)
      (he : ∀ id, except id → .notIndexed id ∈ es ∨ j'.Takes id) : ∀ m ∈ db'.messages.rows, db'.Indexes m.id ∨
        .notIndexed m.id ∈ es ∨ j'.Takes m.id ∨ m ∈ db.messages.rows ∧ ¬ db.Indexes m.id ∧ ¬ j.Takes m.id := by
    intro m hm
    rcases hc m hm with hi | hex | ⟨hold, hni⟩
    · exact .inl hi
    · rcases he m.id hex with he | he
      · exact .inr (.inl he)
      · exact .inr (.inr (.inl he))
    · exact .inr (.inr (.inr ⟨hold, hni, hno m.id⟩))
  rcases j with ⟨liveSessionID, w⟩ | ⟨sessionID, w⟩ | ⟨cutoff, ids, sweep⟩ | ⟨_ | ⟨id, todo⟩, preserved⟩ |
    ⟨preserved⟩ | ⟨preserved, wiped, sweep⟩ | ⟨preserved⟩ | _
  · obtain ⟨rfl, rfl, rfl⟩ : _ = j' ∧ db = db' ∧ [] = es := by
      simpa only [Job.resume, Option.some.injEq, Prod.mk.injEq] using h
    exact hplain (fun _ => False) covers_refl (fun _ h => h) fun _ h => h.elim
  · obtain ⟨rfl, rfl, rfl⟩ : _ = j' ∧ _ = db' ∧ _ = es := by
      simpa only [Job.resume, Option.some.injEq, Prod.mk.injEq] using h
    exact hplain _ (covers_apply w) (fun _ h => h) fun id hid => .inl (List.mem_map_of_mem hid)
  · rcases pruneStep_cases h with ⟨hnil, rfl, -, -⟩ | ⟨id, rest, -, rfl, rfl, rfl, -⟩ |
      ⟨id, rest, sweep', -, hstep, rfl, -⟩
    · exact hplain (fun _ => False) covers_refl (fun _ h => h.1 hnil) fun _ h => h.elim
    · refine hplain (fun _ => False) (covers_of_subset ?_ ?_) (fun _ h => h.2) fun _ h => h.elim
      · exact fun m hm => (OwnedTable.mem_deleteWhere.1 hm).1
      · exact fun e he => he
    · intro m hm
      rcases covers_sweep hstep m hm with hi | ht | ⟨hold, hni, hno⟩
      · exact .inl hi
      · exact .inr (.inr (.inl ⟨List.cons_ne_nil _ _, ht⟩))
      · exact .inr (.inr (.inr ⟨hold, hni, fun h => hno h.2⟩))
  · obtain ⟨rfl, rfl, rfl⟩ : _ = j' ∧ db = db' ∧ [] = es := by
      simpa only [Job.resume, Option.some.injEq, Prod.mk.injEq] using h
    exact hplain (fun _ => False) covers_refl (fun _ h => h) fun _ h => h.elim
  · obtain ⟨rfl, rfl, rfl⟩ : _ = j' ∧ db = db' ∧ [] = es := by
      simpa only [Job.resume, Option.some.injEq, Prod.mk.injEq] using h
    exact hplain (fun _ => False) covers_refl (fun _ h => h) fun _ h => h.elim
  · obtain ⟨rfl, rfl, rfl⟩ : _ = j' ∧ _ = db' ∧ _ = es := by
      simpa only [Job.resume, Option.some.injEq, Prod.mk.injEq] using h
    -- the wipe misses all messages, up to the last number
    refine hplain _ (covers_unindex _) (fun _ h => h) ?_
    rintro id ⟨m, hm, rfl, -⟩
    exact .inr (.inr ⟨by decide, OwnedTable.le_seq hm⟩)
  · rcases resetStep_cases h with ⟨rfl, -, rfl, rfl⟩ | ⟨sweep', hstep, rfl, rfl⟩
    · refine hplain (fun _ => False) (covers_of_subset ?_ ?_) ?_ fun _ h => h.elim
      · exact fun m hm => (OwnedTable.mem_deleteWhere.1 hm).1
      · exact fun e he => he
      · rintro id (h | ⟨h, -⟩)
        · exact h
        · exact List.not_mem_nil h
    · intro m hm
      rcases covers_sweep hstep m hm with hi | ht | ⟨hold, hni, hno⟩
      · exact .inl hi
      · exact .inr (.inr (.inl (.inl ht)))
      · by_cases hwiped : .messages ∈ sweep.tables ∧ m.id ≤ wiped
        · -- the sweep leaves the table of the messages when it is empty
          rcases Sweep.tables_step hstep Sweep.complete_none hwiped.1 with hin | hempty
          · exact .inr (.inr (.inl (.inr ⟨hin, hwiped.2⟩)))
          · exact nomatch hempty m hm
        · exact .inr (.inr (.inr ⟨hold, hni, fun h => h.elim hno hwiped⟩))
  · obtain ⟨rfl, rfl, rfl⟩ : _ = j' ∧ _ = db' ∧ _ = es := by
      simpa only [Job.resume, Option.some.injEq, Prod.mk.injEq] using h
    refine hplain (fun _ => False) (covers_of_subset ?_ ?_) (fun _ h => h) fun _ h => h.elim
    · exact fun m hm => hm
    · exact fun e he => he
  · exact nomatch h

/-! ### Every run -/

structure IndexInv (es : List Event) (s : State) : Prop where
  sound : s.store.Sound
  covered : ∀ m ∈ s.store.messages.rows,
    s.store.Indexes m.id ∨ .notIndexed m.id ∈ es ∨ ∃ j ∈ s.jobs, j.Takes m.id

theorem sound_empty : Store.empty.Sound where
  bound _ he := nomatch he
  agrees _ he := nomatch he
  owners _ _ hr := nomatch hr

theorem indexInv_empty (es : List Event) : IndexInv es State.empty where
  sound := sound_empty
  covered _ hm := nomatch hm

/-- The statements on the sessions alone. -/
theorem IndexInv.sessions {h es : List Event} {s : State} (hI : IndexInv h s) {t : Sessions}
    (ht : ∀ n ∈ s.store.sessions.rows.map (·.id), n ∈ t.rows.map (·.id)) :
    IndexInv (h ++ es) { s with store := { s.store with sessions := t } } where
  sound := hI.sound.sessions ht
  covered m hm := by
    rcases hI.covered m hm with hi | he | hj
    · exact .inl hi
    · exact .inr (.inl (List.mem_append_left _ he))
    · exact .inr (.inr hj)

theorem indexInv_step {h es : List Event} {s t : State} {a : Act} (hI : IndexInv h s) (hs : step T s a = some (t, es)) :
    IndexInv (h ++ es) t := by
  cases a with
  | start st =>
    obtain ⟨rfl, rfl⟩ := Prod.mk.inj (Option.some.inj hs)
    exact hI.sessions (ids_startSession _ st)
  | update liveSessionID u =>
    obtain ⟨rfl, rfl⟩ := Prod.mk.inj (Option.some.inj hs)
    apply hI.sessions
    rw [ids_update]
    exact fun n hn => hn
  | closeStale endedAt reason =>
    obtain ⟨rfl, rfl⟩ := Prod.mk.inj (Option.some.inj hs)
    apply hI.sessions
    intro n hn
    show n ∈ (Table.mapVal _ _).rows.map (·.id)
    rw [Table.mapVal, Table.ids_mapVal]
    exact hn
  | call c =>
    obtain ⟨rfl, rfl⟩ := Prod.mk.inj (Option.some.inj hs)
    refine ⟨hI.sound, fun m hm => ?_⟩
    rcases hI.covered m hm with hi | he | ⟨j, hj, ht⟩
    · exact .inl hi
    · exact .inr (.inl (List.mem_append_left _ he))
    · exact .inr (.inr ⟨j, List.mem_append_left _ hj, ht⟩)
  | recreate =>
    obtain ⟨rfl, rfl⟩ := Prod.mk.inj (Option.some.inj hs)
    exact indexInv_empty _
  | resume i picked fails =>
    obtain ⟨⟨j', db', es'⟩, hr, heq⟩ := Option.map_eq_some_iff.1 hs
    obtain ⟨rfl, rfl⟩ := Prod.mk.inj heq
    obtain ⟨j, hj, hresume⟩ := Option.bind_eq_some_iff.1 hr
    refine ⟨hI.sound.resume hresume, fun m hm => ?_⟩
    rcases covers_resume hresume m hm with hi | he | ht | ⟨hold, hni, hno⟩
    · exact .inl hi
    · exact .inr (.inl (List.mem_append_right _ he))
    · exact .inr (.inr ⟨j', List.mem_set (List.getElem?_eq_some_iff.1 hj).1 j', ht⟩)
    · rcases hI.covered m hold with hi | he | ⟨q, hq, ht⟩
      · exact absurd hi hni
      · exact .inr (.inl (List.mem_append_left _ he))
      · -- another caller has it
        obtain ⟨k, hk⟩ := List.mem_iff_getElem?.1 hq
        have hki : i ≠ k := by
          rintro rfl
          rw [hj] at hk
          exact hno (Option.some.inj hk ▸ ht)
        refine .inr (.inr ⟨q, List.mem_iff_getElem?.2 ⟨k, ?_⟩, ht⟩)
        rw [List.getElem?_set_ne hki]
        exact hk

theorem indexInv_run {run : List Act} {s : State} {es : List Event}
    (h : Runs.exec (step T) State.empty run = some (s, es)) : IndexInv es s := by
  have hmeets : Runs.Meets (step T) (fun _ _ => True) State.empty run := Runs.meets_of_forall (fun _ _ => trivial) _ _
  exact Runs.exec_invariant (fun _ _ _ _ _ hI _ hs => indexInv_step hI hs) (indexInv_empty []) hmeets h

/-- The texts as they are. -/
def plainTexts : Texts := ⟨fun e => e.text, fun s => s, fun _ => false⟩

end ManyAiCli.SessionStore.History
