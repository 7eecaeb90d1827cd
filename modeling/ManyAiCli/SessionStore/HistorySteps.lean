import ManyAiCli.SessionStore.History

/-! What a statement of a caller leaves in the tables, by cases, and which tables a deletion has emptied. -/

namespace ManyAiCli.SessionStore.History

open Tables Text
open Hub.StoredSummary (cutLineEnds)

variable {T : Texts} {db db₁ db₂ db' : Store} {c : ChildTable} {sessionID liveSessionID id : ℕ} {fails : Bool}
  {out picked : List ℕ} {owner : Option ℕ} {sweep sweep' : Sweep} {j j' : Job} {es : List Event}

/-! ### What a statement leaves in the tables -/

theorem Store.children_setChildren (t : OwnedTable c.Row) : (db.setChildren c t).children c = t := by
  show Function.update db.children c t c = t
  exact Function.update_self ..

theorem Store.children_setChildren_of_ne {d : ChildTable} (t : OwnedTable c.Row) (h : d ≠ c) :
    (db.setChildren c t).children d = db.children d := by
  show Function.update db.children c t d = db.children d
  exact Function.update_of_ne h ..

theorem Store.mem_deleteChildren {p : Owned c.Row → Bool} {d : ChildTable} {r : Owned d.Row}
    (h : r ∈ ((db.deleteChildren c p).children d).rows) : r ∈ (db.children d).rows := by
  by_cases hd : d = c
  · subst hd
    rw [deleteChildren, children_setChildren] at h
    exact (OwnedTable.mem_deleteWhere.1 h).1
  · rwa [deleteChildren, children_setChildren_of_ne _ hd] at h

theorem Store.seq_deleteChildren (p : Owned c.Row → Bool) (d : ChildTable) :
    ((db.deleteChildren c p).children d).seq = (db.children d).seq := by
  by_cases hd : d = c
  · subst hd
    rw [deleteChildren, children_setChildren]
    rfl
  · rw [deleteChildren, children_setChildren_of_ne _ hd]

theorem Store.insert_eq_some {row : c.Row} : db.insert c sessionID row = some db' ↔
    sessionID ∈ db.sessions.rows.map (·.id) ∧ db' = db.setChildren c ((db.children c).insert sessionID row) := by
  have hany : db.sessions.rows.any (·.id = sessionID) = true ↔ sessionID ∈ db.sessions.rows.map (·.id) := by
    simp only [List.any_eq_true, decide_eq_true_eq, List.mem_map]
  rw [insert, ← hany]
  split_ifs with h
  · rw [Option.some.injEq, eq_comm]
    exact ⟨fun he => ⟨h, he⟩, fun he => he.2⟩
  · exact ⟨fun he => (nomatch he), fun he => absurd he.1 h⟩

/-- The other rows keep their session and the messages are the same. -/
theorem Store.mem_insert {row : c.Row} (h : db.insert c sessionID row = some db') {d : ChildTable}
    {r : Owned d.Row} (hr : r ∈ (db'.children d).rows) :
    r ∈ (db.children d).rows ∨ d = c ∧ r.owner = sessionID ∧ r.id = (db.children d).seq + 1 := by
  obtain ⟨-, rfl⟩ := insert_eq_some.1 h
  by_cases hd : d = c
  · subst hd
    rw [children_setChildren, OwnedTable.mem_insert] at hr
    rcases hr with hr | rfl
    · exact .inl hr
    · exact .inr ⟨rfl, rfl, rfl⟩
  · rw [children_setChildren_of_ne _ hd] at hr
    exact .inl hr

theorem Store.seq_insert {row : c.Row} (h : db.insert c sessionID row = some db') (d : ChildTable) :
    (db.children d).seq ≤ (db'.children d).seq := by
  obtain ⟨-, rfl⟩ := insert_eq_some.1 h
  by_cases hd : d = c
  · subst hd
    rw [children_setChildren]
    exact Nat.le_succ _
  · rw [children_setChildren_of_ne _ hd]

theorem Store.mem_unindex {p : Owned MessageRow → Bool} {e : Indexed} : e ∈ (db.unindex p).fts ↔
    e ∈ db.fts ∧ ∀ m ∈ db.messages.rows, m.id = e.rowid → p m = false := by
  simp [unindex]

theorem messages_updateApprovals (p : Owned ApprovalRow → Bool) (f : ApprovalRow → ApprovalRow) :
    (db.setChildren .approvals ((db.children .approvals).updateWhere p f)).messages = db.messages :=
  Store.children_setChildren_of_ne _ (fun h => nomatch h)

theorem exists_of_mem_updateApprovals (p : Owned ApprovalRow → Bool) (f : ApprovalRow → ApprovalRow) {d : ChildTable}
    {r : Owned d.Row}
    (hr : r ∈ ((db.setChildren .approvals ((db.children .approvals).updateWhere p f)).children d).rows) :
    ∃ q ∈ (db.children d).rows, q.id = r.id ∧ q.owner = r.owner := by
  by_cases hd : d = .approvals
  · subst hd
    rw [Store.children_setChildren] at hr
    obtain ⟨q, hq, rfl⟩ := OwnedTable.mem_updateWhere.1 hr
    exact ⟨q, hq, rfl, rfl⟩
  · rw [Store.children_setChildren_of_ne _ hd] at hr
    exact ⟨r, hr, rfl, rfl⟩

/-! ### The transactions -/

/-- At most a row of an attachment and a message are put in. -/
theorem storeMessageForEvent_cases {event : SessionEvent} {payload : Str}
    (h : storeMessageForEvent T db sessionID event payload fails = some (db', out)) :
    db' = db ∧ out = [] ∨ (∃ row, insertMessage db sessionID row fails = some (db', out)) ∨
      ∃ db₁ attachment row, db.insert .attachments sessionID attachment = some db₁ ∧
        insertMessage db₁ sessionID row fails = some (db', out) := by
  have hsame : some (db, ([] : List ℕ)) = some (db', out) → db' = db ∧ out = [] := by
    intro h
    obtain ⟨rfl, rfl⟩ := Prod.mk.inj (Option.some.inj h)
    exact ⟨rfl, rfl⟩
  unfold storeMessageForEvent at h
  generalize "user_input".toList = userInput at h
  generalize "pty_output".toList = ptyOutput at h
  generalize "attach".toList = attach at h
  dsimp only at h
  generalize (if event.filename = [] then event.path else event.filename) = name at h
  by_cases huser : event.typ = userInput
  · rw [if_pos huser] at h
    split_ifs at h
    · exact .inl (hsame h)
    · exact .inr (.inl ⟨_, h⟩)
  rw [if_neg huser] at h
  by_cases hpty : event.typ = ptyOutput
  · rw [if_pos hpty] at h
    split_ifs at h
    · exact .inl (hsame h)
    · exact .inr (.inl ⟨_, h⟩)
  rw [if_neg hpty] at h
  split_ifs at h
  · exact .inl (hsame h)
  · obtain ⟨db₁, h₁, h₂⟩ := Option.bind_eq_some_iff.1 h
    exact .inr (.inr ⟨db₁, _, _, h₁, h₂⟩)
  · exact .inl (hsame h)

theorem ids_updateSessionForEvent (t : Sessions) (event : SessionEvent) (now : Str) :
    (updateSessionForEvent t liveSessionID event now).rows.map (·.id) = t.rows.map (·.id) := by
  rw [updateSessionForEvent]
  split_ifs
  · exact Table.ids_mapVal ..
  · exact Table.ids_mapVal ..
  · unfold Hub.StoredSummary.updateSessionForEvent
    dsimp only
    by_cases hempty : trimSpace (cutLineEnds event.text) = []
    · rw [if_pos hempty]
    · rw [if_neg hempty]
      exact Table.ids_mapVal ..
  · rfl

theorem ids_startSession (t : Sessions) (st : SessionStart) :
    ∀ n ∈ t.rows.map (·.id), n ∈ (startSession t st).1.rows.map (·.id) := by
  intro n hn
  rcases t.upsert_cases st.path st.fresh st.revive with ⟨r, -, -, he⟩ | ⟨-, hrows, -⟩
  · rw [startSession, he, Table.mapVal, Table.ids_mapVal]
    exact hn
  · rw [startSession, hrows, Table.added, List.map_append]
    exact List.mem_append_left _ hn

theorem ids_update (t : Sessions) (u : Update) :
    (SessionStore.update t liveSessionID u).rows.map (·.id) = t.rows.map (·.id) := by
  cases u with
  | state state lastOutputAt =>
    show (updateSessionState t liveSessionID state lastOutputAt).rows.map (·.id) = _
    by_cases hempty : trimSpace state = [] ∧ trimSpace lastOutputAt = []
    · rw [updateSessionState, if_pos hempty]
    · rw [updateSessionState, if_neg hempty]
      exact Table.ids_mapVal ..
  | messages _ _ | cardMeta _ | ended _ _ _ => exact Table.ids_mapVal ..

/-! ### What a job does by cases -/

theorem pruneStep_cases {cutoff : Str} {ids : List ℕ} (h : pruneStep db cutoff picked fails ids sweep = some (j', db', es)) :
    (ids = [] ∧ db' = db ∧ es = [] ∧ (j' = .returned ∨
      j' = .prune cutoff (expiredSessionIDs db.sessions cutoff pruneSessionBatch) (.select childTables))) ∨
    (∃ id rest, ids = id :: rest ∧ sweep = .select [] ∧ j' = .prune cutoff rest (.select childTables) ∧
      db' = db.deleteSessions (fun n => n = id) ∧ es = [.sessionPruned cutoff (db.session id) (db.hasChildren id)]) ∨
    ∃ id rest sweep', ids = id :: rest ∧ sweep.step (some id) picked fails db = some (sweep', db') ∧
      j' = .prune cutoff (id :: rest) sweep' ∧ es = sweep.told cutoff (db.session id) := by
  unfold pruneStep at h
  split at h
  · obtain ⟨rfl, rfl, rfl⟩ : _ ∧ db = db' ∧ [] = es := by simpa using h
    refine .inl ⟨rfl, rfl, rfl, ?_⟩
    split_ifs
    · exact .inl rfl
    · exact .inr rfl
  · rename_i id rest
    obtain ⟨rfl, rfl, rfl⟩ : _ ∧ _ = db' ∧ _ = es := by simpa only [Option.some.injEq, Prod.mk.injEq] using h
    exact .inr (.inl ⟨id, rest, rfl, rfl, rfl, rfl, rfl⟩)
  · rename_i id rest hsweep
    obtain ⟨⟨sweep', db₁⟩, hstep, heq⟩ := Option.map_eq_some_iff.1 h
    obtain ⟨rfl, rfl, rfl⟩ : _ ∧ _ = db' ∧ _ = es := by simpa only [Prod.mk.injEq] using heq
    exact .inr (.inr ⟨id, rest, sweep', rfl, hstep, rfl, rfl⟩)

theorem resetStep_cases {preserved : List ℕ} {wiped : ℕ}
    (h : resetStep db preserved wiped picked fails sweep = some (j', db', es)) :
    (sweep = .select [] ∧ (j' = .returned ∨ j' = .forget preserved) ∧
      db' = db.deleteSessions (fun n => n ∉ preserved) ∧ es = []) ∨
    ∃ sweep', sweep.step none picked fails db = some (sweep', db') ∧ j' = .reset preserved wiped sweep' ∧ es = [] := by
  unfold resetStep at h
  split at h
  · obtain ⟨rfl, rfl, rfl⟩ : _ ∧ _ = db' ∧ _ = es := by simpa only [Option.some.injEq, Prod.mk.injEq] using h
    refine .inl ⟨rfl, ?_, rfl, rfl⟩
    split_ifs
    · exact .inl rfl
    · exact .inr rfl
  · obtain ⟨⟨sweep', db₁⟩, hstep, heq⟩ := Option.map_eq_some_iff.1 h
    obtain ⟨rfl, rfl, rfl⟩ : _ ∧ _ = db' ∧ _ = es := by simpa only [Prod.mk.injEq] using heq
    exact .inr ⟨sweep', hstep, rfl, rfl⟩

theorem sweep_cases (h : sweep.step owner picked fails db = some (sweep', db')) :
    (∃ c cs, sweep = .select (c :: cs) ∧ (db.children c).Picks (concerns owner) pruneChildRowBatch picked ∧ db' = db ∧
      (picked = [] ∧ sweep' = .select cs ∨ c = .messages ∧ sweep' = .unindex picked cs ∨
        sweep' = .delete c picked cs ∧ c ≠ .messages)) ∨
    (∃ ids cs, sweep = .unindex ids cs ∧ sweep' = .delete .messages ids cs ∧
      db' = if fails then db else db.unindex fun m => m.id ∈ ids) ∨
    ∃ c ids cs, sweep = .delete c ids cs ∧ db' = db.deleteChildren c (fun r => r.id ∈ ids) ∧
      sweep' = if owner.isSome ∧ ids.length < pruneChildRowBatch then .select cs else .select (c :: cs) := by
  rcases sweep with (_ | ⟨c, cs⟩) | ⟨ids, cs⟩ | ⟨c, ids, cs⟩
  · exact nomatch h
  · rw [Sweep.step] at h
    split_ifs at h with hpicks hnil hc
    · obtain ⟨rfl, rfl⟩ := Prod.mk.inj (Option.some.inj h)
      exact .inl ⟨c, cs, rfl, hpicks, rfl, .inl ⟨hnil, rfl⟩⟩
    · obtain ⟨rfl, rfl⟩ := Prod.mk.inj (Option.some.inj h)
      exact .inl ⟨c, cs, rfl, hpicks, rfl, .inr (.inl ⟨hc, rfl⟩)⟩
    · obtain ⟨rfl, rfl⟩ := Prod.mk.inj (Option.some.inj h)
      exact .inl ⟨c, cs, rfl, hpicks, rfl, .inr (.inr ⟨rfl, hc⟩)⟩
  · obtain ⟨rfl, rfl⟩ := Prod.mk.inj (Option.some.inj h)
    exact .inr (.inl ⟨ids, cs, rfl, rfl, rfl⟩)
  · obtain ⟨rfl, rfl⟩ := Prod.mk.inj (Option.some.inj h)
    exact .inr (.inr ⟨c, ids, cs, rfl, rfl, rfl⟩)

/-! ### The tables that a sweep has emptied -/

def Sweep.tables : Sweep → List ChildTable
  | .select cs => cs
  | .unindex _ cs => .messages :: cs
  | .delete c _ cs => c :: cs

/-- The chunk that ends a table holds all that is left of it. -/
def Sweep.Complete (owner : Option ℕ) (db : Store) : Sweep → Prop
  | .select _ => True
  | .unindex ids _ => owner.isSome → ids.length < pruneChildRowBatch →
      ∀ m ∈ db.messages.rows, concerns owner m = true → m.id ∈ ids
  | .delete c ids _ => owner.isSome → ids.length < pruneChildRowBatch →
      ∀ r ∈ (db.children c).rows, concerns owner r = true → r.id ∈ ids

theorem Sweep.complete_none : sweep.Complete none db := by
  cases sweep with
  | select cs => trivial
  | unindex ids cs => exact fun h => nomatch h
  | delete c ids cs => exact fun h => nomatch h

/-- A table is left when it has no row to delete. -/
theorem Sweep.tables_step (h : sweep.step owner picked fails db = some (sweep', db')) (hc : sweep.Complete owner db)
    {d : ChildTable} (hd : d ∈ sweep.tables) :
    d ∈ sweep'.tables ∨ ∀ r ∈ (db'.children d).rows, concerns owner r = false := by
  rcases sweep_cases h with ⟨c, cs, rfl, hpicks, rfl, ⟨rfl, rfl⟩ | ⟨rfl, rfl⟩ | ⟨rfl, -⟩⟩ | ⟨ids, cs, rfl, rfl, rfl⟩ |
    ⟨c, ids, cs, rfl, rfl, rfl⟩
  · rcases List.mem_cons.1 hd with rfl | hd
    · refine .inr fun r hr => Bool.eq_false_iff.2 fun hp => ?_
      exact absurd (hpicks.mem (by decide) hr hp) List.not_mem_nil
    · exact .inl hd
  · exact .inl hd
  · exact .inl hd
  · exact .inl hd
  · split_ifs with hlast
    · rcases List.mem_cons.1 hd with rfl | hd
      · refine .inr fun r hr => Bool.eq_false_iff.2 fun hp => ?_
        rw [Store.deleteChildren, Store.children_setChildren] at hr
        obtain ⟨hr, hkept⟩ := OwnedTable.mem_deleteWhere.1 hr
        exact of_decide_eq_false hkept (hc hlast.1 hlast.2 r hr hp)
      · exact .inl hd
    · exact .inl hd

end ManyAiCli.SessionStore.History
