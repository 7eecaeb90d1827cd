import ManyAiCli.Hub.Connections

/-! Do the rows of the store stay with their sessions? A row is that of its live session ID
as long as no start brings a second row of the ID into play, one that is open or newer. -/

namespace ManyAiCli.Hub.Connections

open Runs SessionStore Tables

/-- The row that the last start of the live session ID has returned. -/
def lastStarted (es : List Event) (id : ℕ) : Option ℕ :=
  es.reverse.findSome? fun
    | .attached liveSessionID storeID _ _ => if liveSessionID = id then some storeID else none
    | .ui _ _ => none

namespace State

/-- Where a start runs, the other rows of its live session ID have ended, and are older than
the row that it takes up again. -/
def clear (s : State) : Action → Prop
  | .proceed c _ => ∀ x, s.conns[c]? = some x → x.phase = .attach →
      ∀ r ∈ s.store.rows, r.val.liveSessionID = x.id → r.key ≠ x.start.path →
        r.val.endedAt ≠ none ∧ ∀ q ∈ s.store.rows, q.key = x.start.path → r.id < q.id
  | _ => True

end State

/-! ### The last start -/

variable {es fs : List Event} {id : ℕ}

theorem lastStarted_append : lastStarted (es ++ fs) id = (lastStarted fs id).or (lastStarted es id) := by
  rw [lastStarted, List.reverse_append, List.findSome?_append]
  rfl

/-- No start is among the events. -/
def NoStart (es : List Event) : Prop := ∀ id storeID cardMeta row, Event.attached id storeID cardMeta row ∉ es

theorem lastStarted_of_noStart (h : NoStart es) : lastStarted es id = none := by
  refine List.findSome?_eq_none_iff.2 fun e he => ?_
  cases e with
  | attached id' storeID cardMeta row => exact absurd (List.mem_reverse.1 he) (h id' storeID cardMeta row)
  | ui id' msg => rfl

theorem noStart_nil : NoStart [] := fun _ _ _ _ h => nomatch h

theorem noStart_ui {id : ℕ} {msg : UIMessage} : NoStart [.ui id msg] := fun _ _ _ _ h => by simp at h

/-! ### What a step does to the table -/

namespace State

variable {s t : State} {a : Action}

/-- It leaves it, writes by live session ID, closes it all, or starts a session. -/
theorem step_store (h : s.step a = some (t, fs)) :
    (t.store = s.store ∧ NoStart fs) ∨
    (∃ id u, t.store = update s.store id u ∧ NoStart fs) ∨
    (∃ now reason, t.store = closeStaleSessions s.store now reason ∧ NoStart fs) ∨
    ∃ c now x, a = .proceed c now ∧ s.conns[c]? = some x ∧ x.phase = .attach ∧
      t.store = (attachStore s.store x.start).1 ∧
      fs = [.attached x.id (attachStore s.store x.start).2.1 (attachStore s.store x.start).2.2
        (rowOf (attachStore s.store x.start).1 (attachStore s.store x.start).2.1)] := by
  cases a with
  | register info label base =>
    cases h
    exact .inl ⟨rfl, noStart_nil⟩
  | reattach sessionID info label base =>
    simp only [State.step] at h
    split_ifs at h
    cases h
    exact .inl ⟨rfl, noStart_nil⟩
  | proceed c now =>
    obtain ⟨⟨start, state, phase⟩, hx, h⟩ := Option.bind_eq_some_iff.1 h
    cases phase <;> simp only [State.proceed] at h
    case attach =>
      cases h
      exact .inr (.inr (.inr ⟨c, now, _, rfl, hx, rfl, rfl, rfl⟩))
    case store =>
      cases h
      exact .inl ⟨rfl, noStart_nil⟩
    case announce =>
      split_ifs at h
      · cases h
        exact .inl ⟨rfl, noStart_ui⟩
      · cases h
        exact .inl ⟨rfl, noStart_nil⟩
    case looping =>
      cases h
      exact .inl ⟨rfl, noStart_nil⟩
    case ending endState endReason =>
      cases h
      exact .inr (.inl ⟨start.liveSessionID, .ended (stateText endState) endReason now, rfl, noStart_nil⟩)
    case deleting =>
      cases h
      exact .inl ⟨rfl, noStart_nil⟩
    case closing =>
      cases h
      exact .inl ⟨rfl, noStart_ui⟩
    case finished => cases h
  | dismiss id =>
    simp only [State.step, State.dismiss] at h
    split at h
    · cases h
      exact .inl ⟨rfl, noStart_ui⟩
    · cases h
      exact .inl ⟨rfl, noStart_nil⟩
  | proceedDismiss i now =>
    obtain ⟨d, hd, h⟩ := Option.bind_eq_some_iff.1 h
    cases d <;> simp only [State.proceedDismiss] at h
    case deleting id =>
      cases h
      exact .inl ⟨rfl, noStart_nil⟩
    case ending id =>
      cases h
      exact .inr (.inl ⟨id, .ended (stateText .dismissed) [] now, rfl, noStart_nil⟩)
    case closing id =>
      cases h
      exact .inl ⟨rfl, noStart_ui⟩
    case finished => cases h
  | setState id state endReason =>
    cases h
    exact .inl ⟨rfl, noStart_nil⟩
  | usage id =>
    cases h
    exact .inl ⟨rfl, noStart_nil⟩
  | update id u =>
    cases h
    exact .inr (.inl ⟨id, u, rfl, noStart_nil⟩)
  | restart now =>
    cases h
    exact .inr (.inr (.inl ⟨now, _, rfl, noStart_nil⟩))

/-- No connection has the ID 0. -/
def Positive (s : State) : Prop := ∀ x ∈ s.conns, x.id ≠ 0

theorem Positive.step (hp : s.Positive) (h : s.step a = some (t, fs)) : t.Positive := by
  intro y hy
  rcases step_conns h with ⟨c, now, x, q, -, hx, hc⟩ | ⟨x, hconns, hid, -⟩ | ⟨hconns, -⟩ | ⟨hconns, -⟩
  · rw [hc.conns] at hy
    rcases List.mem_or_eq_of_mem_set hy with hy | rfl
    · exact hp y hy
    · exact hp x (List.mem_of_getElem? hx)
  · rw [hconns, List.mem_append] at hy
    rcases hy with hy | hy
    · exact hp y hy
    · rwa [List.mem_singleton.1 hy]
  · rw [hconns] at hy
    cases hy
  · exact hp y (hconns ▸ hy)

end State

/-! ### The open rows -/

/-- An open row is that of the last start of its live session ID. -/
def OpenLast (es : List Event) (t : Sessions) : Prop :=
  ∀ r ∈ t.rows, r.val.endedAt = none → lastStarted es r.val.liveSessionID = some r.id

/-- Every start so far was handed the metadata of its row. -/
def Restored (es : List Event) : Prop :=
  ∀ id storeID cardMeta row, Event.attached id storeID cardMeta row ∈ es → ∃ r, row = some r ∧ cardMeta = r.cardMeta

variable {t : Sessions}

theorem OpenLast.append (h : OpenLast es t) (hf : NoStart fs) : OpenLast (es ++ fs) t := by
  intro r hr ho
  rw [lastStarted_append, lastStarted_of_noStart hf, Option.none_or]
  exact h r hr ho

theorem OpenLast.update (h : OpenLast es t) (id : ℕ) (u : Update) : OpenLast es (update t id u) := by
  intro r hr ho
  obtain ⟨r₀, hr₀, hid, -, hlive, hopen, -⟩ := stems_of_mem_update hr
  rw [← hid, ← hlive]
  exact h r₀ hr₀ (hopen ho)

theorem openLast_closeStaleSessions (now reason : Str) : OpenLast es (closeStaleSessions t now reason) :=
  fun _ hr ho => absurd ho (mem_closeStaleSessions hr)

/-- A start takes up a row or adds one, and no other row of its live session ID is open. -/
theorem OpenLast.attach (h : OpenLast es t) (start : SessionStart) (cardMeta : SessionCardMeta)
    (row : Option SessionRow)
    (hclear : ∀ r ∈ t.rows, r.val.liveSessionID = start.liveSessionID → r.key ≠ start.path → r.val.endedAt ≠ none) :
    OpenLast (es ++ [.attached start.liveSessionID (startSession t start).2 cardMeta row]) (startSession t start).1 := by
  intro r hr ho
  obtain ⟨q, hq, hqid, hqkey, hqlive, -⟩ := exists_started t start
  rw [lastStarted_append]
  rcases mem_startSession hr with ⟨hid, hkey⟩ | ⟨hr', hkey⟩
  · obtain rfl := Table.eq_of_key hr hq (hkey.trans hqkey.symm)
    rw [hqlive, hid]
    simp [lastStarted]
  · by_cases hlive : r.val.liveSessionID = start.liveSessionID
    · exact absurd ho (hclear r hr' hlive hkey)
    · have hnone : lastStarted [.attached start.liveSessionID (startSession t start).2 cardMeta row]
          r.val.liveSessionID = none := by
        simp [lastStarted, Ne.symm hlive]
      rw [hnone, Option.none_or]
      exact h r hr' ho

/-- The newest row of the live session ID is the row that the start returns. -/
theorem attachStore_restores (start : SessionStart) (hid : start.liveSessionID ≠ 0)
    (hclear : ∀ r ∈ t.rows, r.val.liveSessionID = start.liveSessionID → r.key ≠ start.path →
      ∀ q ∈ t.rows, q.key = start.path → r.id < q.id) :
    ∃ r, rowOf (attachStore t start).1 (attachStore t start).2.1 = some r ∧
      (attachStore t start).2.2 = r.cardMeta := by
  obtain ⟨q, hq, hqid, hqkey, hqlive, hfrom⟩ := exists_started t start
  have hfind : (startSession t start).1.rows.find? (·.id = (startSession t start).2) = some q := by
    rw [← hqid]
    exact Table.find?_id hq
  have hnewest : (startSession t start).1.newest (·.liveSessionID = start.liveSessionID) = some q := by
    refine Table.newest_eq hq (decide_eq_true hqlive) fun r hr hl => ?_
    rcases mem_startSession hr with ⟨hrid, -⟩ | ⟨hr', hkey⟩
    · rw [hrid, hqid]
    · rcases hfrom with hall | ⟨p, hp, hpkey, hpid⟩
      · rw [hqid]
        exact (hall r hr').2.le
      · rw [hqid, ← hpid]
        exact (hclear r hr' (of_decide_eq_true hl) hkey p hp hpkey).le
  refine ⟨q.val, ?_, ?_⟩
  · show ((startSession t start).1.rows.find? (·.id = (startSession t start).2)).map (·.val) = some q.val
    rw [hfind]
    rfl
  · show sessionCardMetaByLiveSession (startSession t start).1 start.liveSessionID = q.val.cardMeta
    rw [sessionCardMetaByLiveSession, if_neg hid, hnewest]

/-! ### Runs -/

namespace State

structure RowInv (es : List Event) (s : State) : Prop where
  openLast : OpenLast es s.store
  restored : Restored es
  positive : s.Positive

end State

theorem Restored.append (h : Restored es) (hf : NoStart fs) : Restored (es ++ fs) := by
  intro id storeID cardMeta row he
  rcases List.mem_append.1 he with he | he
  · exact h id storeID cardMeta row he
  · exact absurd he (hf id storeID cardMeta row)

namespace State

variable {s u : State} {a : Action}

theorem RowInv.step (h : RowInv es s) (hok : s.clear a) (hs : s.step a = some (u, fs)) : RowInv (es ++ fs) u := by
  have hp := h.positive.step hs
  rcases step_store hs with ⟨hstore, hf⟩ | ⟨id, w, hstore, hf⟩ | ⟨now, reason, hstore, hf⟩ |
    ⟨c, now, x, rfl, hx, hph, hstore, rfl⟩
  · exact ⟨hstore ▸ h.openLast.append hf, h.restored.append hf, hp⟩
  · exact ⟨hstore ▸ (h.openLast.update id w).append hf, h.restored.append hf, hp⟩
  · exact ⟨hstore ▸ (openLast_closeStaleSessions now reason).append hf, h.restored.append hf, hp⟩
  · have hclear := hok x hx hph
    refine ⟨?_, ?_, hp⟩
    · rw [hstore]
      exact h.openLast.attach x.start _ _ fun r hr hl hk => (hclear r hr hl hk).1
    · intro id storeID cardMeta row he
      rcases List.mem_append.1 he with he | he
      · exact h.restored id storeID cardMeta row he
      · obtain ⟨-, rfl, rfl, rfl⟩ := Event.attached.inj (List.mem_singleton.1 he)
        exact attachStore_restores x.start (h.positive x (List.mem_of_getElem? hx))
          fun r hr hl hk => (hclear r hr hl hk).2

end State

end ManyAiCli.Hub.Connections
