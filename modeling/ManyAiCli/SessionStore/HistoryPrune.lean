import ManyAiCli.SessionStore.HistorySteps

/-! Old sessions are pruned while the store is at work. A prune reads which sessions are over, and deletes
them in many statements, with nothing that keeps the others from starting or filling these sessions again:
what it deletes is over if nobody does. -/

namespace ManyAiCli.SessionStore.History

open Tables Text

/-! ### Who disturbs a prune -/

/-- The sessions that a prune has selected and not deleted. -/
def Job.pruning : Job → List ℕ
  | .prune _ ids _ => ids
  | .lookup .. | .write .. | .preserve .. | .wipe _ | .reset .. | .forget _ | .returned => []

/-- The session that the next statement of the caller puts a row in. -/
def Job.fills : Job → Option ℕ
  | .write sessionID w => if w.inserts then some sessionID else none
  | .lookup .. | .prune .. | .preserve .. | .wipe _ | .reset .. | .forget _ | .returned => none

/-- No session that a prune has selected is started again or filled. -/
def Undisturbed (s : State) : Act → Prop
  | .start st => ∀ q ∈ s.store.sessions.rows, q.key = st.path → ∀ j ∈ s.jobs, q.id ∉ j.pruning
  | .resume i _ _ => ∀ j ∈ s.jobs[i]?, ∀ sessionID ∈ j.fills, ∀ q ∈ s.jobs, sessionID ∉ q.pruning
  | .update .. | .closeStale .. | .call _ | .recreate => True

instance (s : State) (a : Act) : Decidable (Undisturbed s a) :=
  match a with
  | .start st => inferInstanceAs (Decidable (∀ q ∈ s.store.sessions.rows, q.key = st.path → ∀ j ∈ s.jobs, q.id ∉ j.pruning))
  | .resume i _ _ => inferInstanceAs (Decidable (∀ j ∈ s.jobs[i]?, ∀ sessionID ∈ j.fills, ∀ q ∈ s.jobs, sessionID ∉ q.pruning))
  | .update .. | .closeStale .. | .call _ | .recreate => .isTrue trivial

/-- What a prune deletes is of a session that is over, and nothing goes with the row of the session. -/
def Event.Spares : Event → Prop
  | .notIndexed _ => True
  | .rowsPruned cutoff session => ∀ r ∈ session, endedBelow cutoff r = true
  | .sessionPruned cutoff session cascades => (∀ r ∈ session, endedBelow cutoff r = true) ∧ cascades = false

variable {T : Texts} {db db₁ db₂ db' : Store} {c : ChildTable} {sessionID liveSessionID id : ℕ} {fails : Bool}
  {out picked : List ℕ} {owner : Option ℕ} {sweep sweep' : Sweep} {j j' : Job} {es : List Event} {cutoff : Str}

/-! ### What the others leave as it is -/

/-- The session is as ended as it was, and has no new rows. -/
structure Keeps (id : ℕ) (db db' : Store) : Prop where
  seq : db.sessions.seq ≤ db'.sessions.seq
  ended : ∀ r ∈ db'.sessions.rows, r.id = id →
    ∃ r₀ ∈ db.sessions.rows, r₀.id = id ∧ (r₀.val.endedAt ≠ none → r.val.endedAt = r₀.val.endedAt)
  rows : ∀ c, ∀ r ∈ (db'.children c).rows, r.owner = id → ∃ q ∈ (db.children c).rows, q.id = r.id ∧ q.owner = id

theorem Keeps.trans (h : Keeps id db db₁) (h' : Keeps id db₁ db₂) : Keeps id db db₂ where
  seq := Nat.le_trans h.seq h'.seq
  ended r hr hid := by
    obtain ⟨r₁, hr₁, hid₁, hend₁⟩ := h'.ended r hr hid
    obtain ⟨r₀, hr₀, hid₀, hend₀⟩ := h.ended r₁ hr₁ hid₁
    refine ⟨r₀, hr₀, hid₀, fun hne => ?_⟩
    have he := hend₀ hne
    rw [hend₁ (he ▸ hne), he]
  rows c r hr howner := by
    obtain ⟨q, hq, hqid, hqowner⟩ := h'.rows c r hr howner
    obtain ⟨p, hp, hpid, hpowner⟩ := h.rows c q hq hqowner
    exact ⟨p, hp, hpid.trans hqid, hpowner⟩

/-- The sessions that are left are over or gone, and the first one has no row in the tables that have
been swept. -/
def Job.Knows (db : Store) : Job → Prop
  | .prune cutoff ids sweep =>
    (∀ n ∈ ids, n ≤ db.sessions.seq ∧ ∀ r ∈ db.sessions.rows, r.id = n → endedBelow cutoff r = true) ∧
    ∀ id ∈ ids.head?, sweep.Complete (some id) db ∧
      ∀ c, c ∉ sweep.tables → ∀ r ∈ (db.children c).rows, r.owner ≠ id
  | .lookup .. | .write .. | .preserve .. | .wipe _ | .reset .. | .forget _ | .returned => True

theorem endedBelow_of_keeps {r r₀ : Numbered Str SessionRow} (h : endedBelow cutoff r₀ = true)
    (hend : r₀.val.endedAt ≠ none → r.val.endedAt = r₀.val.endedAt) : endedBelow cutoff r = true := by
  have hne : r₀.val.endedAt ≠ none := by
    intro hnone
    rw [endedBelow, hnone] at h
    exact Bool.noConfusion h
  rw [endedBelow, hend hne]
  exact h

theorem over_keeps {ids : List ℕ} (hk : ∀ n ∈ ids, n ≤ db.sessions.seq → Keeps n db db')
    (h : ∀ n ∈ ids, n ≤ db.sessions.seq ∧ ∀ r ∈ db.sessions.rows, r.id = n → endedBelow cutoff r = true) :
    ∀ n ∈ ids, n ≤ db'.sessions.seq ∧ ∀ r ∈ db'.sessions.rows, r.id = n → endedBelow cutoff r = true := by
  intro n hn
  obtain ⟨hle, hover⟩ := h n hn
  have hkeeps := hk n hn hle
  refine ⟨Nat.le_trans hle hkeeps.seq, fun r hr hid => ?_⟩
  obtain ⟨r₀, hr₀, hid₀, hend⟩ := hkeeps.ended r hr hid
  exact endedBelow_of_keeps (hover r₀ hr₀ hid₀) hend

theorem Keeps.complete (hk : Keeps id db db') (h : sweep.Complete (some id) db) : sweep.Complete (some id) db' := by
  cases sweep with
  | select cs => trivial
  | unindex ids cs =>
    intro howner hlt m hm hp
    obtain ⟨q, hq, hid, hqowner⟩ := hk.rows .messages m hm (of_decide_eq_true hp)
    exact hid ▸ h howner hlt q hq (decide_eq_true hqowner)
  | delete c ids cs =>
    intro howner hlt r hr hp
    obtain ⟨q, hq, hid, hqowner⟩ := hk.rows c r hr (of_decide_eq_true hp)
    exact hid ▸ h howner hlt q hq (decide_eq_true hqowner)

/-- Another caller goes on. -/
theorem Job.Knows.keeps (h : j.Knows db) (hk : ∀ n ∈ j.pruning, n ≤ db.sessions.seq → Keeps n db db') : j.Knows db' := by
  cases j with
  | prune cutoff ids sweep =>
    obtain ⟨hover, hhead⟩ := h
    refine ⟨over_keeps hk hover, fun id hid => ?_⟩
    have hmem := List.mem_of_mem_head? hid
    have hkeeps := hk id hmem (hover id hmem).1
    obtain ⟨hcomplete, hswept⟩ := hhead id hid
    refine ⟨hkeeps.complete hcomplete, fun c hc r hr howner => ?_⟩
    obtain ⟨q, hq, -, hqowner⟩ := hkeeps.rows c r hr howner
    exact hswept c hc q hq hqowner
  | lookup _ _ | write _ _ | preserve _ _ | wipe _ | reset _ _ _ | forget _ | returned => trivial

/-- All that has been deleted was over, and all prunes know their sessions. -/
def PruneInv (es : List Event) (s : State) : Prop := (∀ e ∈ es, e.Spares) ∧ ∀ j ∈ s.jobs, j.Knows s.store

theorem PruneInv.sessions {h : List Event} {s : State} (hI : PruneInv h s) {db : Store}
    (hk : ∀ j ∈ s.jobs, ∀ n ∈ j.pruning, n ≤ s.store.sessions.seq → Keeps n s.store db) :
    PruneInv (h ++ []) { s with store := db } := by
  rw [List.append_nil]
  exact ⟨hI.1, fun j hj => (hI.2 j hj).keeps (hk j hj)⟩

end ManyAiCli.SessionStore.History
