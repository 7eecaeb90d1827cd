import ManyAiCli.Hub.ServerConns

/-! The connections of the manager and their entries in `launcher-active.json` agree at
rest, in runs in which what changes `conns` and what changes the file come in order. -/

namespace ManyAiCli.Hub.ServerConns

open Launcher Runs

/-! ### What the file is to agree with -/

/-- The stages of a connection: on its way into `conns`, there unless it was taken out
again, and past it. -/
inductive Stage
  | establishing
  | established
  | ended
  deriving DecidableEq

def Pc.stage : Pc → Stage
  | .waiting | .promoting _ | .failing _ => .establishing
  | .registering | .watching | .closing => .established
  | .unregistering | .done => .ended

/-- The URL that the goroutine has put in the file and not taken out. -/
def LiveConn.entry (c : LiveConn) : Option String :=
  match c.pc with
  | .watching | .closing => some c.hubURL
  | _ => none

def LiveConn.unregisters (name : String) (c : LiveConn) : Bool := c.name = name && c.pc = .unregistering

def Task.unregisters (name : String) : Task → Bool
  | .cancelling n _ | .unregistering n => n = name
  | .closing _ | .unregisteringAll => true
  | _ => false

def Task.cancels (i : ℕ) : Task → Bool
  | .cancelling _ lc => lc = i
  | .closing lcs => i ∈ lcs
  | _ => false

namespace State

/-- The URL in the file of the connection that `conns` has for the profile. -/
def recordedURL (s : State) (name : String) : Option String :=
  (s.conns.lookup name).bind fun i => s.lcs[i]?.bind LiveConn.entry

/-- An unregistration of the profile is still to come. -/
def unregisters (s : State) (name : String) : Bool :=
  s.connecting = some name || s.tasks.any (·.unregisters name) || s.lcs.any (·.unregisters name)

/-- No handler is on its way, nor `closeAll`, and no goroutine of a connection is between
what it waits for and what follows. -/
def AtRest (s : State) : Prop :=
  s.connecting = none ∧ (∀ task ∈ s.tasks, task = .done) ∧
    ∀ c ∈ s.lcs, c.pc = .waiting ∨ c.pc = .watching ∨ c.pc = .done

instance (s : State) : Decidable s.AtRest :=
  inferInstanceAs (Decidable (_ ∧ (∀ task ∈ s.tasks, _) ∧ ∀ c ∈ s.lcs, _))

/-- The entries of this process are those of the connections in `conns`. -/
def Agrees (pid : ℕ) (s : State) : Prop :=
  ∀ name hubURL, ⟨name, pid, hubURL⟩ ∈ s.file ↔
    ∃ i c, s.conns.lookup name = some i ∧ s.lcs[i]? = some c ∧ c.hubURL = hubURL

/-- Every connection in the file answers. -/
def answers (pid : ℕ) (s : State) (alive : ℕ → Bool) (probe : String → Bool) : Bool :=
  s.conns.entries.all fun e => (s.recordedURL e.1).all fun hubURL => alive pid && probe hubURL

end State

/-- A connection is put in the file while it is in `conns`, or an unregistration of its
profile is still to come; a profile is unregistered when its connection in `conns`, if any,
is not in the file yet; pruning finds the connections in the file alive; and no connect
handler comes after `closeAll`. -/
def inOrder (pid : ℕ) (s : State) : Action → Bool
  | .connect _ => !s.closed
  | .register i => s.lcs[i]?.all fun c => s.conns.lookup c.name = some i || s.unregisters c.name
  | .unregister i => s.lcs[i]?.all fun c => (s.recordedURL c.name).isNone
  | .unregisterTaken k => s.tasks[k]?.all fun task => match task with
    | .unregistering name => (s.recordedURL name).isNone
    | _ => true
  | .disconnect _ _ alive probe | .prune alive probe => s.answers pid alive probe
  | _ => true

variable {pid : ℕ} {s t : State} {a : Action} {i k : ℕ} {c : LiveConn} {name hubURL : String}

/-! ### Where the connections are -/

/-- What is in `conns` is an established connection of its profile, what is `inflight` is
on its way and replaces nothing, and after `closeAll` there is neither. -/
structure Places (s : State) : Prop where
  live : ∀ name i, s.conns.lookup name = some i →
    ∃ c, s.lcs[i]? = some c ∧ c.name = name ∧ c.pc.stage = .established
  inflight : ∀ i, s.inflight = some i → s.connecting = none ∧
    ∃ c, s.lcs[i]? = some c ∧ c.pc.stage = .establishing ∧ s.conns.lookup c.name = none
  connecting : ∀ name, s.connecting = some name → s.conns.lookup name = none
  closed : s.closed = true → s.inflight = none ∧ s.connecting = none ∧ ∀ name, s.conns.lookup name = none
  closing : ∀ task ∈ s.tasks, (∃ lcs, task = .closing lcs) ∨ task = .unregisteringAll → s.closed = true

/-- Each connection is at the same stage still. -/
def SameStages (s t : State) : Prop :=
  ∀ (i : ℕ) (c : LiveConn), s.lcs[i]? = some c →
    ∃ c', t.lcs[i]? = some c' ∧ c'.name = c.name ∧ c'.pc.stage = c.pc.stage

theorem SameStages.refl (s : State) : SameStages s s := fun _ c hc => ⟨c, hc, rfl, rfl⟩

theorem sameStages_modify {f : LiveConn → LiveConn} (hc : s.lcs[i]? = some c) (hname : (f c).name = c.name)
    (hstage : (f c).pc.stage = c.pc.stage) (ht : t.lcs = s.lcs.modify i f) : SameStages s t := by
  intro j d hd
  rw [ht, List.getElem?_modify, hd]
  by_cases hij : i = j
  · subst hij
    obtain rfl := Option.some_inj.mp (hc.symm.trans hd)
    exact ⟨f c, by simp, hname, hstage⟩
  · exact ⟨d, by simp [hij], rfl, rfl⟩

/-- A step after which all is where it was. -/
theorem Places.congr (h : Places s) (hlcs : SameStages s t) (hconns : t.conns = s.conns)
    (hinflight : t.inflight = s.inflight) (hconnecting : t.connecting = s.connecting)
    (hclosed : t.closed = s.closed)
    (htasks : ∀ task ∈ t.tasks, (∃ lcs, task = .closing lcs) ∨ task = .unregisteringAll → s.closed = true) :
    Places t where
  live name i hi := by
    rw [hconns] at hi
    obtain ⟨c, hc, hname, hstage⟩ := h.live name i hi
    obtain ⟨c', hc', hname', hstage'⟩ := hlcs i c hc
    exact ⟨c', hc', hname'.trans hname, hstage'.trans hstage⟩
  inflight i hi := by
    rw [hinflight] at hi
    obtain ⟨hnone, c, hc, hstage, hlookup⟩ := h.inflight i hi
    obtain ⟨c', hc', hname', hstage'⟩ := hlcs i c hc
    exact ⟨hconnecting.trans hnone, c', hc', hstage'.trans hstage, by rwa [hconns, hname']⟩
  connecting name hname := by
    rw [hconns]
    exact h.connecting name (hconnecting ▸ hname)
  closed ht := by
    rw [hconns, hinflight, hconnecting]
    exact h.closed (hclosed ▸ ht)
  closing task htask hcloses := hclosed.trans (htasks task htask hcloses)

theorem SameStages.trans {u : State} (h : SameStages s t) (h' : SameStages t u) : SameStages s u := by
  intro i c hc
  obtain ⟨c', hc', hname, hstage⟩ := h i c hc
  obtain ⟨c'', hc'', hname', hstage'⟩ := h' i c' hc'
  exact ⟨c'', hc'', hname'.trans hname, hstage'.trans hstage⟩

theorem sameStages_cancel (s : State) (i : ℕ) : SameStages s (s.cancel i) := by
  intro j c hc
  simp only [State.cancel, List.getElem?_modify, hc]
  split_ifs
  · exact ⟨_, rfl, rfl, rfl⟩
  · exact ⟨_, rfl, rfl, rfl⟩

theorem sameStages_cancelInflight (s : State) : SameStages s s.cancelInflight := by
  unfold State.cancelInflight
  split
  · exact sameStages_cancel s _
  · exact .refl s

theorem Places.cancel (h : Places s) (i : ℕ) : Places (s.cancel i) :=
  h.congr (sameStages_cancel s i) rfl rfl rfl rfl h.closing

/-- Only `lcs` changes. -/
theorem foldl_cancel_eq (lcs : List ℕ) (s : State) :
    lcs.foldl State.cancel s = { s with lcs := (lcs.foldl State.cancel s).lcs } := by
  induction lcs generalizing s with
  | nil => rfl
  | cons i lcs ih => exact ih (s.cancel i)

theorem Places.foldl_cancel (h : Places s) (lcs : List ℕ) : Places (lcs.foldl State.cancel s) := by
  induction lcs generalizing s with
  | nil => exact h
  | cons i lcs ih => exact ih (h.cancel i)

/-- A goroutine goes on within its stage. -/
theorem Places.setPc (h : Places s) (hc : s.lcs[i]? = some c) {pc : Pc} (hstage : pc.stage = c.pc.stage)
    {file : List ActiveConnection} : Places { s.setPc i pc with file } :=
  h.congr (sameStages_modify hc rfl hstage rfl) rfl rfl rfl rfl h.closing

/-- A handler goes on. -/
theorem Places.setTask (h : Places s) {task : Task}
    (htask : (∃ lcs, task = .closing lcs) ∨ task = .unregisteringAll → s.closed = true)
    {file : List ActiveConnection} : Places { s.setTask k task with file } := by
  refine h.congr (.refl s) rfl rfl rfl rfl fun other hother hcloses => ?_
  rcases List.mem_or_eq_of_mem_set hother with hother | rfl
  · exact h.closing other hother hcloses
  · exact htask hcloses

/-- A new connection is put on its way. -/
theorem Places.startConnecting (h : Places s) (hfree : s.conns.lookup name = none) (hopen : s.closed = false)
    :
    Places (s.startConnecting name) where
  live n i hi := by
    obtain ⟨c, hc, hrest⟩ := h.live n i hi
    exact ⟨c, (List.getElem?_append_left (List.getElem?_eq_some_iff.mp hc).1).trans hc, hrest⟩
  inflight i hi := by
    obtain rfl := Option.some_inj.mp hi
    exact ⟨rfl, ⟨name, "", false, .waiting⟩, List.getElem?_concat_length, rfl, hfree⟩
  connecting n hn := nomatch hn
  closed hclosed := absurd (hopen.symm.trans hclosed) Bool.false_ne_true
  closing := h.closing

theorem Places.dropInflight (h : Places s) {connectRes : Option (Except String String)} :
    Places { s with inflight := none, connectRes } where
  live := h.live
  inflight i hi := absurd hi.symm (Option.some_ne_none i)
  connecting := h.connecting
  closed hs := ⟨rfl, (h.closed hs).2⟩
  closing := h.closing

theorem Places.cancelInflight (h : Places s) : Places s.cancelInflight := by
  unfold State.cancelInflight
  split
  · exact (h.cancel _).dropInflight
  · exact h

theorem inflight_cancelInflight (s : State) : s.cancelInflight.inflight = none := by
  unfold State.cancelInflight
  split
  · rfl
  · assumption

/-- Only `lcs` and `inflight` change. -/
theorem cancelInflight_eq (s : State) :
    s.cancelInflight = { s with lcs := s.cancelInflight.lcs, inflight := none } := by
  unfold State.cancelInflight
  split
  · rfl
  · next h => rw [← h]

/-- A connection leaves `conns`; `lcs` and the tasks may change with it. -/
theorem Places.erase (h : Places s) (hinflight : t.inflight = s.inflight ∨ t.inflight = none)
    (hconns : t.conns = s.conns.erase name) (hclosed : t.closed = s.closed)
    (hconnecting : t.connecting = s.connecting ∨ t.connecting = some name ∧ t.inflight = none ∧ s.closed =
      false)
    (hlcs : ∀ (j : ℕ) (d : LiveConn), s.lcs[j]? = some d → ∃ d', t.lcs[j]? = some d' ∧ d'.name = d.name ∧
      (d'.pc.stage = d.pc.stage ∨ s.conns.lookup name = some j ∧ d.pc.stage = .established))
    (htasks : ∀ task ∈ t.tasks, (∃ lcs, task = .closing lcs) ∨ task = .unregisteringAll → s.closed = true) :
    Places t := by
  have hlookup (n : String) (i : ℕ) (hi : t.conns.lookup n = some i) : n ≠ name ∧ s.conns.lookup n = some i
    := by
    rw [hconns] at hi
    by_cases hn : n = name
    · rw [hn, AList.lookup_erase] at hi
      cases hi
    · exact ⟨hn, by rwa [AList.lookup_erase_ne hn] at hi⟩
  have hnone (n : String) (hn : s.conns.lookup n = none) : t.conns.lookup n = none := by
    by_contra hne
    obtain ⟨i, hi⟩ := Option.ne_none_iff_exists'.mp hne
    exact Option.some_ne_none _ ((hlookup n i hi).2.symm.trans hn)
  constructor
  · intro n i hi
    obtain ⟨hne, hs⟩ := hlookup n i hi
    obtain ⟨d, hd, hname, hstage⟩ := h.live n i hs
    obtain ⟨d', hd', hname', hstage' | ⟨hgone, -⟩⟩ := hlcs i d hd
    · exact ⟨d', hd', hname'.trans hname, hstage'.trans hstage⟩
    · obtain ⟨e, he, hename, -⟩ := h.live name i hgone
      obtain rfl := Option.some_inj.mp (hd.symm.trans he)
      exact absurd (hname.symm.trans hename) hne
  · intro i hi
    have hs : s.inflight = some i := by
      rcases hinflight with heq | heq
      · exact heq ▸ hi
      · exact absurd (hi.symm.trans heq) (Option.some_ne_none i)
    obtain ⟨hcon, d, hd, hstage, hfree⟩ := h.inflight i hs
    obtain ⟨d', hd', hname', hstage' | ⟨-, hest⟩⟩ := hlcs i d hd
    · refine ⟨?_, d', hd', hstage'.trans hstage, hnone _ (hname' ▸ hfree)⟩
      rcases hconnecting with heq | ⟨-, hni, -⟩
      · exact heq.trans hcon
      · exact absurd (hi.symm.trans hni) (Option.some_ne_none i)
    · exact absurd (hstage.symm.trans hest) (by decide)
  · intro n hn
    rcases hconnecting with heq | ⟨heq, -, -⟩
    · exact hnone n (h.connecting n (heq ▸ hn))
    · obtain rfl := Option.some_inj.mp (heq.symm.trans hn)
      rw [hconns, AList.lookup_erase]
  · intro ht
    rw [hclosed] at ht
    obtain ⟨hin, hcon, hall⟩ := h.closed ht
    refine ⟨?_, ?_, fun n => hnone n (hall n)⟩
    · exact hinflight.elim (fun heq => heq.trans hin) id
    · rcases hconnecting with heq | ⟨-, -, hopen⟩
      · exact heq.trans hcon
      · exact absurd (hopen.symm.trans ht) Bool.false_ne_true
  · exact fun task htask hcloses => hclosed.trans (htasks task htask hcloses)

theorem Places.lookup_ne (h : Places s) (hc : s.lcs[i]? = some c) (hstage : c.pc.stage = .establishing) :
    s.conns.lookup c.name ≠ some i := by
  intro hi
  obtain ⟨d, hd, -, hest⟩ := h.live c.name i hi
  obtain rfl := Option.some_inj.mp (hc.symm.trans hd)
  exact absurd (hstage.symm.trans hest) (by decide)

/-- It is in `conns` under its own profile only. -/
theorem Places.lookup_ne_of_name (h : Places s) (hc : s.lcs[i]? = some c) (hname : name ≠ c.name) :
    s.conns.lookup name ≠ some i := by
  intro hi
  obtain ⟨d, hd, hd', -⟩ := h.live name i hi
  obtain rfl := Option.some_inj.mp (hc.symm.trans hd)
  exact hname hd'.symm

theorem Places.inflight_ne (h : Places s) (hc : s.lcs[i]? = some c) (hstage : c.pc.stage = .established) :
    s.inflight ≠ some i := by
  intro hi
  obtain ⟨-, d, hd, hest, -⟩ := h.inflight i hi
  obtain rfl := Option.some_inj.mp (hc.symm.trans hd)
  exact absurd (hest.symm.trans hstage) (by decide)

/-- A connection in neither place ends. -/
theorem Places.finish (h : Places s) (hc : s.lcs[i]? = some c) (hconns : s.conns.lookup c.name ≠ some i)
    (hinflight : s.inflight ≠ some i) (pc : Pc) : Places (s.setPc i pc) := by
  have hother (j : ℕ) (d : LiveConn) (hd : s.lcs[j]? = some d) (hij : i ≠ j) :
      (s.setPc i pc).lcs[j]? = some d := by
    simp [State.setPc, hd, hij]
  refine ⟨fun n j hj => ?_, fun j hj => ?_, h.connecting, h.closed, h.closing⟩
  · obtain ⟨d, hd, hname, hest⟩ := h.live n j hj
    refine ⟨d, hother j d hd ?_, hname, hest⟩
    rintro rfl
    obtain rfl := Option.some_inj.mp (hc.symm.trans hd)
    exact hconns (hname ▸ hj)
  · obtain ⟨hcon, d, hd, hrest⟩ := h.inflight j hj
    exact ⟨hcon, d, hother j d hd fun hij => hinflight (hij ▸ hj), hrest⟩

theorem Places.promote (h : Places s) (hc : s.lcs[i]? = some c) (hin : s.inflight = some i)
    {connectRes : Option (Except String String)} :
    Places { s with
      lcs := s.lcs.modify i ({ · with hubURL, pc := .registering })
      inflight := none
      conns := s.conns.insert c.name i
      connectRes } := by
  obtain ⟨hcon, c', hc', hstage, hfree⟩ := h.inflight i hin
  obtain rfl := Option.some_inj.mp (hc.symm.trans hc')
  refine ⟨fun n j hj => ?_, fun j hj => absurd hj.symm (Option.some_ne_none j), fun n hn => ?_, fun hclosed
    => ?_,
    h.closing⟩
  · by_cases hn : n = c.name
    · rw [hn, AList.lookup_insert] at hj
      obtain rfl := Option.some_inj.mp hj
      exact ⟨_, by rw [List.getElem?_modify, hc]; rfl, by simpa using hn.symm, by simp [Pc.stage]⟩
    · rw [AList.lookup_insert_ne hn] at hj
      obtain ⟨d, hd, hname, hest⟩ := h.live n j hj
      refine ⟨d, ?_, hname, hest⟩
      have hij : i ≠ j := by
        rintro rfl
        obtain rfl := Option.some_inj.mp (hc.symm.trans hd)
        exact hn hname.symm
      simp [hd, hij]
  · exact absurd (hn.symm.trans hcon) (Option.some_ne_none n)
  · exact absurd (hin.symm.trans (h.closed hclosed).1) (Option.some_ne_none i)

theorem Places.connect (h : Places s) (hopen : s.closed = false) (name : String) :
    Places (s.connect name) := by
  unfold State.connect
  split
  · refine h.erase (.inr (inflight_cancelInflight s)) rfl (by rw [cancelInflight_eq]; rfl)
      (.inr ⟨rfl, inflight_cancelInflight s, hopen⟩) (fun j d hd => ?_) ?_
    · obtain ⟨d', hd', hname, hstage⟩ := (sameStages_cancelInflight s).trans (sameStages_cancel _ _) j d hd
      exact ⟨d', hd', hname, .inl hstage⟩
    · rw [cancelInflight_eq]
      exact h.closing
  · next hnone =>
    exact h.cancelInflight.startConnecting (by rwa [cancelInflight_eq]) (by rwa [cancelInflight_eq])

/-! ### What a step does -/

inductive Takes (pid : ℕ) (s : State) : Action → State → Prop
  | connect (name : String) (hfree : s.connecting = none) : Takes pid s (.connect name) (s.connect name)
  | connectUnregister {name : String} (hname : s.connecting = some name) :
      Takes pid s .connectUnregister (s.connectUnregister pid name)
  | arrive {i : ℕ} {c : LiveConn} (hc : s.lcs[i]? = some c) (hpc : c.pc = .waiting) (hubURL : String) :
      Takes pid s (.arrive i hubURL) (s.setPc i (.promoting hubURL))
  | fail {i : ℕ} {c : LiveConn} (hc : s.lcs[i]? = some c) (hpc : c.pc = .waiting) (errMsg : String) :
      Takes pid s (.fail i errMsg) ((s.cancel i).setPc i (.failing errMsg))
  | failed {i : ℕ} {c : LiveConn} {errMsg : String} (hc : s.lcs[i]? = some c) (hpc : c.pc = .failing errMsg)
      (hin : s.inflight = some i) : Takes pid s (.failConnection i)
        { s.setPc i .done with inflight := none, connectRes := some (.error errMsg) }
  | superseded {a : Action} {i : ℕ} {c : LiveConn} (hc : s.lcs[i]? = some c)
      (hpc : c.pc.stage = .establishing) (hin : s.inflight ≠ some i) : Takes pid s a (s.setPc i .done)
  | promoted {i : ℕ} {c : LiveConn} {hubURL : String} (hc : s.lcs[i]? = some c)
      (hpc : c.pc = .promoting hubURL)
      (hin : s.inflight = some i) : Takes pid s (.promoteConnection i)
        { s with
          lcs := s.lcs.modify i ({ · with hubURL, pc := .registering })
          inflight := none
          conns := s.conns.insert c.name i
          connectRes := some (.ok hubURL) }
  | register {i : ℕ} {c : LiveConn} (hc : s.lcs[i]? = some c) (hpc : c.pc = .registering) :
      Takes pid s (.register i)
        { s.setPc i .watching with file := registerActiveConnection s.file pid c.name c.hubURL }
  | terminate {i : ℕ} {c : LiveConn} (hc : s.lcs[i]? = some c) (hpc : c.pc = .watching) :
      Takes pid s (.terminate i) ((s.cancel i).setPc i .closing)
  | removed {i : ℕ} {c : LiveConn} (hc : s.lcs[i]? = some c) (hpc : c.pc = .closing)
      (hcurrent : s.conns.lookup c.name = some i) :
      Takes pid s (.removeCurrent i) { s.setPc i .unregistering with conns := s.conns.erase c.name }
  | replaced {i : ℕ} {c : LiveConn} (hc : s.lcs[i]? = some c) (hpc : c.pc = .closing)
      (hcurrent : s.conns.lookup c.name ≠ some i) : Takes pid s (.removeCurrent i) (s.setPc i .done)
  | unregister {i : ℕ} {c : LiveConn} (hc : s.lcs[i]? = some c) (hpc : c.pc = .unregistering) :
      Takes pid s (.unregister i)
        { s.setPc i .done with file := unregisterActiveConnection s.file pid c.name }
  | disconnect (name : String) (mode : Mode) (alive : ℕ → Bool) (probe : String → Bool) :
      Takes pid s (.disconnect name mode alive probe) (s.disconnect name mode alive probe)
  | goOn {a : Action} {k : ℕ} {task task' : Task} (hk : s.tasks[k]? = some task)
      (htask : ∀ n, task.unregisters n = false) (hcancels : ∀ i, task.cancels i = false)
      (htask' : task' = .done ∨ ∃ name, task' = .cleaning name) : Takes pid s a (s.setTask k task')
  | taken {k i : ℕ} {name : String} (hk : s.tasks[k]? = some (.cleaning name))
      (hi : s.conns.lookup name = some i) :
      Takes pid s (.take k) { s.setTask k (.cancelling name i) with conns := s.conns.erase name }
  | cancelTaken {k i : ℕ} {name : String} (hk : s.tasks[k]? = some (.cancelling name i)) :
      Takes pid s (.cancelTaken k) ((s.cancel i).setTask k (.unregistering name))
  | unregisterTaken {k : ℕ} {name : String} (hk : s.tasks[k]? = some (.unregistering name)) :
      Takes pid s (.unregisterTaken k)
        { s.setTask k .done with file := unregisterActiveConnection s.file pid name }
  | closeAll (hfree : s.connecting = none) : Takes pid s .closeAll s.closeAll
  | cancelAll {k : ℕ} {lcs : List ℕ} (hk : s.tasks[k]? = some (.closing lcs)) :
      Takes pid s (.cancelAll k) ((lcs.foldl State.cancel s).setTask k .unregisteringAll)
  | unregisterAll {k : ℕ} (hk : s.tasks[k]? = some .unregisteringAll) :
      Takes pid s (.unregisterAll k) { s.setTask k .done with file := unregisterAllForPID s.file pid }
  | prune (alive : ℕ → Bool) (probe : String → Bool) :
      Takes pid s (.prune alive probe) { s with file := collectActive s.file alive probe }
  /-- What another process does leaves the entries of this one. -/
  | other {a : Action} {file : List ActiveConnection}
      (hown : ∀ name hubURL, ⟨name, pid, hubURL⟩ ∈ file ↔ ⟨name, pid, hubURL⟩ ∈ s.file) :
      Takes pid s a { s with file }

theorem takes_of_move (hm : move pid s a = some t) : Takes pid s a t := by
  cases a with
  | connect name =>
    obtain ⟨hfree, hm⟩ := Option.ite_none_right_eq_some.mp hm
    obtain rfl := Option.some_inj.mp hm
    exact .connect name hfree
  | connectUnregister =>
    obtain ⟨name, hname, rfl⟩ := Option.map_eq_some_iff.mp hm
    exact .connectUnregister hname
  | arrive i hubURL =>
    obtain ⟨c, hc, hm⟩ := Option.bind_eq_some_iff.mp hm
    unfold State.arrive at hm
    split at hm
    · next hpc =>
      obtain ⟨-, hm⟩ := Option.ite_none_left_eq_some.mp hm
      obtain rfl := Option.some_inj.mp hm
      exact .arrive hc hpc hubURL
    · cases hm
  | fail i errMsg =>
    obtain ⟨c, hc, hm⟩ := Option.bind_eq_some_iff.mp hm
    unfold State.fail at hm
    split at hm
    · next hpc =>
      obtain rfl := Option.some_inj.mp hm
      exact .fail hc hpc errMsg
    · cases hm
  | failConnection i =>
    obtain ⟨-, hm⟩ := Option.ite_none_right_eq_some.mp hm
    obtain ⟨c, hc, hm⟩ := Option.bind_eq_some_iff.mp hm
    unfold State.failConnection at hm
    split at hm
    · next hpc =>
      split_ifs at hm with hin
      · obtain rfl := Option.some_inj.mp hm
        exact .failed hc hpc hin
      · obtain rfl := Option.some_inj.mp hm
        exact .superseded hc (congrArg Pc.stage hpc) hin
    · cases hm
  | promoteConnection i =>
    obtain ⟨-, hm⟩ := Option.ite_none_right_eq_some.mp hm
    obtain ⟨c, hc, hm⟩ := Option.bind_eq_some_iff.mp hm
    unfold State.promoteConnection at hm
    split at hm
    · next hpc =>
      split_ifs at hm with hin
      · obtain rfl := Option.some_inj.mp hm
        exact .promoted hc hpc hin
      · obtain rfl := Option.some_inj.mp hm
        exact .superseded hc (congrArg Pc.stage hpc) hin
    · cases hm
  | register i =>
    obtain ⟨c, hc, hm⟩ := Option.bind_eq_some_iff.mp hm
    unfold State.register at hm
    split at hm
    · next hpc =>
      obtain rfl := Option.some_inj.mp hm
      exact .register hc hpc
    · cases hm
  | terminate i =>
    obtain ⟨c, hc, hm⟩ := Option.bind_eq_some_iff.mp hm
    unfold State.terminate at hm
    split at hm
    · next hpc =>
      obtain rfl := Option.some_inj.mp hm
      exact .terminate hc hpc
    · cases hm
  | removeCurrent i =>
    obtain ⟨-, hm⟩ := Option.ite_none_right_eq_some.mp hm
    obtain ⟨c, hc, hm⟩ := Option.bind_eq_some_iff.mp hm
    unfold State.removeCurrent at hm
    split at hm
    · next hpc =>
      split_ifs at hm with hcurrent
      · obtain rfl := Option.some_inj.mp hm
        exact .removed hc hpc hcurrent
      · obtain rfl := Option.some_inj.mp hm
        exact .replaced hc hpc hcurrent
    · cases hm
  | unregister i =>
    obtain ⟨c, hc, hm⟩ := Option.bind_eq_some_iff.mp hm
    unfold State.unregister at hm
    split at hm
    · next hpc =>
      obtain rfl := Option.some_inj.mp hm
      exact .unregister hc hpc
    · cases hm
  | disconnect name mode alive probe =>
    obtain rfl := Option.some_inj.mp hm
    exact .disconnect name mode alive probe
  | select k =>
    obtain ⟨-, hm⟩ := Option.ite_none_right_eq_some.mp hm
    obtain ⟨task, hk, hm⟩ := Option.bind_eq_some_iff.mp hm
    unfold State.select at hm
    split at hm
    · next name mode active =>
      simp only at hm
      split at hm
      · obtain rfl := Option.some_inj.mp hm
        exact .goOn hk (fun _ => rfl) (fun _ => rfl) (.inl rfl)
      · split_ifs at hm
        · obtain rfl := Option.some_inj.mp hm
          exact .goOn hk (fun _ => rfl) (fun _ => rfl) (.inl rfl)
        · obtain rfl := Option.some_inj.mp hm
          exact .goOn hk (fun _ => rfl) (fun _ => rfl) (.inr ⟨name, rfl⟩)
        · obtain rfl := Option.some_inj.mp hm
          exact .goOn hk (fun _ => rfl) (fun _ => rfl) (.inl rfl)
    · cases hm
  | take k =>
    obtain ⟨-, hm⟩ := Option.ite_none_right_eq_some.mp hm
    obtain ⟨task, hk, hm⟩ := Option.bind_eq_some_iff.mp hm
    unfold State.take at hm
    split at hm
    · next name =>
      split at hm
      · next i hi =>
        obtain rfl := Option.some_inj.mp hm
        exact .taken hk hi
      · obtain rfl := Option.some_inj.mp hm
        exact .goOn hk (fun _ => rfl) (fun _ => rfl) (.inl rfl)
    · cases hm
  | cancelTaken k =>
    obtain ⟨task, hk, hm⟩ := Option.bind_eq_some_iff.mp hm
    unfold State.cancelTaken at hm
    split at hm
    · obtain rfl := Option.some_inj.mp hm
      exact .cancelTaken hk
    · cases hm
  | unregisterTaken k =>
    obtain ⟨task, hk, hm⟩ := Option.bind_eq_some_iff.mp hm
    unfold State.unregisterTaken at hm
    split at hm
    · obtain rfl := Option.some_inj.mp hm
      exact .unregisterTaken hk
    · cases hm
  | closeAll =>
    obtain ⟨hfree, hm⟩ := Option.ite_none_right_eq_some.mp hm
    obtain rfl := Option.some_inj.mp hm
    exact .closeAll hfree
  | cancelAll k =>
    obtain ⟨task, hk, hm⟩ := Option.bind_eq_some_iff.mp hm
    unfold State.cancelAll at hm
    split at hm
    · obtain rfl := Option.some_inj.mp hm
      exact .cancelAll hk
    · cases hm
  | unregisterAll k =>
    obtain ⟨task, hk, hm⟩ := Option.bind_eq_some_iff.mp hm
    unfold State.unregisterAll at hm
    split at hm
    · obtain rfl := Option.some_inj.mp hm
      exact .unregisterAll hk
    · cases hm
  | prune alive probe =>
    obtain rfl := Option.some_inj.mp hm
    exact .prune alive probe
  | otherRegisters other profile hubURL =>
    obtain ⟨hother, hm⟩ := Option.ite_none_left_eq_some.mp hm
    obtain rfl := Option.some_inj.mp hm
    refine .other fun name url => ?_
    rw [mem_registerActiveConnection, ActiveConnection.mk.injEq]
    have : pid ≠ other := Ne.symm hother
    tauto
  | otherRemoves other wanted =>
    obtain ⟨hother, hm⟩ := Option.ite_none_left_eq_some.mp hm
    obtain rfl := Option.some_inj.mp hm
    refine .other fun name url => ?_
    rw [mem_removeOwnEntries]
    exact and_iff_left fun h => hother h.1.symm

theorem places_of_takes (h : Places s) (hok : inOrder pid s a = true) (ht : Takes pid s a t) : Places t := by
  cases ht with
  | connect name hfree => exact h.connect (by simpa [inOrder] using hok) name
  | @connectUnregister name hname =>
    have hopen : s.closed = false := by
      by_contra hclosed
      have hcon := (h.closed (by simpa using hclosed)).2.1
      exact absurd (hname.symm.trans hcon) (Option.some_ne_none name)
    have hfile : Places { s with file := unregisterActiveConnection s.file pid name } :=
      h.congr (.refl s) rfl rfl rfl rfl h.closing
    exact hfile.startConnecting (h.connecting name hname) hopen
  | arrive hc hpc hubURL => exact h.setPc hc (by rw [hpc]; rfl)
  | @fail i c hc hpc errMsg =>
    exact (h.cancel i).setPc (c := { c with cancelled := true }) (by simp [State.cancel, hc])
      (by rw [hpc]; rfl)
  | @failed i c _ hc hpc hin =>
    have hdrop : Places { s with inflight := none } := h.dropInflight
    have hnone := hdrop.finish hc
      (h.lookup_ne hc (by rw [hpc]; rfl)) (fun hi => absurd hi.symm (Option.some_ne_none i)) .done
    exact hnone.dropInflight
  | superseded hc hpc hin => exact h.finish hc (h.lookup_ne hc hpc) hin .done
  | promoted hc hpc hin => exact h.promote hc hin
  | register hc hpc => exact h.setPc hc (by rw [hpc]; rfl)
  | @terminate i c hc hpc =>
    exact (h.cancel i).setPc (c := { c with cancelled := true }) (by simp [State.cancel, hc])
      (by rw [hpc]; rfl)
  | @removed i c hc hpc hcurrent =>
    refine h.erase (.inl rfl) rfl rfl (.inl rfl) (fun j d hd => ?_) h.closing
    by_cases hij : i = j
    · subst hij
      obtain rfl := Option.some_inj.mp (hc.symm.trans hd)
      exact ⟨{ c with pc := .unregistering }, by simp [State.setPc, hc], rfl, .inr
        ⟨hcurrent, by rw [hpc]; rfl⟩⟩
    · exact ⟨d, by simp [State.setPc, hd, hij], rfl, .inl rfl⟩
  | replaced hc hpc hcurrent => exact h.finish hc hcurrent (h.inflight_ne hc (by rw [hpc]; rfl)) .done
  | unregister hc hpc => exact h.setPc hc (by rw [hpc]; rfl)
  | disconnect name mode alive probe =>
    refine h.congr (.refl s) rfl rfl rfl rfl fun task htask hcloses => ?_
    rcases List.mem_append.mp htask with htask | htask
    · exact h.closing task htask hcloses
    · obtain rfl := List.mem_singleton.mp htask
      simp at hcloses
  | goOn hk htask hcancels htask' =>
    refine h.setTask fun hcloses => ?_
    rcases htask' with rfl | ⟨name, rfl⟩ <;> simp at hcloses
  | @taken k i name hk hi =>
    refine h.erase (.inl rfl) rfl rfl (.inl rfl) (fun j d hd => ⟨d, hd, rfl, .inl rfl⟩) ?_
    have htask : Places { s.setTask k (.cancelling name i) with file := s.file } := h.setTask (by simp)
    exact htask.closing
  | @cancelTaken k i name hk => exact (h.cancel i).setTask (by simp)
  | unregisterTaken hk => exact h.setTask (by simp)
  | closeAll hfree =>
    exact ⟨fun n i hi => absurd hi.symm (Option.some_ne_none i), fun i hi => absurd hi.symm
      (Option.some_ne_none i),
      fun n hn => absurd (hn.symm.trans hfree) (Option.some_ne_none n), fun _ => ⟨rfl, hfree, fun _ => rfl⟩,
      fun _ _ _ => rfl⟩
  | @cancelAll k lcs hk =>
    have hclosed := h.closing _ (List.mem_of_getElem? hk) (.inl ⟨lcs, rfl⟩)
    exact (h.foldl_cancel lcs).setTask fun _ => by rwa [foldl_cancel_eq]
  | unregisterAll hk => exact h.setTask (by simp)
  | prune alive probe => exact h.congr (.refl s) rfl rfl rfl rfl h.closing
  | other hown => exact h.congr (.refl s) rfl rfl rfl rfl h.closing

/-! ### The file -/

/-- The entry of the profile is right, or its unregistration is still to come. -/
def AgreesAt (pid : ℕ) (s : State) (name : String) : Prop :=
  s.unregisters name = true ∨ ∀ hubURL, ⟨name, pid, hubURL⟩ ∈ s.file ↔ s.recordedURL name = some hubURL

theorem unregisters_iff : s.unregisters name = true ↔
    s.connecting = some name ∨ (∃ task ∈ s.tasks, task.unregisters name = true) ∨
      ∃ c ∈ s.lcs, c.unregisters name = true := by
  simp only [State.unregisters, Bool.or_eq_true, decide_eq_true_eq, List.any_eq_true, or_assoc]

theorem AgreesAt.congr (h : AgreesAt pid s name) (hun : s.unregisters name = true → t.unregisters name = true)
    (hfile : ∀ hubURL, ⟨name, pid, hubURL⟩ ∈ t.file ↔ ⟨name, pid, hubURL⟩ ∈ s.file)
    (hurl : t.recordedURL name = s.recordedURL name) : AgreesAt pid t name := by
  refine h.imp hun fun hs hubURL => ?_
  rw [hfile, hurl]
  exact hs hubURL

theorem unregisters_cancel (s : State) (i : ℕ) (name : String) :
    (s.cancel i).unregisters name = s.unregisters name := by
  have hany (lcs : List LiveConn) (i : ℕ) :
      (lcs.modify i ({ · with cancelled := true })).any (·.unregisters name) = lcs.any (·.unregisters name)
        := by
    induction lcs generalizing i with
    | nil => cases i <;> rfl
    | cons c lcs ih =>
      cases i with
      | zero => rfl
      | succ i => simp only [List.modify_succ_cons, List.any_cons, ih]
  exact congrArg (s.connecting = some name || s.tasks.any (·.unregisters name) || ·) (hany s.lcs i)

theorem recordedURL_cancel (s : State) (i : ℕ) (name : String) :
    (s.cancel i).recordedURL name = s.recordedURL name := by
  unfold State.recordedURL
  refine Option.bind_congr fun j _ => ?_
  rw [State.cancel, List.getElem?_modify]
  cases s.lcs[j]? with
  | none => rfl
  | some c => simp only [Option.bind_some]; split_ifs <;> rfl

theorem AgreesAt.cancel (h : AgreesAt pid s name) (i : ℕ) : AgreesAt pid (s.cancel i) name :=
  h.congr (by rw [unregisters_cancel]; exact id) (fun _ => Iff.rfl) (recordedURL_cancel s i name)

theorem unregisters_modify (hc : s.lcs[i]? = some c) (hpc : c.unregisters name = false)
    {f : LiveConn → LiveConn}
    (hlcs : t.lcs = s.lcs.modify i f) (htasks : t.tasks = s.tasks) (hconnecting : t.connecting = s.connecting)
    (h : s.unregisters name = true) : t.unregisters name = true := by
  rw [unregisters_iff] at h ⊢
  rw [hlcs, htasks, hconnecting]
  refine h.imp_right (Or.imp_right ?_)
  rintro ⟨d, hd, hun⟩
  obtain ⟨j, hj⟩ := List.mem_iff_getElem?.mp hd
  have hij : i ≠ j := by
    rintro rfl
    obtain rfl := Option.some_inj.mp (hc.symm.trans hj)
    rw [hpc] at hun
    cases hun
  exact ⟨d, List.mem_of_getElem? (i := j) (by simp [hj, hij]), hun⟩

theorem unregisters_setPc (hc : s.lcs[i]? = some c) (hpc : c.unregisters name = false) {pc : Pc}
    (h : s.unregisters name = true) : (s.setPc i pc).unregisters name = true :=
  unregisters_modify hc hpc rfl rfl rfl h

theorem unregisters_setTask {task task' : Task} (hk : s.tasks[k]? = some task)
    (htask : task.unregisters name = true → task'.unregisters name = true)
    (h : s.unregisters name = true) : (s.setTask k task').unregisters name = true := by
  rw [unregisters_iff] at h ⊢
  refine h.imp_right (Or.imp_left ?_)
  rintro ⟨other, hother, hun⟩
  obtain ⟨j, hj⟩ := List.mem_iff_getElem?.mp hother
  by_cases hkj : k = j
  · subst hkj
    obtain rfl := Option.some_inj.mp (hk.symm.trans hj)
    exact ⟨task', List.mem_of_getElem? (List.getElem?_set_self (List.getElem?_eq_some_iff.mp hk).1), htask
      hun⟩
  · exact ⟨other, List.mem_of_getElem? (i := j) (by simp [State.setTask, hj, hkj]), hun⟩

/-- What the goroutine of a connection has put in the file matters while it is in `conns`. -/
theorem recordedURL_setPc (hc : s.lcs[i]? = some c) (pc : Pc)
    (h : s.conns.lookup name ≠ some i ∨ ({ c with pc } : LiveConn).entry = c.entry) :
    (s.setPc i pc).recordedURL name = s.recordedURL name := by
  unfold State.recordedURL
  refine Option.bind_congr fun j hj => ?_
  rw [State.setPc, List.getElem?_modify]
  by_cases hij : i = j
  · subst hij
    rw [hc]
    rcases h with h | h
    · exact absurd hj h
    · simpa using h
  · simp [hij]

theorem AgreesAt.setPc (h : AgreesAt pid s name) (hc : s.lcs[i]? = some c) {pc : Pc}
    (hpc : c.pc ≠ .unregistering)
    (hentry : s.conns.lookup name ≠ some i ∨ ({ c with pc } : LiveConn).entry = c.entry) :
    AgreesAt pid (s.setPc i pc) name :=
  h.congr (unregisters_setPc hc (by simp [LiveConn.unregisters, hpc])) (fun _ => Iff.rfl)
    (recordedURL_setPc hc pc hentry)

theorem AgreesAt.setTask (h : AgreesAt pid s name) {task task' : Task} (hk : s.tasks[k]? = some task)
    (htask : task.unregisters name = true → task'.unregisters name = true) :
    AgreesAt pid (s.setTask k task') name :=
  h.congr (unregisters_setTask hk htask) (fun _ => Iff.rfl) rfl

/-- The profile is unregistered, while no connection of it in `conns` has been put in the
file. -/
theorem AgreesAt.unregister (h : AgreesAt pid s name) (own : String) (hnone : t.recordedURL own = none)
    (hfile : t.file = unregisterActiveConnection s.file pid own)
    (hurl : t.recordedURL name = s.recordedURL name)
    (hun : name ≠ own → s.unregisters name = true → t.unregisters name = true) : AgreesAt pid t name := by
  by_cases hname : name = own
  · subst hname
    refine .inr fun hubURL => ?_
    rw [hnone, hfile, mem_unregisterActiveConnection]
    simp
  · refine h.congr (hun hname) (fun hubURL => ?_) hurl
    rw [hfile, mem_unregisterActiveConnection]
    exact and_iff_left fun ⟨_, h⟩ => hname h

/-- All connections that pruning finds in the file answer. -/
theorem AgreesAt.collect (h : AgreesAt pid s name) {alive : ℕ → Bool} {probe : String → Bool}
    (hok : s.answers pid alive probe = true) :
    AgreesAt pid { s with file := collectActive s.file alive probe } name := by
  refine h.imp_right fun hs hubURL => ?_
  rw [mem_collectActive, hs hubURL]
  refine and_iff_left_of_imp fun hurl => ?_
  obtain ⟨i, hi, -⟩ := Option.bind_eq_some_iff.mp hurl
  have hall := List.all_eq_true.mp hok ⟨name, i⟩ (AList.mem_lookup_iff.mp hi)
  simpa [hurl] using hall

theorem AgreesAt.cancelInflight (h : AgreesAt pid s name) : AgreesAt pid s.cancelInflight name := by
  unfold State.cancelInflight
  split
  · exact (h.cancel _).congr id (fun _ => Iff.rfl) rfl
  · exact h

theorem AgreesAt.foldl_cancel (h : AgreesAt pid s name) (lcs : List ℕ) :
    AgreesAt pid (lcs.foldl State.cancel s) name := by
  induction lcs generalizing s with
  | nil => exact h
  | cons i lcs ih => exact ih (h.cancel i)

theorem recordedURL_startConnecting (hp : Places s) (own : String) :
    (s.startConnecting own).recordedURL name = s.recordedURL name := by
  unfold State.recordedURL
  refine Option.bind_congr fun j hj => ?_
  obtain ⟨c, hc, -⟩ := hp.live name j hj
  rw [State.startConnecting, List.getElem?_append_left (List.getElem?_eq_some_iff.mp hc).1]

theorem unregisters_startConnecting {own : String} (hconnecting : s.connecting ≠ some name)
    (h : s.unregisters name = true) : (s.startConnecting own).unregisters name = true := by
  rw [unregisters_iff] at h ⊢
  obtain h | h | ⟨c, hc, hun⟩ := h
  · exact absurd h hconnecting
  · exact .inr (.inl h)
  · exact .inr (.inr ⟨c, List.mem_append_left _ hc, hun⟩)

/-- A connection is taken out of `conns` by what unregisters its profile later. -/
theorem AgreesAt.erase (h : AgreesAt pid s name) (own : String)
    (hun : s.unregisters name = true ∨ name = own → t.unregisters name = true) (hfile : t.file = s.file)
    (hurl : name ≠ own → t.recordedURL name = s.recordedURL name) : AgreesAt pid t name := by
  by_cases hname : name = own
  · exact .inl (hun (.inr hname))
  · exact h.congr (fun h => hun (.inl h)) (fun _ => by rw [hfile]) (hurl hname)

theorem AgreesAt.connect (h : AgreesAt pid s name) (hp : Places s) (hfree : s.connecting = none)
    (own : String) :
    AgreesAt pid (s.connect own) name := by
  have hcancel := h.cancelInflight
  have hfree' : s.cancelInflight.connecting ≠ some name := by
    rw [cancelInflight_eq]
    exact fun hcon => absurd (hcon.symm.trans hfree) (Option.some_ne_none name)
  unfold State.connect
  split
  · next old hold =>
    refine (hcancel.cancel old).erase own (fun hun => ?_) rfl fun hne => ?_
    · rw [unregisters_iff] at hun ⊢
      obtain (hcon | hun) | rfl := hun
      · exact absurd hcon hfree'
      · exact .inr hun
      · exact .inl rfl
    · simp only [State.recordedURL, AList.lookup_erase_ne hne]
      rw [cancelInflight_eq]
      rfl
  · exact hcancel.congr (unregisters_startConnecting hfree') (fun _ => Iff.rfl)
      (recordedURL_startConnecting hp.cancelInflight own)

theorem agreesAt_of_takes (hp : Places s) (h : AgreesAt pid s name) (hok : inOrder pid s a = true)
    (ht : Takes pid s a t) : AgreesAt pid t name := by
  cases ht with
  | connect own hfree => exact h.connect hp hfree own
  | @connectUnregister own hown =>
    have hfile : Places { s with file := unregisterActiveConnection s.file pid own } :=
      hp.congr (.refl s) rfl rfl rfl rfl hp.closing
    refine h.unregister own ?_ rfl (recordedURL_startConnecting hfile own) fun hne =>
      unregisters_startConnecting fun hcon => hne (Option.some_inj.mp (hcon.symm.trans hown))
    exact Option.bind_eq_none_iff.mpr fun i hi =>
      absurd (hi.symm.trans (hp.connecting own hown)) (Option.some_ne_none i)
  | arrive hc hpc hubURL => exact h.setPc hc (by simp [hpc]) (.inr (by simp [LiveConn.entry, hpc]))
  | @fail i c hc hpc errMsg =>
    exact (h.cancel i).setPc (c := { c with cancelled := true }) (by simp [State.cancel, hc]) (by simp [hpc])
      (.inr (by simp [LiveConn.entry, hpc]))
  | failed hc hpc hin =>
    exact (h.setPc hc (by simp [hpc]) (.inr (by simp [LiveConn.entry, hpc]))).congr id (fun _ => Iff.rfl) rfl
  | @superseded a i c hc hpc hin =>
    refine h.setPc hc (fun hpc' => ?_) (.inl ?_)
    · rw [hpc'] at hpc
      cases hpc
    · by_cases hname : name = c.name
      · rw [hname]
        exact hp.lookup_ne hc hpc
      · exact hp.lookup_ne_of_name hc hname
  | @promoted i c hubURL hc hpc hin =>
    obtain ⟨-, c', hc', -, hfree⟩ := hp.inflight i hin
    obtain rfl := Option.some_inj.mp (hc.symm.trans hc')
    refine h.congr (unregisters_modify hc (by simp [LiveConn.unregisters, hpc]) rfl rfl rfl)
      (fun _ => Iff.rfl) ?_
    by_cases hname : name = c.name
    · subst hname
      simp [State.recordedURL, AList.lookup_insert, hfree, hc, LiveConn.entry]
    · simp only [State.recordedURL, AList.lookup_insert_ne hname]
      refine Option.bind_congr fun j hj => ?_
      have hij : i ≠ j := by
        rintro rfl
        exact hp.lookup_ne_of_name hc hname hj
      simp [hij]
  | @register i c hc hpc =>
    by_cases hname : name = c.name
    · subst hname
      simp only [inOrder, hc, Option.all_some, Bool.or_eq_true, decide_eq_true_eq] at hok
      rcases hok with hi | hun
      · refine .inr fun hubURL => ?_
        simp [mem_registerActiveConnection, State.recordedURL, State.setPc, hi, hc, LiveConn.entry, eq_comm]
      · exact .inl (unregisters_setPc hc (by simp [LiveConn.unregisters, hpc]) hun)
    · refine (h.setPc hc (by simp [hpc]) (.inl (hp.lookup_ne_of_name hc hname))).congr id
        (fun hubURL => ?_) rfl
      simp [mem_registerActiveConnection, hname, State.setPc]
  | @terminate i c hc hpc =>
    exact (h.cancel i).setPc (c := { c with cancelled := true }) (by simp [State.cancel, hc]) (by simp [hpc])
      (.inr (by simp [LiveConn.entry, hpc]))
  | @removed i c hc hpc hcurrent =>
    refine h.erase c.name (fun hun => ?_) rfl fun hne => ?_
    · rcases hun with hun | rfl
      · exact unregisters_setPc hc (by simp [LiveConn.unregisters, hpc]) hun
      · exact unregisters_iff.mpr (.inr (.inr ⟨{ c with pc := .unregistering },
          List.mem_of_getElem? (i := i) (by simp [State.setPc, hc]), by simp [LiveConn.unregisters]⟩))
    · rw [← recordedURL_setPc hc .unregistering (.inl (hp.lookup_ne_of_name hc hne))]
      simp only [State.recordedURL, AList.lookup_erase_ne hne]
      rfl
  | @replaced i c hc hpc hcurrent =>
    refine h.setPc hc (by simp [hpc]) (.inl ?_)
    by_cases hname : name = c.name
    · rwa [hname]
    · exact hp.lookup_ne_of_name hc hname
  | @unregister i c hc hpc =>
    have hentry (n : String) : (s.setPc i .done).recordedURL n = s.recordedURL n :=
      recordedURL_setPc hc _ (.inr (by simp [LiveConn.entry, hpc]))
    simp only [inOrder, hc, Option.all_some, Option.isNone_iff_eq_none] at hok
    exact h.unregister c.name ((hentry c.name).trans hok) rfl (hentry name) fun hne =>
      unregisters_setPc hc (by simp [LiveConn.unregisters, Ne.symm hne])
  | disconnect own mode alive probe =>
    have hcollect : AgreesAt pid { s with file := collectActive s.file alive probe } name := h.collect hok
    refine hcollect.congr (fun hun => ?_) (fun _ => Iff.rfl) rfl
    rw [unregisters_iff] at hun ⊢
    exact hun.imp_right (Or.imp_left fun hex => hex.elim fun task h =>
      ⟨task, List.mem_append_left _ h.1, h.2⟩)
  | goOn hk htask hcancels htask' => exact h.setTask hk fun hun => absurd hun (by simp [htask])
  | @taken k i own hk hi =>
    refine h.erase own (fun hun => ?_) rfl fun hne => ?_
    · rcases hun with hun | rfl
      · exact unregisters_setTask hk (fun hno => absurd hno (by simp [Task.unregisters])) hun
      · exact unregisters_iff.mpr (.inr (.inl ⟨.cancelling name i,
          List.mem_of_getElem? (List.getElem?_set_self (List.getElem?_eq_some_iff.mp hk).1),
          by simp [Task.unregisters]⟩))
    · simp only [State.recordedURL, AList.lookup_erase_ne hne]
      rfl
  | @cancelTaken k i name hk => exact (h.cancel i).setTask hk id
  | @unregisterTaken k own hk =>
    simp only [inOrder, hk, Option.all_some, Option.isNone_iff_eq_none] at hok
    exact h.unregister own hok rfl rfl fun hne =>
      unregisters_setTask hk fun hun => absurd hun (by simp [Task.unregisters, Ne.symm hne])
  | closeAll hfree =>
    exact .inl (unregisters_iff.mpr
      (.inr (.inl ⟨_, List.mem_append_right _ (List.mem_singleton.mpr rfl), rfl⟩)))
  | @cancelAll k lcs hk =>
    have hk' : (lcs.foldl State.cancel s).tasks[k]? = some (.closing lcs) := by rwa [foldl_cancel_eq]
    exact (h.foldl_cancel lcs).setTask hk' id
  | unregisterAll hk =>
    have hclosed := hp.closing _ (List.mem_of_getElem? hk) (.inr rfl)
    refine .inr fun hubURL => ?_
    have hnone : s.conns.lookup name = none := (hp.closed hclosed).2.2 name
    simp [mem_unregisterAllForPID, State.recordedURL, State.setTask, hnone]
  | prune alive probe => exact h.collect hok
  | other hown => exact h.congr id (hown name) rfl

/-! ### The contexts -/

/-- Who has the connection and will cancel it. -/
def Owner (s : State) (i : ℕ) (c : LiveConn) : Prop :=
  s.inflight = some i ∨ s.conns.lookup c.name = some i ∨ ∃ task ∈ s.tasks, task.cancels i = true

def Pc.reaped : Pc → Bool
  | .failing _ | .closing | .unregistering => true
  | _ => false

/-- A context is cancelled or has an owner, and what ends by itself has cancelled its own. -/
structure Cancels (s : State) : Prop where
  owned : ∀ (i : ℕ) (c : LiveConn), s.lcs[i]? = some c → c.cancelled = false → Owner s i c
  reaped : ∀ (i : ℕ) (c : LiveConn), s.lcs[i]? = some c → c.pc.reaped = true → c.cancelled = true

/-- The connections of the step are those there were, cancelled perhaps, and each that is
not has its owner still. -/
theorem Cancels.congr (h : Cancels s)
    (hlcs : ∀ (i : ℕ) (c' : LiveConn), t.lcs[i]? = some c' → ∃ c, s.lcs[i]? = some c ∧ c'.name = c.name ∧
      (c'.cancelled = false → c.cancelled = false) ∧ (c'.pc.reaped = true → c'.cancelled = true))
    (howner : ∀ (i : ℕ) (c' : LiveConn), t.lcs[i]? = some c' → c'.cancelled = false → Owner s i c' → Owner t
      i c') :
    Cancels t where
  owned i c' hc' hno := by
    obtain ⟨c, hc, hname, hcancelled, -⟩ := hlcs i c' hc'
    have hs := h.owned i c hc (hcancelled hno)
    refine howner i c' hc' hno ?_
    rwa [Owner, hname]
  reaped i c' hc' hpc := by
    obtain ⟨c, -, -, -, hreaped⟩ := hlcs i c' hc'
    exact hreaped hpc

/-- The goroutine of one connection goes on. -/
theorem Cancels.modify (h : Cancels s) (hc : s.lcs[i]? = some c) {f : LiveConn → LiveConn}
    (hlcs : t.lcs = s.lcs.modify i f)
    (hf : (f c).name = c.name ∧ (f c).cancelled = c.cancelled ∧ ((f c).pc.reaped = true → c.cancelled = true))
    (howner : ∀ (j : ℕ) (d : LiveConn), t.lcs[j]? = some d → d.cancelled = false → Owner s j d → Owner t j d)
      :
    Cancels t := by
  refine h.congr (fun j d hd => ?_) howner
  rw [hlcs, List.getElem?_modify] at hd
  obtain ⟨e, he, rfl⟩ := Option.map_eq_some_iff.mp hd
  by_cases hij : i = j
  · subst hij
    obtain rfl := Option.some_inj.mp (hc.symm.trans he)
    exact ⟨c, he, by simpa using hf.1, by simp [hf.2.1], by simpa [hf.2.1] using hf.2.2⟩
  · simp only [hij, if_false]
    exact ⟨e, he, rfl, id, h.reaped j e he⟩

/-- Its goroutine goes on to where no context need be cancelled. -/
theorem Cancels.setPc (h : Cancels s) (hc : s.lcs[i]? = some c) {pc : Pc} (hpc : pc.reaped = false)
    {file : List ActiveConnection} : Cancels { s.setPc i pc with file } :=
  h.modify hc rfl ⟨rfl, rfl, fun hr => absurd (hpc.symm.trans hr) Bool.noConfusion⟩ fun _ _ _ _ hs => hs

theorem eq_of_modify {f : LiveConn → LiveConn} {d : LiveConn} (hc : s.lcs[i]? = some c)
    (hd : (s.lcs.modify i f)[i]? = some d) : d = f c := by
  rw [List.getElem?_modify_eq, hc] at hd
  exact (Option.some_inj.mp hd).symm

theorem cancelled_of_cancel {d : LiveConn} (hd : (s.cancel i).lcs[i]? = some d) : d.cancelled = true := by
  rw [State.cancel, List.getElem?_modify] at hd
  obtain ⟨e, -, rfl⟩ := Option.map_eq_some_iff.mp hd
  simp

theorem lcs_cancel {j : ℕ} {d : LiveConn} (hd : (s.cancel i).lcs[j]? = some d) :
    ∃ c, s.lcs[j]? = some c ∧ d.name = c.name ∧ d.pc = c.pc ∧ (d.cancelled = false → c.cancelled = false) :=
      by
  rw [State.cancel, List.getElem?_modify] at hd
  obtain ⟨e, he, rfl⟩ := Option.map_eq_some_iff.mp hd
  refine ⟨e, he, ?_⟩
  by_cases hij : i = j
  · simp [hij]
  · simp [hij]

/-- A context is cancelled; who had the connection need not have it still. -/
theorem Cancels.cancel (h : Cancels s) (i : ℕ) (hlcs : t.lcs = (s.cancel i).lcs)
    (howner : ∀ (j : ℕ) (d : LiveConn), i ≠ j → Owner s j d → Owner t j d) : Cancels t := by
  refine h.congr (fun j d hd => ?_) fun j d hd hno hs => ?_
  · rw [hlcs] at hd
    obtain ⟨c, hc, hname, hpc, hcancelled⟩ := lcs_cancel hd
    refine ⟨c, hc, hname, hcancelled, fun hr => ?_⟩
    have := h.reaped j c hc (hpc ▸ hr)
    by_contra hno
    rw [hcancelled (by simpa using hno)] at this
    cases this
  · refine howner j d ?_ hs
    rintro rfl
    rw [hlcs] at hd
    rw [cancelled_of_cancel hd] at hno
    cases hno

theorem Cancels.cancelInflight (h : Cancels s) : Cancels s.cancelInflight := by
  unfold State.cancelInflight
  split
  · next i hi =>
    refine h.cancel i rfl fun j d hij hs => hs.imp_left fun hj => ?_
    exact absurd (Option.some_inj.mp (hi.symm.trans hj)) hij
  · exact h

theorem Cancels.foldl_cancel (h : Cancels s) (lcs : List ℕ) : Cancels (lcs.foldl State.cancel s) := by
  induction lcs generalizing s with
  | nil => exact h
  | cons i lcs ih => exact ih (h.cancel i rfl fun j d _ hs => hs)

theorem cancelled_foldl_of_cancelled (lcs : List ℕ) {d : LiveConn}
    (hs : ∀ c, s.lcs[i]? = some c → c.cancelled = true) (hd : (lcs.foldl State.cancel s).lcs[i]? = some d) :
    d.cancelled = true := by
  induction lcs generalizing s with
  | nil => exact hs d hd
  | cons j lcs ih =>
    refine ih (fun c hc => ?_) hd
    obtain ⟨e, he, -, -, hcancelled⟩ := lcs_cancel hc
    by_contra hno
    rw [hs e he] at hcancelled
    exact absurd (hcancelled (by simpa using hno)) Bool.noConfusion

theorem cancelled_foldl (lcs : List ℕ) {d : LiveConn} (hi : i ∈ lcs)
    (hd : (lcs.foldl State.cancel s).lcs[i]? = some d) : d.cancelled = true := by
  induction lcs generalizing s with
  | nil => exact absurd hi List.not_mem_nil
  | cons j lcs ih =>
    rcases List.mem_cons.mp hi with rfl | hi
    · exact cancelled_foldl_of_cancelled lcs (fun c hc => cancelled_of_cancel hc) hd
    · exact ih hi hd

/-- A handler goes on that had no connection to cancel. -/
theorem owner_setTask {task : Task} (task' : Task) (hk : s.tasks[k]? = some task) {j : ℕ} {d : LiveConn}
    (htask : task.cancels j = false) (h : Owner s j d) : Owner (s.setTask k task') j d := by
  refine h.imp_right (Or.imp_right ?_)
  rintro ⟨other, hother, hcancels⟩
  obtain ⟨l, hl⟩ := List.mem_iff_getElem?.mp hother
  have hkl : k ≠ l := by
    rintro rfl
    obtain rfl := Option.some_inj.mp (hk.symm.trans hl)
    rw [htask] at hcancels
    cases hcancels
  exact ⟨other, List.mem_of_getElem? (i := l) (by simp [State.setTask, hl, hkl]), hcancels⟩

theorem Cancels.startConnecting (h : Cancels s) (hnone : s.inflight = none) (name : String) :
    Cancels (s.startConnecting name) := by
  have hcases (j : ℕ) (d : LiveConn) (hd : (s.startConnecting name).lcs[j]? = some d) :
      s.lcs[j]? = some d ∨ j = s.lcs.length ∧ d = ⟨name, "", false, .waiting⟩ := by
    rw [State.startConnecting, List.getElem?_append] at hd
    split_ifs at hd with hj
    · exact .inl hd
    · rw [List.getElem?_singleton] at hd
      split_ifs at hd with hz
      exact .inr ⟨by omega, (Option.some_inj.mp hd).symm⟩
  constructor
  · intro j d hd hno
    rcases hcases j d hd with hs | ⟨rfl, rfl⟩
    · exact (h.owned j d hs hno).imp_left fun hin => absurd (hin.symm.trans hnone) (Option.some_ne_none j)
    · exact .inl rfl
  · intro j d hd hr
    rcases hcases j d hd with hs | ⟨rfl, rfl⟩
    · exact h.reaped j d hs hr
    · cases hr

theorem Cancels.connect (h : Cancels s) (name : String) : Cancels (s.connect name) := by
  have hcancel := h.cancelInflight
  unfold State.connect
  split
  · next old hold =>
    refine hcancel.cancel old rfl fun j d hij hs => ?_
    obtain hin | hconns | htask := hs
    · exact absurd (hin.symm.trans (inflight_cancelInflight s)) (Option.some_ne_none j)
    · rw [cancelInflight_eq] at hconns
      by_cases hname : d.name = name
      · rw [hname] at hconns
        exact absurd (Option.some_inj.mp (hold.symm.trans hconns)) hij
      · exact .inr (.inl ((AList.lookup_erase_ne hname).trans hconns))
    · exact .inr (.inr htask)
  · exact hcancel.startConnecting (inflight_cancelInflight s) name

theorem cancels_of_takes (hp : Places s) (h : Cancels s) (ht : Takes pid s a t) : Cancels t := by
  cases ht with
  | connect name hfree => exact h.connect name
  | @connectUnregister name hname =>
    have hfile : Cancels { s with file := unregisterActiveConnection s.file pid name } := ⟨h.owned, h.reaped⟩
    refine hfile.startConnecting ?_ name
    by_contra hne
    obtain ⟨i, hi⟩ := Option.ne_none_iff_exists'.mp hne
    exact absurd (hname.symm.trans (hp.inflight i hi).1) (Option.some_ne_none name)
  | arrive hc hpc hubURL => exact h.setPc hc rfl
  | @fail i c hc hpc errMsg =>
    have hcancel : Cancels (s.cancel i) := h.cancel i rfl fun _ _ _ hs => hs
    exact hcancel.modify (c := { c with cancelled := true }) (by simp [State.cancel, hc]) rfl
      ⟨rfl, rfl, fun _ => rfl⟩ fun _ _ _ _ hs => hs
  | @failed i c errMsg hc hpc hin =>
    have hcancelled := h.reaped i c hc (by rw [hpc]; rfl)
    refine h.modify hc rfl ⟨rfl, rfl, fun h => absurd h Bool.noConfusion⟩ fun j d hd hno hs =>
      hs.imp_left fun hj => ?_
    obtain rfl := Option.some_inj.mp (hin.symm.trans hj)
    obtain rfl := eq_of_modify hc hd
    exact absurd (hcancelled.symm.trans hno) Bool.noConfusion
  | superseded hc hpc hin => exact h.setPc hc rfl
  | @promoted i c hubURL hc hpc hin =>
    obtain ⟨-, c', hc', -, hfree⟩ := hp.inflight i hin
    obtain rfl := Option.some_inj.mp (hc.symm.trans hc')
    refine h.modify hc rfl ⟨rfl, rfl, fun h => absurd h Bool.noConfusion⟩ fun j d hd hno hs => ?_
    obtain hj | hj | htask := hs
    · obtain rfl := Option.some_inj.mp (hin.symm.trans hj)
      obtain rfl := eq_of_modify hc hd
      exact .inr (.inl (AList.lookup_insert s.conns))
    · refine .inr (.inl ?_)
      by_cases hname : d.name = c.name
      · rw [hname] at hj
        exact absurd (hj.symm.trans hfree) (Option.some_ne_none j)
      · exact (AList.lookup_insert_ne hname).trans hj
    · exact .inr (.inr htask)
  | register hc hpc => exact h.setPc hc rfl
  | @terminate i c hc hpc =>
    have hcancel : Cancels (s.cancel i) := h.cancel i rfl fun _ _ _ hs => hs
    exact hcancel.modify (c := { c with cancelled := true }) (by simp [State.cancel, hc]) rfl
      ⟨rfl, rfl, fun _ => rfl⟩ fun _ _ _ _ hs => hs
  | @removed i c hc hpc hcurrent =>
    have hcancelled := h.reaped i c hc (by rw [hpc]; rfl)
    refine h.modify hc rfl ⟨rfl, rfl, fun _ => hcancelled⟩ fun j d hd hno hs => ?_
    refine hs.imp_right (Or.imp_left fun hj => ?_)
    by_cases hname : d.name = c.name
    · rw [hname] at hj
      obtain rfl := Option.some_inj.mp (hcurrent.symm.trans hj)
      obtain rfl := eq_of_modify hc hd
      exact absurd (hcancelled.symm.trans hno) Bool.noConfusion
    · exact (AList.lookup_erase_ne hname).trans hj
  | replaced hc hpc hcurrent => exact h.setPc hc rfl
  | unregister hc hpc => exact h.setPc hc rfl
  | disconnect name mode alive probe =>
    exact ⟨fun i c hc hno => (h.owned i c hc hno).imp_right (Or.imp_right fun ⟨task, htask, hi⟩ =>
      ⟨task, List.mem_append_left _ htask, hi⟩), h.reaped⟩
  | goOn hk htask hcancels htask' =>
    exact ⟨fun i c hc hno => owner_setTask _ hk (hcancels i) (h.owned i c hc hno), h.reaped⟩
  | @taken k i name hk hi =>
    refine ⟨fun j c hc hno => ?_, h.reaped⟩
    obtain hin | hj | htask := owner_setTask (.cancelling name i) hk rfl (h.owned j c hc hno)
    · exact .inl hin
    · by_cases hname : c.name = name
      · have hij : i = j := Option.some_inj.mp (hi.symm.trans (hname ▸ hj))
        exact .inr (.inr ⟨.cancelling name i,
          List.mem_of_getElem? (List.getElem?_set_self (List.getElem?_eq_some_iff.mp hk).1),
          by simp [Task.cancels, hij]⟩)
      · exact .inr (.inl ((AList.lookup_erase_ne hname).trans hj))
    · exact .inr (.inr htask)
  | @cancelTaken k i name hk =>
    exact h.cancel i rfl fun j d hij hs => owner_setTask _ hk (by simp [Task.cancels, hij]) hs
  | unregisterTaken hk =>
    exact ⟨fun i c hc hno => owner_setTask _ hk rfl (h.owned i c hc hno), h.reaped⟩
  | closeAll hfree =>
    refine ⟨fun i c hc hno => .inr (.inr ?_), h.reaped⟩
    obtain hin | hj | ⟨task, htask, hi⟩ := h.owned i c hc hno
    · exact ⟨_, List.mem_append_right _ (List.mem_singleton.mpr rfl), by simp [Task.cancels, hin]⟩
    · have hmem : i ∈ s.conns.entries.map (·.2) := List.mem_map.mpr
        ⟨⟨c.name, i⟩, AList.mem_lookup_iff.mp hj, rfl⟩
      exact ⟨_, List.mem_append_right _ (List.mem_singleton.mpr rfl),
        decide_eq_true (List.mem_append_right _ hmem)⟩
    · exact ⟨task, List.mem_append_left _ htask, hi⟩
  | @cancelAll k lcs hk =>
    have hall := h.foldl_cancel lcs
    refine ⟨fun i c hc hno => ?_, hall.reaped⟩
    have hi : i ∉ lcs := fun hi => absurd ((cancelled_foldl lcs hi hc).symm.trans hno) Bool.noConfusion
    have hk' : (lcs.foldl State.cancel s).tasks[k]? = some (.closing lcs) := by rwa [foldl_cancel_eq]
    exact owner_setTask _ hk' (by simp [Task.cancels, hi])
      (hall.owned i c hc hno)
  | unregisterAll hk =>
    exact ⟨fun i c hc hno => owner_setTask _ hk rfl (h.owned i c hc hno), h.reaped⟩
  | prune alive probe => exact ⟨h.owned, h.reaped⟩
  | other hown => exact ⟨h.owned, h.reaped⟩

/-! ### Runs -/

theorem takes_of_step {es : List Empty} (h : step pid s a = some (t, es)) : Takes pid s a t := by
  obtain ⟨u, hu, he⟩ := Option.map_eq_some_iff.mp h
  obtain ⟨rfl, -⟩ := Prod.mk.inj he
  exact takes_of_move hu

/-- When the manager is at rest in a run whose steps are in order, the entries of this
process in `launcher-active.json` are those of the connections in `conns`, and after
`closeAll` every context is cancelled. -/
theorem agrees_of_inOrder (pid : ℕ) (file : List ActiveConnection) (hfile : ∀ c ∈ file, c.pid ≠ pid)
    (as : List Action) (s : State) (es : List Empty)
    (hx : exec (step pid) (State.initial file) as = some (s, es))
    (hm : Meets (step pid) (fun s a => inOrder pid s a = true) (State.initial file) as) (hrest : s.AtRest) :
    s.Agrees pid ∧ (s.closed = true → ∀ c ∈ s.lcs, c.cancelled = true) := by
  obtain ⟨hp, hagrees, hcancels⟩ : Places s ∧ (∀ name, AgreesAt pid s name) ∧ Cancels s := by
    refine exec_state_invariant (I := fun s => Places s ∧ (∀ name, AgreesAt pid s name) ∧ Cancels s)
      (fun u a t _ h hok hs => ?_) ⟨?_, fun name => .inr fun hubURL => ?_, ?_⟩ hm hx
    · have ht := takes_of_step hs
      exact ⟨places_of_takes h.1 hok ht, fun name => agreesAt_of_takes h.1 (h.2.1 name) hok ht,
        cancels_of_takes h.1 h.2.2 ht⟩
    · exact ⟨fun n i hi => absurd hi.symm (Option.some_ne_none i), fun i hi => absurd hi.symm
      (Option.some_ne_none i),
        fun n hn => absurd hn.symm (Option.some_ne_none n), fun h => absurd h Bool.noConfusion,
        fun _ h => absurd h List.not_mem_nil⟩
    · exact iff_of_false (fun h => hfile _ h rfl) (fun h => absurd h.symm (Option.some_ne_none hubURL))
    · exact ⟨fun i c hc => absurd hc.symm (Option.some_ne_none c), fun i c hc => absurd hc.symm
      (Option.some_ne_none c)⟩
  obtain ⟨hcon, htasks, hpcs⟩ := hrest
  constructor
  · intro name hubURL
    have hquiet : s.unregisters name ≠ true := by
      rw [Ne, unregisters_iff]
      rintro (h | ⟨task, htask, h⟩ | ⟨c, hc, h⟩)
      · exact absurd (h.symm.trans hcon) (Option.some_ne_none name)
      · rw [htasks task htask] at h
        cases h
      · rcases hpcs c hc with hpc | hpc | hpc <;> simp [LiveConn.unregisters, hpc] at h
    rw [(hagrees name).resolve_left hquiet hubURL, State.recordedURL, Option.bind_eq_some_iff]
    refine exists_congr fun i => ⟨fun ⟨hi, h⟩ => ?_, fun ⟨c, hi, hc, hurl⟩ => ⟨hi, ?_⟩⟩
    · obtain ⟨c, hc, hentry⟩ := Option.bind_eq_some_iff.mp h
      refine ⟨c, hi, hc, ?_⟩
      rcases hpcs c (List.mem_of_getElem? hc) with hpc | hpc | hpc
      · simp [LiveConn.entry, hpc] at hentry
      · simpa [LiveConn.entry, hpc] using hentry
      · simp [LiveConn.entry, hpc] at hentry
    · obtain ⟨d, hd, -, hest⟩ := hp.live name i hi
      obtain rfl := Option.some_inj.mp (hc.symm.trans hd)
      rcases hpcs c (List.mem_of_getElem? hc) with hpc | hpc | hpc
      · rw [hpc] at hest
        cases hest
      · simp [hc, LiveConn.entry, hpc, hurl]
      · rw [hpc] at hest
        cases hest
  · intro hclosed c hc
    obtain ⟨i, hi⟩ := List.mem_iff_getElem?.mp hc
    by_contra hno
    obtain ⟨hin, -, hconns⟩ := hp.closed hclosed
    obtain h | h | ⟨task, htask, h⟩ := hcancels.owned i c hi (by simpa using hno)
    · exact absurd (h.symm.trans hin) (Option.some_ne_none i)
    · exact absurd (h.symm.trans (hconns c.name)) (Option.some_ne_none i)
    · rw [htasks task htask] at h
      cases h

/-- A connection that is replaced by a new one, taken out, and the end of the Hub. -/
def connectAndClose : List Action :=
  [.connect "a", .arrive 0 "u", .promoteConnection 0, .register 0, .connect "a", .connectUnregister,
    .terminate 0,
    .removeCurrent 0, .arrive 1 "v", .promoteConnection 1, .register 1, .connect "b", .closeAll, .cancelAll 0,
    .unregisterAll 0, .terminate 1, .removeCurrent 1]

theorem connectAndClose_agrees : ∃ s, exec (step 1) (State.initial [⟨"a", 2, "w"⟩]) connectAndClose = some
    (s, []) ∧
    s.closed = true ∧ s.Agrees 1 ∧ (s.closed = true → ∀ c ∈ s.lcs, c.cancelled = true) := by
  refine ⟨_, rfl, rfl, ?_⟩
  exact agrees_of_inOrder 1 [⟨"a", 2, "w"⟩] (by decide) connectAndClose _ [] rfl (by decide) (by decide)

/-- The profile is connected again before its first connection is in the file: its entry
stays when neither connection is left. -/
def connectAgain : List Action :=
  [.connect "a", .arrive 0 "u", .promoteConnection 0, .connect "a", .connectUnregister, .register 0, .fail 1
    "lost",
    .failConnection 1, .terminate 0, .removeCurrent 0]

theorem connectAgain_leaves_entry : ¬ ∀ (pid : ℕ) (file : List ActiveConnection), (∀ c ∈ file, c.pid ≠ pid) →
    ∀ (as : List Action) (s : State) (es : List Empty),
      exec (step pid) (State.initial file) as = some (s, es) → s.AtRest →
      s.Agrees pid ∧ (s.closed = true → ∀ c ∈ s.lcs, c.cancelled = true) := by
  intro h
  have hagrees := (h 1 [] (by decide) connectAgain _ [] rfl (by decide)).1 "a" "u"
  obtain ⟨i, c, hi, -⟩ := hagrees.mp (by decide)
  exact absurd hi.symm (Option.some_ne_none i)

end ManyAiCli.Hub.ServerConns
