import ManyAiCli.Hub.ChildTimers
import Mathlib.Data.List.Count
import Mathlib.Order.Basic

/-! How often is a child started again? A child times out once, so it is replaced once, and its
replacement has one retry more behind it: along any line of replacements the retries count up to the
configured number. A child that has no restart data yet is never replaced. -/

namespace ManyAiCli.Hub.ChildTimers

open Runs Function

variable {s t : State} {es fs : List Event} {M last : ℕ} {gen : ℕ → ℕ} {path : List Char} {now : ℕ}

def Notice.timesOut (id : ℕ) (n : Notice) : Bool :=
  n.childID = id && match n.kind with
    | .timeout .. => true
    | .idle => false

/-- No child is started or told to. -/
def Event.plain : Event → Bool
  | .respawning _ | .registered .. => false
  | _ => true

/-- A job carries on the count of the child it replaces. -/
structure JobFits (M : ℕ) (gen : ℕ → ℕ) (last : ℕ) (job : Job) : Prop where
  retries : job.retries ≤ M
  replaces : ∀ old ∈ job.replaces, old ≤ last ∧ job.retries = gen old + 1
  phase : ∀ id, job.phase = .registered id → id ≤ last ∧ job.retries = gen id

/-- `gen` counts the children before each one in its line. -/
structure Lineage (M : ℕ) (gen : ℕ → ℕ) (es : List Event) (s : State) : Prop where
  born : ∀ old new, .registered (some old) new ∈ es → gen new = gen old + 1 ∧ gen new ≤ M
  named : ∀ replaces new, .registered replaces new ∈ es → new ≤ s.nextID ∧ ∀ old ∈ replaces, old ≤ s.nextID
  children : ∀ child ∈ s.board.children, child.id ≤ s.nextID
  jobs : ∀ job ∈ s.jobs, JobFits M gen s.nextID job
  info : ∀ id, (s.info id).restart.provider ≠ "" → .respawning id ∉ es → (s.info id).timeoutRetries = gen id
  once : ∀ id, es.count (.respawning id) + s.notices.countP (·.timesOut id) ≤ (s.timedOut id).toNat
  limits : ∀ n ∈ s.notices, ∀ respawn maxRetries, n.kind = .timeout respawn maxRetries → maxRetries ≤ M

theorem JobFits.done {job : Job} (h : JobFits M gen last job) : JobFits M gen last { job with phase := .done } :=
  ⟨h.retries, h.replaces, fun _ hp => Phase.noConfusion hp⟩

/-- A fresh session changes no count that a job knows. -/
theorem JobFits.later {job : Job} {id : ℕ} (h : JobFits M gen last job) (hid : last < id) (n : ℕ) :
    JobFits M (update gen id n) id job := by
  have hne {x : ℕ} (hx : x ≤ last) : update gen id n x = gen x := update_of_ne (by omega) _ _
  refine ⟨h.retries, fun old ho => ?_, fun x hp => ?_⟩
  · obtain ⟨hle, hr⟩ := h.replaces old ho
    exact ⟨by omega, by rw [hne hle, hr]⟩
  · obtain ⟨hle, hr⟩ := h.phase x hp
    exact ⟨by omega, by rw [hne hle, hr]⟩

theorem mem_setPhase {j : ℕ} {phase : Phase} {job : Job} (h : job ∈ (s.setPhase j phase).jobs) :
    job ∈ s.jobs ∨ ∃ job', s.jobs[j]? = some job' ∧ job = { job' with phase := phase } := by
  obtain ⟨i, hi⟩ := List.mem_iff_getElem?.1 h
  rw [State.setPhase, List.getElem?_modify] at hi
  obtain ⟨job', hj, he⟩ := Option.map_eq_some_iff.1 hi
  split_ifs at he with hij
  · subst hij
    exact .inr ⟨job', hj, he.symm⟩
  · exact .inl (he ▸ List.mem_of_getElem? hj)

theorem not_mem_of_plain (hfs : fs.all Event.plain = true) {e : Event} (he : e.plain = false) : e ∉ fs :=
  fun h => Bool.false_ne_true (he.symm.trans (List.all_eq_true.1 hfs e h))

/-- A step that starts nothing, and may hand over notices. -/
theorem Lineage.frame (hi : Lineage M gen es s) (hfs : fs.all Event.plain = true)
    (hnext : t.nextID = s.nextID) (hinfo : t.info = s.info) (htimed : t.timedOut = s.timedOut)
    (hnotices : t.notices.Sublist s.notices)
    (hchildren : t.board.children.map (·.id) = s.board.children.map (·.id))
    (hjobs : ∀ job ∈ t.jobs, job ∈ s.jobs ∨ JobFits M gen s.nextID job) : Lineage M gen (es ++ fs) t := by
  have hmem {e : Event} (he : e.plain = false) : e ∈ es ++ fs ↔ e ∈ es := by
    simp [not_mem_of_plain hfs he]
  refine ⟨fun old new h => ?_, fun replaces new h => ?_, fun child hc => ?_, fun job hj => ?_,
    fun id hp hr => ?_, fun id => ?_, fun n hn => hi.limits n (hnotices.subset hn)⟩
  · exact hi.born old new ((hmem rfl).1 h)
  · rw [hnext]
    exact hi.named replaces new ((hmem rfl).1 h)
  · have hid : child.id ∈ s.board.children.map (·.id) := hchildren ▸ List.mem_map_of_mem hc
    obtain ⟨child', hc', he⟩ := List.mem_map.1 hid
    rw [hnext, ← he]
    exact hi.children child' hc'
  · rw [hnext]
    exact (hjobs job hj).elim (hi.jobs job) id
  · rw [hinfo] at hp ⊢
    exact hi.info id hp fun h => hr ((hmem rfl).2 h)
  · have hzero : fs.count (.respawning id) = 0 := List.count_eq_zero.2 (not_mem_of_plain hfs rfl)
    rw [List.count_append, hzero, htimed]
    have := hi.once id
    have := hnotices.countP_le (p := (·.timesOut id))
    omega

/-! ### The steps -/

theorem Turn.lineage {cfg : TimerConfig} {child : OrchestrationChild} (h : Turn cfg s child t fs)
    (hM : cfg.maxTimeoutRespawns ≤ M) (hi : Lineage M gen es s) : Lineage M gen (es ++ fs) t := by
  cases h with
  | rest => exact hi.frame rfl rfl rfl rfl (List.Sublist.refl _) rfl fun _ h => .inl h
  | resume => exact hi.frame rfl rfl rfl rfl (List.Sublist.refl _) rfl fun _ h => .inl h
  | idle n hlive hid hn hw =>
    have hf : Lineage M gen (es ++ [.idleWarned child.id]) { s with idleWarned := update s.idleWarned child.id true } :=
      hi.frame rfl rfl rfl rfl (List.Sublist.refl _) rfl fun _ h => .inl h
    refine ⟨hf.born, hf.named, hf.children, hf.jobs, hf.info, fun id => ?_, fun m hm => ?_⟩
    · have hzero : Notice.timesOut id n = false := by simp [Notice.timesOut, hn]
      simpa [hzero] using hf.once id
    · rcases List.mem_append.1 hm with hm | hm
      · exact hi.limits m hm
      · obtain rfl := List.mem_singleton.1 hm
        simp [hn]
  | timeout n hlive hid hn =>
    obtain ⟨respawn, hn⟩ := hn
    have hf : Lineage M gen (es ++ [.timedOut child.id]) s :=
      hi.frame rfl rfl rfl rfl (List.Sublist.refl _) rfl fun _ h => .inl h
    refine ⟨hf.born, hf.named, hf.children, hf.jobs, hf.info, fun id => ?_, fun m hm => ?_⟩
    · have hold := hf.once id
      by_cases hne : child.id = id
      · subst hne
        rw [(live hlive).2] at hold
        have hone : Notice.timesOut child.id n = true := by simp [Notice.timesOut, hn, hid]
        simp only [List.countP_append, List.countP_singleton, hone, update_self, if_true, Bool.toNat_true]
        simp only [Bool.toNat_false] at hold
        omega
      · have hzero : Notice.timesOut id n = false := by simp [Notice.timesOut, hid, hne]
        simpa [hzero, update_of_ne (Ne.symm hne)] using hold
    · rcases List.mem_append.1 hm with hm | hm
      · exact hi.limits m hm
      · obtain rfl := List.mem_singleton.1 hm
        intro r maxRetries hk
        rw [hn] at hk
        cases hk
        exact hM

theorem childFile_frame (s : State) (sessionID : ℕ) (text : List Char) (now : ℕ) :
    ∃ board, s.childFile sessionID text now = { s with board := board } ∧
      board.children.map (·.id) = s.board.children.map (·.id) := by
  have htouch (l : List OrchestrationChild) : (l.map fun child =>
      if child.id = sessionID then { child with lastBoardWrite := now } else child).map (·.id) =
        l.map (·.id) := by
    rw [List.map_map]
    exact List.map_congr_left fun child _ => by rw [comp_apply]; split_ifs <;> rfl
  unfold State.childFile
  dsimp only
  split_ifs
  · obtain ⟨g, hg, hgs⟩ := (markDone_marks { s.board with children := s.board.children.map fun child =>
      if child.id = sessionID then { child with lastBoardWrite := now } else child } sessionID now).children
    refine ⟨_, rfl, ?_⟩
    rw [hg, List.map_map, ← htouch]
    exact List.map_congr_left fun child _ => (hgs child).1
  · exact ⟨_, rfl, htouch _⟩
  · exact ⟨_, rfl, rfl⟩

theorem sessionEnd_frame (s : State) (sessionID : ℕ) :
    ∃ board, s.completeOrchestrationChildOnSessionEnd sessionID = { s with board := board } ∧
      board.children.map (·.id) = s.board.children.map (·.id) := by
  unfold State.completeOrchestrationChildOnSessionEnd
  dsimp only
  split_ifs
  · refine ⟨_, rfl, ?_⟩
    rw [List.map_map]
    exact List.map_congr_left fun child _ => by rw [comp_apply]; split_ifs <;> rfl
  · exact ⟨_, rfl, rfl⟩

theorem boardChange_ids (b : OrchestrationBoard) (size mod : ℕ) (text : List Char) (now : ℕ) :
    (handleBoardChange b size mod text now).1.children.map (·.id) = b.children.map (·.id) := by
  obtain ⟨g, hg, hgs⟩ := (handleBoardChange_marks b size mod text now).children
  rw [hg, List.map_map]
  exact List.map_congr_left fun child _ => (hgs child).1

/-- The notice of a timeout is used up by the restart it leads to. -/
theorem Lineage.respawn {n : Notice} {rest : List Notice} {respawn : Bool} {maxRetries : ℕ}
    (hi : Lineage M gen es s) (hs : s.notices = n :: rest) (hk : n.kind = .timeout respawn maxRetries) :
    Lineage M gen (es ++ (({ s with notices := rest } : State).respawnTimedOutChild n.childID maxRetries).2)
      (({ s with notices := rest } : State).respawnTimedOutChild n.childID maxRetries).1 := by
  have hM : maxRetries ≤ M := hi.limits n (hs ▸ List.mem_cons_self) _ _ hk
  have hsub : rest.Sublist s.notices := hs ▸ List.sublist_cons_self n rest
  have hrest : Lineage M gen (es ++ []) { s with notices := rest } :=
    hi.frame rfl rfl rfl rfl hsub rfl fun _ h => .inl h
  unfold State.respawnTimedOutChild
  split
  · exact hrest
  · rename_i child hfind
    dsimp only
    split_ifs with hno
    · exact hrest
    · simp only [ge_iff_le, not_or, not_le] at hno
      obtain ⟨-, hlt, hprovider⟩ := hno
      replace hlt : (s.info n.childID).timeoutRetries < maxRetries := hlt
      have hid : child.id = n.childID := by simpa using List.find?_some hfind
      have hknown : n.childID ≤ s.nextID := hid ▸ hi.children child (List.mem_of_find?_eq_some hfind)
      have honce := hi.once n.childID
      have hone : n.timesOut n.childID = true := by simp [Notice.timesOut, hk]
      rw [hs, List.countP_cons, if_pos hone] at honce
      have htoNat := Bool.toNat_le (s.timedOut n.childID)
      have hfirst : Event.respawning n.childID ∉ es := List.count_eq_zero.1 (by omega)
      have hgen := hi.info n.childID hprovider hfirst
      refine ⟨fun old new h => ?_, fun replaces new h => ?_, hi.children, fun job hj => ?_,
        fun id hp hr => ?_, fun id => ?_, fun m hm => hi.limits m (hsub.subset hm)⟩
      · exact hi.born old new (by simpa using h)
      · exact hi.named replaces new (by simpa using h)
      · rcases List.mem_append.1 hj with hj | hj
        · exact hi.jobs job hj
        · obtain rfl := List.mem_singleton.1 hj
          refine ⟨hlt.trans_le hM, fun old ho => ?_, fun _ hp => Phase.noConfusion hp⟩
          obtain rfl : n.childID = old := by simpa using ho
          exact ⟨hknown, congrArg (· + 1) hgen⟩
      · have hne : id ≠ n.childID := fun h => hr (by simp [h])
        simp only [update_of_ne hne] at hp ⊢
        exact hi.info id hp fun h => hr (List.mem_append_left _ h)
      · by_cases hne : n.childID = id
        · subst hne
          rw [List.count_append, List.count_singleton_self]
          show es.count (.respawning n.childID) + 1 + rest.countP (·.timesOut n.childID) ≤
            (s.timedOut n.childID).toNat
          omega
        · have hzero : List.count (Event.respawning id) [Event.respawning n.childID] = 0 :=
            List.count_eq_zero.2 (by simp [Ne.symm hne])
          rw [List.count_append, hzero]
          have := hi.once id
          have := hsub.countP_le (p := (·.timesOut id))
          show es.count (.respawning id) + 0 + rest.countP (·.timesOut id) ≤ (s.timedOut id).toNat
          omega

theorem Lineage.deliver {n : Notice} {rest : List Notice} (hi : Lineage M gen es s)
    (hs : s.notices = n :: rest) :
    Lineage M gen (es ++ (({ s with notices := rest } : State).handleNotice n).2)
      (({ s with notices := rest } : State).handleNotice n).1 := by
  have hsub : rest.Sublist s.notices := hs ▸ List.sublist_cons_self n rest
  unfold State.handleNotice
  split
  · exact hi.frame rfl rfl rfl rfl hsub rfl fun _ h => .inl h
  · rename_i respawn maxRetries hk
    dsimp only
    split_ifs
    · have htold : Lineage M gen (es ++ [.orchestrationError n.parentID "timeout".toList (State.timeoutDetail n),
          .markChildState n.childID "timeout".toList]) s :=
        hi.frame rfl rfl rfl rfl (List.Sublist.refl _) rfl fun _ h => .inl h
      rw [← List.append_assoc]
      exact htold.respawn hs hk
    · exact hi.frame rfl rfl rfl rfl hsub rfl fun _ h => .inl h

/-- A session that registers gets the count of its job. -/
theorem Lineage.register {j id : ℕ} {job : Job} (hi : Lineage M gen es s) (hj : s.jobs[j]? = some job)
    (hid : s.nextID < id) (now : ℕ) :
    Lineage M (update gen id job.retries) (es ++ [.registered job.replaces id])
      { (s.registerBoardChild id job.parentID job.role now).setPhase j (.registered id) with nextID := id } := by
  have hfit := hi.jobs job (List.mem_of_getElem? hj)
  have hne {x : ℕ} (hx : x ≤ s.nextID) : update gen id job.retries x = gen x := update_of_ne (by omega) _ _
  refine ⟨fun old new h => ?_, fun replaces new h => ?_, fun child hc => ?_, fun job' hj' => ?_,
    fun x hp hr => ?_, fun x => ?_, hi.limits⟩
  · rcases List.mem_append.1 h with h | h
    · obtain ⟨hnew, hold⟩ := hi.named _ _ h
      rw [hne hnew, hne (hold old rfl)]
      exact hi.born old new h
    · obtain ⟨ho, rfl⟩ : some old = job.replaces ∧ new = id := by simpa using h
      obtain ⟨hle, hr⟩ := hfit.replaces old ho.symm
      rw [update_self, hne hle]
      exact ⟨hr, hfit.retries⟩
  · show new ≤ id ∧ ∀ old ∈ replaces, old ≤ id
    rcases List.mem_append.1 h with h | h
    · obtain ⟨hnew, hold⟩ := hi.named _ _ h
      exact ⟨by omega, fun old ho => by have := hold old ho; omega⟩
    · obtain ⟨rfl, rfl⟩ : replaces = job.replaces ∧ new = id := by simpa using h
      exact ⟨le_rfl, fun old ho => by have := (hfit.replaces old ho).1; omega⟩
  · show child.id ≤ id
    rcases List.mem_append.1 hc with hc | hc
    · have := hi.children child (List.mem_filter.1 hc).1
      omega
    · obtain rfl := List.mem_singleton.1 hc
      exact le_rfl
  · rcases mem_setPhase hj' with hm | ⟨job₀, h₀, rfl⟩
    · exact (hi.jobs job' hm).later hid _
    · obtain rfl : job = job₀ := Option.some.inj (hj.symm.trans h₀)
      have hl := hfit.later hid job.retries
      exact ⟨hl.retries, hl.replaces, fun x hp => by cases hp; exact ⟨le_rfl, by simp⟩⟩
  · have hx : x ≠ id := by
      rintro rfl
      simp [State.registerBoardChild, State.setPhase, Restart.none] at hp
    rw [update_of_ne hx]
    simp only [State.registerBoardChild, State.setPhase, update_of_ne hx] at hp ⊢
    exact hi.info x hp fun h => hr (List.mem_append_left _ h)
  · have hzero : List.count (Event.respawning x) [Event.registered job.replaces id] = 0 :=
      List.count_eq_zero.2 (by simp)
    rw [List.count_append, hzero]
    exact hi.once x

theorem Lineage.restartData {j id : ℕ} {job : Job} (hi : Lineage M gen es s) (hj : s.jobs[j]? = some job)
    (hp : job.phase = .registered id) :
    Lineage M gen (es ++ []) ((s.setChildRestartData id job.restart job.retries).setPhase j .done) := by
  have hfit := hi.jobs job (List.mem_of_getElem? hj)
  have hjobs {u : State} (hu : u.jobs = s.jobs) (job' : Job) (h : job' ∈ (u.setPhase j .done).jobs) :
      job' ∈ s.jobs ∨ JobFits M gen s.nextID job' := by
    rcases mem_setPhase h with hm | ⟨job₀, h₀, rfl⟩
    · exact .inl (hu ▸ hm)
    · exact .inr (hi.jobs job₀ (List.mem_of_getElem? (hu ▸ h₀))).done
  unfold State.setChildRestartData
  dsimp only
  split_ifs
  · have hf : Lineage M gen (es ++ []) (s.setPhase j .done) :=
      hi.frame rfl rfl rfl rfl (List.Sublist.refl _) rfl (hjobs rfl)
    refine ⟨hf.born, hf.named, hf.children, hf.jobs, fun x hpx hr => ?_, hf.once, hf.limits⟩
    by_cases hx : x = id
    · subst hx
      simp only [State.setPhase, update_self]
      exact (hfit.phase x hp).2
    · simp only [State.setPhase, update_of_ne hx] at hpx ⊢
      exact hi.info x hpx (by simpa using hr)
  · exact hi.frame rfl rfl rfl rfl (List.Sublist.refl _) rfl (hjobs rfl)

/-- The limit of every poll. -/
def Bounded (M : ℕ) : Action → Prop
  | .poll cfg _ _ => cfg.maxTimeoutRespawns ≤ M
  | _ => True

theorem lineage_step {a : Action} (hi : Lineage M gen es s) (ha : Bounded M a)
    (h : step s a = some (t, fs)) : ∃ gen, Lineage M gen (es ++ fs) t := by
  cases a with
  | boardChange size mod text now =>
    simp only [step, Option.some.injEq, Prod.mk.injEq] at h
    obtain ⟨rfl, rfl⟩ := h
    exact ⟨gen, hi.frame rfl rfl rfl rfl (List.Sublist.refl _) (boardChange_ids ..) fun _ h => .inl h⟩
  | childFile sessionID text now =>
    simp only [step, Option.some.injEq, Prod.mk.injEq] at h
    obtain ⟨rfl, rfl⟩ := h
    obtain ⟨board, hb, hids⟩ := childFile_frame s sessionID text now
    rw [hb]
    exact ⟨gen, hi.frame rfl rfl rfl rfl (List.Sublist.refl _) hids fun _ h => .inl h⟩
  | sessionEnd sessionID =>
    simp only [step, Option.some.injEq, Prod.mk.injEq] at h
    obtain ⟨rfl, rfl⟩ := h
    obtain ⟨board, hb, hids⟩ := sessionEnd_frame s sessionID
    rw [hb]
    exact ⟨gen, hi.frame rfl rfl rfl rfl (List.Sublist.refl _) hids fun _ h => .inl h⟩
  | poll cfg now lastOutputs =>
    simp only [step, Option.ite_none_right_eq_some, Option.some.injEq, Prod.ext_iff] at h
    obtain ⟨-, rfl, rfl⟩ := h
    exact ⟨gen, poll_keeps _ _ (I := fun h s => Lineage M gen h s) (fun h s child t es hI ht => ht.lineage ha hI) hi _⟩
  | deliver =>
    simp only [step] at h
    split at h
    · simp at h
    · rename_i n rest hn
      simp only [Option.some.injEq] at h
      have hd := hi.deliver hn
      rw [h] at hd
      exact ⟨gen, hd⟩
  | dispatch parentID role restart =>
    simp only [step, Option.some.injEq, Prod.mk.injEq] at h
    obtain ⟨rfl, rfl⟩ := h
    refine ⟨gen, hi.frame rfl rfl rfl rfl (List.Sublist.refl _) rfl fun job hj => ?_⟩
    rcases List.mem_append.1 hj with hj | hj
    · exact .inl hj
    · obtain rfl := List.mem_singleton.1 hj
      exact .inr ⟨Nat.zero_le M, fun old ho => by simp at ho, fun id hp => Phase.noConfusion hp⟩
  | register j id now =>
    simp only [step] at h
    split at h
    · rename_i job hj
      split_ifs at h with hc
      simp only [Option.some.injEq, Prod.mk.injEq] at h
      obtain ⟨rfl, rfl⟩ := h
      exact ⟨_, hi.register hj hc.2 now⟩
    · simp at h
  | restartData j =>
    simp only [step] at h
    split at h
    · rename_i job hj
      split at h
      · rename_i id hp
        simp only [Option.some.injEq, Prod.mk.injEq] at h
        obtain ⟨rfl, rfl⟩ := h
        exact ⟨gen, hi.restartData hj hp⟩
      · simp at h
    · simp at h
  | fail j =>
    simp only [step] at h
    split at h
    · split_ifs at h
      simp only [Option.some.injEq, Prod.mk.injEq] at h
      obtain ⟨rfl, rfl⟩ := h
      refine ⟨gen, hi.frame rfl rfl rfl rfl (List.Sublist.refl _) rfl fun job' hj' => ?_⟩
      rcases mem_setPhase hj' with hm | ⟨job₀, h₀, rfl⟩
      · exact .inl hm
      · exact .inr (hi.jobs job₀ (List.mem_of_getElem? h₀)).done
    · simp at h

/-! ### Lines of replacements -/

theorem lineage_start (M : ℕ) (path : List Char) (now : ℕ) : Lineage M (fun _ => 0) [] (start path now) where
  born _ _ h := absurd h List.not_mem_nil
  named _ _ h := absurd h List.not_mem_nil
  children _ h := absurd h List.not_mem_nil
  jobs _ h := absurd h List.not_mem_nil
  info _ h := absurd rfl h
  once _ := Nat.zero_le _
  limits _ h := absurd h List.not_mem_nil

/-- Each link of a line counts one up. -/
theorem Lineage.chain (hi : Lineage M gen es s) {first : ℕ} {ids : List ℕ}
    (h : (first :: ids).IsChain fun old new => .registered (some old) new ∈ es) (hfirst : gen first ≤ M) :
    gen first + ids.length ≤ M := by
  induction ids generalizing first with
  | nil => exact hfirst
  | cons id ids ih =>
    obtain ⟨hborn, hrest⟩ := List.isChain_cons_cons.1 h
    obtain ⟨hgen, hle⟩ := hi.born first id hborn
    have := ih hrest hle
    rw [List.length_cons]
    omega

/-- A child is started again at most once, and a line of children each started in the place of the one
before holds no more of them than polls allow. -/
theorem respawns_bounded {as : List Action} (hx : exec step (start path now) as = some (t, es))
    (hM : ∀ a ∈ as, Bounded M a) :
    (∀ id, es.count (.respawning id) ≤ 1) ∧
      ∀ first ids, (first :: ids).IsChain (fun old new => .registered (some old) new ∈ es) → ids.length ≤ M := by
  have hok : Meets step (fun _ => Bounded M) (start path now) as := meets_of_mem (fun _ => hM) _
  obtain ⟨gen, hi⟩ := exec_invariant (I := fun h s => ∃ gen, Lineage M gen h s)
    (fun h s a t es ⟨gen, hi⟩ ha hs => lineage_step hi ha hs) ⟨_, lineage_start M path now⟩ hok hx
  refine ⟨fun id => ?_, fun first ids h => ?_⟩
  · have := hi.once id
    have := Bool.toNat_le (t.timedOut id)
    simp only [List.nil_append] at *
    omega
  · cases ids with
    | nil => exact Nat.zero_le M
    | cons id ids =>
      obtain ⟨hgen, hle⟩ := hi.born first id (List.isChain_cons_cons.1 h).1
      have := hi.chain h (by omega)
      omega

/-- A child that may be started again once is, and times out again. -/
def restartedOnce : List Action :=
  startsChild ++ [.poll patient (200 * second) fun _ => none, .deliver, .register 1 11 (201 * second),
    .restartData 1, .poll patient (400 * second) fun _ => none, .deliver]

theorem respawns_bounded_restarted_once : ∃ t es, exec step (start [] 0) restartedOnce = some (t, es) ∧
    .registered (some 10) 11 ∈ es ∧ .timedOut 11 ∈ es ∧ es.count (.respawning 11) ≤ 1 := by
  refine ⟨_, _, rfl, by decide, by decide, ?_⟩
  have h := respawns_bounded (M := 1) (rfl : exec step (start [] 0) restartedOnce = some (_, _))
    (by simp [restartedOnce, startsChild, Bounded, patient])
  exact h.1 11

end ManyAiCli.Hub.ChildTimers
