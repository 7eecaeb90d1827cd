import ManyAiCli.Hub.SpawnChild
import Mathlib.Data.List.Nodup
import Mathlib.Data.List.Perm.Basic

/-! The depth of spawned children. A request hands on its parent's depth plus one, and
that depth travels with the label to the registration. A child started again after a
timeout always gets depth one. So depths are true as long as only children of roots
are started again, and no wrapper comes back under an ID that is in use. -/

namespace ManyAiCli.Hub.Spawn

open Runs

namespace State

variable {cfg : OrchestrationConfig} {s t : State} {p d : ℕ}

/-- A child is one deeper than its parent, and no chain of children from a root is
longer than allowed. -/
structure TrueDepth (cfg : OrchestrationConfig) (s : State) : Prop where
  child : ∀ ses ∈ s.sessions, ∀ parent ∈ s.sessions, ses.parentSessionID = parent.id →
    ses.depth = parent.depth + 1
  chain : ∀ root (chain : List Session), (∀ ses ∈ root :: chain, ses ∈ s.sessions) →
    root.parentSessionID = 0 →
    List.IsChain (fun parent ses => ses.parentSessionID = parent.id) (root :: chain) →
      chain.length ≤ cfg.maxDepth

/-- Something was spawned, or is to be, for this parent. -/
def isParent (s : State) (p : ℕ) : Bool :=
  (s.sessions.any fun ses => ses.parentSessionID = p) || (s.jobs.any fun job => job.parentID = p) ||
    (s.pending.any fun x => x.2.parentSessionID = p) ||
    (s.arriving.any fun a => a.child.any fun c => c.parentSessionID = p) ||
    s.children.any fun c => c.parentID = p

/-- The ID is or was that of a session. -/
def inUse (s : State) (id : ℕ) : Bool :=
  (s.sessions.any fun ses => ses.id = id) || (s.arriving.any fun a => a.id = id) || s.isParent id

/-- Only children of roots are started again, and a wrapper comes back with an ID that
is not in use. -/
def keepsDepth (cfg : OrchestrationConfig) (s : State) : Action → Bool
  | .respawn board sessionID =>
    match s.children.find? fun c => c.board = board && c.id = sessionID with
    | none => true
    | some child =>
      cfg.maxTimeoutRespawns = 0 || child.timeoutRetries ≥ cfg.maxTimeoutRespawns ||
        s.sessions.all fun parent => parent.id ≠ child.parentID || parent.depth = 0
  | .reattach sessionID _ => sessionID = 0 || s.wrappers.contains sessionID || !s.inUse sessionID
  | _ => true

/-! ### Depths on their way -/

/-- The ID of a session that has registered. -/
def Known (s : State) (p : ℕ) : Prop := 0 < p ∧ p ≤ s.nextID ∧ p ∉ s.arriving.map (·.id)

/-- The right depth for a child. -/
def Fits (s : State) (p d : ℕ) : Prop := s.Known p ∧ ∀ ses ∈ s.sessions, ses.id = p → d = ses.depth + 1

/-- Of a session or of a label: no child, or one of the right depth. -/
def Placed (cfg : OrchestrationConfig) (s : State) (p d : ℕ) : Prop :=
  (p = 0 ∧ d = 0) ∨ (s.Fits p d ∧ d ≤ cfg.maxDepth)

def JobFits (cfg : OrchestrationConfig) (s : State) (job : Job) : Prop :=
  s.Fits job.parentID job.childDepth ∧ 0 < job.childDepth ∧
    match job.phase with
    | .confirming depth _ _ => job.childDepth = depth + 1
    | .done => True
    | _ => job.childDepth ≤ cfg.maxDepth

structure DepthInv (cfg : OrchestrationConfig) (s : State) : Prop where
  ids : (s.sessions.map (·.id) ++ s.arriving.map (·.id)).Nodup
  bound : ∀ id ∈ s.sessions.map (·.id) ++ s.arriving.map (·.id), 0 < id ∧ id ≤ s.nextID
  sessions : ∀ ses ∈ s.sessions, s.Placed cfg ses.parentSessionID ses.depth
  pending : ∀ x ∈ s.pending, s.Placed cfg x.2.parentSessionID x.2.depth
  arriving : ∀ a ∈ s.arriving, ∀ c ∈ a.child, s.Placed cfg c.parentSessionID c.depth
  jobs : ∀ job ∈ s.jobs, s.JobFits cfg job
  children : ∀ c ∈ s.children, s.Known c.parentID ∧ 1 ≤ cfg.maxDepth

/-- What was right for a parent of `s` still is: its ID is not given to another session. -/
structure Carries (s t : State) : Prop where
  known : ∀ p, s.isParent p = true → s.Known p → t.Known p
  depth : ∀ p, s.isParent p = true → s.Known p → ∀ ses ∈ t.sessions, ses.id = p →
    ∃ ses' ∈ s.sessions, ses'.id = p ∧ ses'.depth = ses.depth

theorem Carries.fits (hc : Carries s t) (hp : s.isParent p = true) (h : s.Fits p d) : t.Fits p d := by
  refine ⟨hc.known p hp h.1, fun ses hm hid => ?_⟩
  obtain ⟨ses', hm', hid', hd⟩ := hc.depth p hp h.1 ses hm hid
  rw [h.2 ses' hm' hid', hd]

theorem Carries.placed (hc : Carries s t) (hp : s.isParent p = true) (h : s.Placed cfg p d) :
    t.Placed cfg p d := h.imp_right fun h => ⟨hc.fits hp h.1, h.2⟩

theorem JobFits.carry {job : Job} (h : s.JobFits cfg job) (hc : Carries s t)
    (hp : s.isParent job.parentID = true) : t.JobFits cfg job := ⟨hc.fits hp h.1, h.2⟩

/-! ### Who is a parent -/

theorem isParent_of_session {ses : Session} (h : ses ∈ s.sessions) : s.isParent ses.parentSessionID = true := by
  simp only [isParent, Bool.or_eq_true, List.any_eq_true, decide_eq_true_eq]
  exact .inl (.inl (.inl (.inl ⟨ses, h, rfl⟩)))

theorem isParent_of_job {job : Job} (h : job ∈ s.jobs) : s.isParent job.parentID = true := by
  simp only [isParent, Bool.or_eq_true, List.any_eq_true, decide_eq_true_eq]
  exact .inl (.inl (.inl (.inr ⟨job, h, rfl⟩)))

theorem isParent_of_pending {x : String × PendingChild} (h : x ∈ s.pending) :
    s.isParent x.2.parentSessionID = true := by
  simp only [isParent, Bool.or_eq_true, List.any_eq_true, decide_eq_true_eq]
  exact .inl (.inl (.inr ⟨x, h, rfl⟩))

theorem isParent_of_arriving {a : Arriving} {c : PendingChild} (h : a ∈ s.arriving) (hc : c ∈ a.child) :
    s.isParent c.parentSessionID = true := by
  simp only [isParent, Bool.or_eq_true, List.any_eq_true, decide_eq_true_eq]
  exact .inl (.inr ⟨a, h, by rw [Option.mem_def.1 hc]; simp⟩)

theorem isParent_of_child {c : OrchestrationChild} (h : c ∈ s.children) : s.isParent c.parentID = true := by
  simp only [isParent, Bool.or_eq_true, List.any_eq_true, decide_eq_true_eq]
  exact .inr ⟨c, h, rfl⟩

/-! ### Steps without new IDs -/

/-- Each session of `t` is one of `s`, in the same order, with its ID, parent and depth. -/
structure Frame (s t : State) : Prop where
  nextID : t.nextID = s.nextID
  arriving : t.arriving.map (·.id) = s.arriving.map (·.id)
  sessions : ∃ f : Session → Option Session, t.sessions = s.sessions.filterMap f ∧
    ∀ ses ses', f ses = some ses' →
      ses'.id = ses.id ∧ ses'.parentSessionID = ses.parentSessionID ∧ ses'.depth = ses.depth

theorem frame_of_eq (hn : t.nextID = s.nextID) (ha : t.arriving.map (·.id) = s.arriving.map (·.id))
    (hs : t.sessions = s.sessions) : Frame s t :=
  ⟨hn, ha, some, by simp [hs], by rintro ses _ ⟨⟩; exact ⟨rfl, rfl, rfl⟩⟩

theorem frame_filter (q : Session → Bool) (hn : t.nextID = s.nextID) (ha : t.arriving = s.arriving)
    (hs : t.sessions = s.sessions.filter q) : Frame s t := by
  refine ⟨hn, by rw [ha], Option.guard q, by rw [hs, List.filterMap_eq_filter], fun ses ses' hg => ?_⟩
  obtain ⟨rfl, -⟩ := Option.guard_eq_some_iff.1 hg
  exact ⟨rfl, rfl, rfl⟩

theorem frame_setSession {f : Session → Session} (sessionID : ℕ) (hn : t.nextID = s.nextID)
    (ha : t.arriving = s.arriving) (hs : t.sessions = (s.setSession sessionID f).sessions)
    (hf : ∀ ses, (f ses).id = ses.id ∧ (f ses).parentSessionID = ses.parentSessionID ∧
      (f ses).depth = ses.depth) : Frame s t := by
  refine ⟨hn, by rw [ha], fun ses => some (if ses.id = sessionID then f ses else ses), ?_, ?_⟩
  · rw [hs, setSession, List.filterMap_eq_map']
  · rintro ses _ ⟨⟩
    split_ifs
    · exact hf ses
    · exact ⟨rfl, rfl, rfl⟩

theorem Frame.mem (h : Frame s t) {ses : Session} (hm : ses ∈ t.sessions) :
    ∃ ses' ∈ s.sessions, ses.id = ses'.id ∧ ses.parentSessionID = ses'.parentSessionID ∧
      ses.depth = ses'.depth := by
  obtain ⟨f, hs, hf⟩ := h.sessions
  rw [hs, List.mem_filterMap] at hm
  obtain ⟨ses', hm', he⟩ := hm
  exact ⟨ses', hm', hf _ _ he⟩

theorem Frame.ids_sublist (h : Frame s t) :
    (t.sessions.map (·.id) ++ t.arriving.map (·.id)).Sublist
      (s.sessions.map (·.id) ++ s.arriving.map (·.id)) := by
  obtain ⟨f, hs, hf⟩ := h.sessions
  rw [h.arriving, hs]
  refine List.Sublist.append ?_ (List.Sublist.refl _)
  generalize s.sessions = l
  induction l with
  | nil => exact List.Sublist.refl _
  | cons ses l ih =>
    cases he : f ses with
    | none =>
      rw [List.filterMap_cons_none he]
      exact ih.cons _
    | some ses' =>
      rw [List.filterMap_cons_some he, List.map_cons, List.map_cons, (hf _ _ he).1]
      exact ih.cons_cons _

theorem Frame.carries (h : Frame s t) : Carries s t := by
  refine ⟨fun p _ hk => ?_, fun p _ _ ses hm hid => ?_⟩
  · rw [Known, h.nextID, h.arriving]
    exact hk
  · obtain ⟨ses', hm', he, -, hd⟩ := h.mem hm
    exact ⟨ses', hm', he ▸ hid, hd.symm⟩

/-- The books may grow by what is right. -/
theorem DepthInv.frame (hi : DepthInv cfg s) (hf : Frame s t)
    (ha : ∀ a ∈ t.arriving, a ∈ s.arriving ∨ ∀ c ∈ a.child, t.Placed cfg c.parentSessionID c.depth)
    (hp : ∀ x ∈ t.pending, x ∈ s.pending ∨ t.Placed cfg x.2.parentSessionID x.2.depth)
    (hj : ∀ job ∈ t.jobs, job ∈ s.jobs ∨ t.JobFits cfg job)
    (hch : ∀ c ∈ t.children, (∃ c' ∈ s.children, c'.parentID = c.parentID) ∨
      t.Known c.parentID ∧ 1 ≤ cfg.maxDepth) : DepthInv cfg t := by
  have hc := hf.carries
  refine ⟨hi.ids.sublist hf.ids_sublist, fun id hm => ?_, fun ses hm => ?_, fun x hm => ?_,
    fun a hm => ?_, fun job hm => ?_, fun c hm => ?_⟩
  · rw [hf.nextID]
    exact hi.bound id (hf.ids_sublist.subset hm)
  · obtain ⟨ses', hm', -, hpar, hd⟩ := hf.mem hm
    rw [hpar, hd]
    exact hc.placed (isParent_of_session hm') (hi.sessions ses' hm')
  · rcases hp x hm with hm | h
    · exact hc.placed (isParent_of_pending hm) (hi.pending x hm)
    · exact h
  · rcases ha a hm with hm | h
    · exact fun c hac => hc.placed (isParent_of_arriving hm hac) (hi.arriving a hm c hac)
    · exact h
  · rcases hj job hm with hm | h
    · exact (hi.jobs job hm).carry hc (isParent_of_job hm)
    · exact h
  · rcases hch c hm with ⟨c', hm', he⟩ | h
    · rw [← he]
      exact ⟨hc.known _ (isParent_of_child hm') (hi.children c' hm').1, (hi.children c' hm').2⟩
    · exact h

/-- Sessions end, are renamed or go away, labels are given up. -/
theorem DepthInv.frame_books (hi : DepthInv cfg s) (hf : Frame s t) (ha : t.arriving = s.arriving)
    (hp : ∀ x ∈ t.pending, x ∈ s.pending) (hj : t.jobs = s.jobs) (hch : t.children = s.children) :
    DepthInv cfg t :=
  hi.frame hf (fun _ h => .inl (ha ▸ h)) (fun x h => .inl (hp x h)) (fun _ h => .inl (hj ▸ h))
    fun c h => .inl ⟨c, hch ▸ h, rfl⟩

/-! ### Requests -/

theorem mem_setPhase {j : ℕ} {job : Job} {phase : Phase} (h : job ∈ (s.setPhase j phase).jobs) :
    job ∈ s.jobs ∨ ∃ job', s.jobs[j]? = some job' ∧ job = { job' with phase := phase } := by
  obtain ⟨i, hi⟩ := List.mem_iff_getElem?.1 h
  rw [setPhase, List.getElem?_modify] at hi
  obtain ⟨job', hj, he⟩ := Option.map_eq_some_iff.1 hi
  split_ifs at he with hij
  · subst hij
    exact .inr ⟨job', hj, he.symm⟩
  · exact .inl (he ▸ List.mem_of_getElem? hj)

/-- A job goes on; the books grow by what is right for its parent. -/
theorem DepthInv.progress {j : ℕ} {job : Job} {phase : Phase} (hi : DepthInv cfg s)
    (hj : s.jobs[j]? = some job) (hf : Frame s t) (ha : t.arriving = s.arriving)
    (hp : ∀ x ∈ t.pending, x ∈ s.pending ∨
      x.2.parentSessionID = job.parentID ∧ x.2.depth = job.childDepth ∧ job.childDepth ≤ cfg.maxDepth)
    (hjobs : t.jobs = (s.setPhase j phase).jobs)
    (hphase : s.JobFits cfg job → s.JobFits cfg { job with phase := phase })
    (hch : ∀ c ∈ t.children, c ∈ s.children ∨ c.parentID = job.parentID ∧ 1 ≤ cfg.maxDepth) :
    DepthInv cfg t := by
  have hm := List.mem_of_getElem? hj
  have hfit := hi.jobs job hm
  have hc := hf.carries
  refine hi.frame hf (fun _ h => .inl (ha ▸ h)) (fun x hx => ?_) (fun job' hj' => ?_) fun c hx => ?_
  · rcases hp x hx with h | ⟨hpar, hd, hle⟩
    · exact .inl h
    · rw [hpar, hd]
      exact .inr (.inr ⟨hc.fits (isParent_of_job hm) hfit.1, hle⟩)
  · rw [hjobs] at hj'
    rcases mem_setPhase hj' with h | ⟨job₀, h₀, rfl⟩
    · exact .inl h
    · obtain rfl : job = job₀ := Option.some.inj (hj.symm.trans h₀)
      have hpar : s.isParent job.parentID = true := isParent_of_job hm
      exact .inr (JobFits.carry (hphase hfit) hc hpar)
  · rcases hch c hx with h | ⟨hpar, hle⟩
    · exact .inl ⟨c, h, rfl⟩
    · rw [hpar]
      exact .inr ⟨hc.known _ (isParent_of_job hm) hfit.1.1, hle⟩

theorem depthInv_spawnChild {parentID : ℕ} {role : List Char} {force : Bool} {es : List Event}
    (hi : DepthInv cfg s) (h : s.spawnChild parentID role force = (t, es)) : DepthInv cfg t := by
  simp only [spawnChild, orchestrationParentState] at h
  split at h
  · cases h
    exact hi
  split at h
  · cases h
    exact hi
  rename_i parent _ _ hfind
  simp only [Prod.mk.injEq] at hfind
  have hm := List.mem_of_find?_eq_some hfind.1
  have hid : parent.id = parentID := by simpa using List.find?_some hfind.1
  cases h
  refine hi.frame (frame_of_eq rfl rfl rfl) (fun _ => .inl) (fun _ => .inl) (fun job hj => ?_) fun c hc => .inl ⟨c, hc, rfl⟩
  rcases List.mem_append.1 hj with hj | hj
  · exact .inl hj
  obtain rfl := List.mem_singleton.1 hj
  have hsid : parentID ∈ s.sessions.map (·.id) := hid ▸ List.mem_map_of_mem hm
  obtain ⟨hpos, hle⟩ := hi.bound parentID (List.mem_append_left _ hsid)
  obtain ⟨hnd, -, hdisj⟩ := List.nodup_append.1 hi.ids
  refine .inr ⟨⟨⟨hpos, hle, fun ha => hdisj _ hsid _ ha rfl⟩, fun ses hs he => ?_⟩, by simp, rfl⟩
  rw [List.inj_on_of_nodup_map hnd hs hm (he.trans hid.symm)]

theorem depthInv_respawn {board : String} {sessionID : ℕ} {es : List Event} (hi : DepthInv cfg s)
    (hok : s.keepsDepth cfg (.respawn board sessionID))
    (h : s.respawnTimedOutChild cfg board sessionID = (t, es)) : DepthInv cfg t := by
  simp only [respawnTimedOutChild] at h
  simp only [keepsDepth] at hok
  split at h
  · cases h
    exact hi
  rename_i child hfind
  rw [hfind] at hok
  split_ifs at h with hgive <;> cases h
  · exact hi
  have hm := List.mem_of_find?_eq_some hfind
  obtain ⟨hknown, hone⟩ := hi.children child hm
  have hroot : ∀ parent ∈ s.sessions, parent.id = child.parentID → parent.depth = 0 := by
    obtain ⟨h0, hlt⟩ := not_or.1 hgive
    simp only [h0, hlt, decide_false, Bool.false_or, List.all_eq_true, Bool.or_eq_true,
      decide_eq_true_eq] at hok
    exact fun parent hp he => (hok parent hp).resolve_left (by simpa using he)
  refine hi.frame (frame_of_eq rfl rfl rfl) (fun _ => .inl) (fun _ => .inl) (fun job hj => ?_)
    fun c hc => ?_
  · rcases List.mem_append.1 hj with hj | hj
    · exact .inl hj
    obtain rfl := List.mem_singleton.1 hj
    exact .inr ⟨⟨hknown, fun ses hs he => by rw [hroot ses hs he]⟩, Nat.one_pos, hone⟩
  · obtain ⟨c', hc', rfl⟩ := List.mem_map.1 hc
    refine .inl ⟨c', hc', ?_⟩
    split_ifs <;> rfl

/-! ### New IDs -/

/-- A wrapper gets an ID that nobody has. -/
theorem DepthInv.arrive {id n : ℕ} {label : String} {child : Option PendingChild} {reattached : Bool}
    (hi : DepthInv cfg s) (hpos : 0 < id) (hle : id ≤ n) (hn : s.nextID ≤ n)
    (hnew : id ∉ s.sessions.map (·.id) ++ s.arriving.map (·.id))
    (hpar : s.isParent id = true → ¬ s.Known id)
    (hchild : ∀ c ∈ child, c.parentSessionID = 0 ∧ c.depth = 0) :
    DepthInv cfg { s with nextID := n, arriving := s.arriving ++ [⟨id, label, child, reattached⟩] } := by
  have hc : Carries s
      { s with nextID := n, arriving := s.arriving ++ [⟨id, label, child, reattached⟩] } := by
    refine ⟨fun p hp hk => ⟨hk.1, hk.2.1.trans hn, ?_⟩, fun p _ _ ses hm he => ⟨ses, hm, he, rfl⟩⟩
    simp only [List.map_append, List.map_cons, List.map_nil, List.mem_append, List.mem_singleton, not_or]
    exact ⟨hk.2.2, fun he => hpar (he ▸ hp) (he ▸ hk)⟩
  refine ⟨?_, fun x hx => ?_, fun ses hm => ?_, fun x hm => ?_, fun a hm c hac => ?_, fun job hm => ?_,
    fun c hm => ?_⟩
  · simp only [List.map_append, List.map_cons, List.map_nil, ← List.append_assoc]
    exact List.Nodup.append hi.ids (List.nodup_singleton _) (List.disjoint_singleton.2 hnew)
  · simp only [List.map_append, List.map_cons, List.map_nil, ← List.append_assoc] at hx
    rcases List.mem_append.1 hx with hx | hx
    · exact ⟨(hi.bound x hx).1, (hi.bound x hx).2.trans hn⟩
    · obtain rfl := List.mem_singleton.1 hx
      exact ⟨hpos, hle⟩
  · exact hc.placed (isParent_of_session hm) (hi.sessions ses hm)
  · exact hc.placed (isParent_of_pending hm) (hi.pending x hm)
  · rcases List.mem_append.1 hm with hm | hm
    · exact hc.placed (isParent_of_arriving hm hac) (hi.arriving a hm c hac)
    · obtain rfl := List.mem_singleton.1 hm
      exact .inl (hchild c hac)
  · exact (hi.jobs job hm).carry hc (isParent_of_job hm)
  · exact ⟨hc.known _ (isParent_of_child hm) (hi.children c hm).1, (hi.children c hm).2⟩

theorem DepthInv.arrive_fresh {label : String} {child : Option PendingChild} {reattached : Bool}
    (hi : DepthInv cfg s) (hchild : ∀ c ∈ child, c.parentSessionID = 0 ∧ c.depth = 0) :
    DepthInv cfg { s with
      nextID := s.nextID + 1
      arriving := s.arriving ++ [⟨s.nextID + 1, label, child, reattached⟩] } :=
  hi.arrive (Nat.succ_pos _) (Nat.le_refl _) (Nat.le_succ _)
    (fun hm => Nat.not_succ_le_self _ (hi.bound _ hm).2) (fun _ hk => Nat.not_succ_le_self _ hk.2.1) hchild

theorem depthInv_reattach {sessionID : ℕ} {label : String} {es : List Event} (hi : DepthInv cfg s)
    (hok : s.keepsDepth cfg (.reattach sessionID label)) (h : s.reattach sessionID label = (t, es)) :
    DepthInv cfg t := by
  have hnone : ∀ c ∈ some PendingChild.none, c.parentSessionID = 0 ∧ c.depth = 0 := by
    simp [PendingChild.none]
  simp only [reattach] at h
  simp only [keepsDepth, Bool.or_eq_true, decide_eq_true_eq, Bool.not_eq_true'] at hok
  split_ifs at h with h0 hw <;> cases h
  · exact hi
  · rw [Nat.max_eq_right (Nat.le_succ _)]
    exact hi.arrive_fresh hnone
  · have hnew := hok.resolve_left fun h => h.elim h0 hw
    simp only [inUse, Bool.or_eq_false_iff, List.any_eq_false, decide_eq_true_eq] at hnew
    refine hi.arrive (Nat.pos_of_ne_zero h0) (le_max_right _ _) (le_max_left _ _) ?_ ?_ hnone
    · simp only [List.mem_append, List.mem_map, not_or, not_exists, not_and]
      exact hnew.1
    · exact fun hp => absurd hp (by simp [hnew.2])

/-- What a wrapper finds under its label. -/
def lookedUp (s : State) (label : String) : PendingChild :=
  if label = "" then PendingChild.none else (s.pending.lookup label).getD PendingChild.none

theorem lookedUp_cases (s : State) (label : String) :
    s.lookedUp label = PendingChild.none ∨ (label, s.lookedUp label) ∈ s.pending := by
  rw [lookedUp]
  split_ifs
  · exact .inl rfl
  cases hl : s.pending.lookup label with
  | none => exact .inl rfl
  | some c =>
    obtain ⟨l₁, l₂, heq, -⟩ := List.lookup_eq_some_iff.1 hl
    exact .inr (by simp [heq])

theorem depthInv_lookup {i : ℕ} {es : List Event} (hi : DepthInv cfg s) (h : s.lookup i = some (t, es)) :
    DepthInv cfg t := by
  unfold lookup at h
  split at h
  on_goal 2 => cases h
  rename_i id label reattached ha
  simp only [Option.some.injEq, Prod.mk.injEq] at h
  rw [← lookedUp] at h
  obtain ⟨ht, -⟩ := h
  have hf : Frame s t := by
    subst ht
    refine frame_of_eq rfl (List.ext_getElem? fun k => ?_) rfl
    rw [List.map_set, List.getElem?_set, List.getElem?_map]
    split_ifs with hk hlt
    · rw [← hk, ha]
      rfl
    · rw [← hk, ha]
      exact absurd (@List.length_map _ _ s.arriving _ ▸ (List.getElem?_eq_some_iff.1 ha).1) hlt
    · rfl
  refine hi.frame hf (fun a hm => ?_) (fun x hx => ?_) (fun job hj => .inl (by rwa [← ht] at hj))
    fun c hc => .inl ⟨c, by rwa [← ht] at hc, rfl⟩
  · rw [← ht] at hm
    rcases List.mem_or_eq_of_mem_set hm with hm | rfl
    · exact .inl hm
    refine .inr fun c hc => ?_
    obtain rfl := Option.some.inj hc
    rcases s.lookedUp_cases label with hn | hm
    · exact .inl ⟨by rw [hn]; rfl, by rw [hn]; rfl⟩
    · exact hf.carries.placed (isParent_of_pending hm) (hi.pending _ hm)
  · rw [← ht] at hx
    exact .inl (List.mem_filter.1 hx).1

/-- A session enters the map under the ID its wrapper has been given. -/
theorem depthInv_register {i : ℕ} {es : List Event} (hi : DepthInv cfg s)
    (h : s.register i = some (t, es)) : DepthInv cfg t := by
  unfold register at h
  split at h
  on_goal 2 => cases h
  rename_i id label child reattached ha
  have hn : s.nextID ≤ if reattached then max s.nextID id else s.nextID := by
    split_ifs
    · exact le_max_left _ _
    · exact Nat.le_refl _
  obtain ⟨hlt, hget⟩ := List.getElem?_eq_some_iff.1 ha
  have hm := List.mem_of_getElem? ha
  have hold : ∀ ses ∈ (s.without id).sessions, ses ∈ s.sessions := fun ses hs => (List.mem_filter.1 hs).1
  have herase := (List.eraseIdx_sublist s.arriving i).map (·.id)
  have hperm : (s.sessions.map (·.id) ++ id :: (s.arriving.eraseIdx i).map (·.id)).Perm
      (s.sessions.map (·.id) ++ s.arriving.map (·.id)) := by
    refine List.Perm.append_left _ ?_
    have := (List.getElem_cons_eraseIdx_perm hlt).map (·.id)
    rwa [List.map_cons, hget] at this
  have hsub : (((s.without id).sessions.map (·.id) ++ [id]) ++ (s.arriving.eraseIdx i).map (·.id)).Sublist
      (s.sessions.map (·.id) ++ id :: (s.arriving.eraseIdx i).map (·.id)) := by
    rw [List.append_assoc]
    exact List.Sublist.append (List.filter_sublist.map _) (List.Sublist.refl _)
  cases h
  generalize hses : Session.mk id label child.parentSessionID child.role child.depth child.force
    (if reattached then .running else .standby) = ses
  have hid : ses.id = id := by rw [← hses]
  have hc : Carries s { s with
      sessions := (s.without id).sessions ++ [ses]
      wrappers := id :: s.wrappers
      nextID := if reattached then max s.nextID id else s.nextID
      arriving := s.arriving.eraseIdx i } := by
    refine ⟨fun p _ hk => ⟨hk.1, hk.2.1.trans hn, fun hp => hk.2.2 (herase.subset hp)⟩,
      fun p _ hk ses' hs he => ?_⟩
    rcases List.mem_append.1 hs with hs | hs
    · exact ⟨ses', hold ses' hs, he, rfl⟩
    · obtain rfl := List.mem_singleton.1 hs
      exact absurd (List.mem_map.2 ⟨_, hm, hid.symm.trans he⟩) hk.2.2
  refine ⟨?_, fun x hx => ?_, fun ses' hs => ?_, fun x hx => hc.placed (isParent_of_pending hx) (hi.pending x hx),
    fun a hx c hac => ?_, fun job hj => (hi.jobs job hj).carry hc (isParent_of_job hj), fun c hx => ?_⟩
  · simp only [List.map_append, List.map_cons, List.map_nil, hid]
    exact (hperm.nodup_iff.2 hi.ids).sublist hsub
  · simp only [List.map_append, List.map_cons, List.map_nil, hid] at hx
    obtain ⟨hpos, hle⟩ := hi.bound x (hperm.subset (hsub.subset hx))
    exact ⟨hpos, hle.trans hn⟩
  · rcases List.mem_append.1 hs with hs | hs
    · exact hc.placed (isParent_of_session (hold ses' hs)) (hi.sessions ses' (hold ses' hs))
    · obtain rfl := List.mem_singleton.1 hs
      subst hses
      exact hc.placed (isParent_of_arriving hm rfl) (hi.arriving _ hm child rfl)
  · have hx := (List.eraseIdx_sublist s.arriving i).subset hx
    exact hc.placed (isParent_of_arriving hx hac) (hi.arriving a hx c hac)
  · exact ⟨hc.known _ (isParent_of_child hx) (hi.children c hx).1, (hi.children c hx).2⟩

/-! ### Runs -/

theorem depthInv_step (s : State) (a : Action) (t : State) (es : List Event)
    (hi : DepthInv cfg s) (hok : s.keepsDepth cfg a) (h : s.step cfg a = some (t, es)) :
    DepthInv cfg t := by
  cases a with
  | spawnChild parentID role force => exact depthInv_spawnChild hi (Option.some.inj h)
  | respawn board sessionID => exact depthInv_respawn hi hok (Option.some.inj h)
  | reattach sessionID label => exact depthInv_reattach hi hok (Option.some.inj h)
  | lookup i => exact depthInv_lookup hi h
  | register i => exact depthInv_register hi h
  | connect label =>
    cases h
    exact hi.arrive_fresh (by simp)
  | decide j board approved =>
    simp only [step, decide] at h
    split at h <;> try cases h
    rename_i job hj
    split at h <;> try cases h
    rename_i depth childCount totalSessions hphase
    split at h <;> cases h
    · exact hi.progress hj (frame_of_eq rfl rfl rfl) rfl (fun _ => .inl) rfl
        (fun hfit => ⟨hfit.1, hfit.2.1, trivial⟩) fun _ => .inl
    · rename_i hcheck
      refine hi.progress hj (frame_of_eq rfl rfl rfl) rfl (fun _ => .inl) rfl
        (fun hfit => ⟨hfit.1, hfit.2.1, ?_⟩) fun _ => .inl
      -- the limit is checked on the snapshot the child's depth comes from
      have hd := hfit.2.2
      simp only [hphase] at hd
      simp only [checkSpawn] at hcheck
      split_ifs at hcheck
      all_goals dsimp only; omega
  | abort j =>
    simp only [step, abort] at h
    split at h <;> try cases h
    rename_i job hj
    split at h <;> try cases h
    split_ifs at h
    cases h
    exact hi.progress hj (frame_of_eq rfl rfl rfl) rfl (fun _ => .inl) rfl
      (fun hfit => ⟨hfit.1, hfit.2.1, trivial⟩) fun _ => .inl
  | dispatch j label =>
    simp only [step, dispatch] at h
    split at h <;> try cases h
    rename_i job hj
    split at h <;> cases h
    rename_i board hphase
    have hle : job.childDepth ≤ cfg.maxDepth := by
      have := (hi.jobs job (List.mem_of_getElem? hj)).2.2
      rwa [hphase] at this
    refine hi.progress hj (frame_of_eq rfl rfl rfl) rfl (fun x hx => ?_) rfl
      (fun hfit => ⟨hfit.1, hfit.2.1, hle⟩) fun _ => .inl
    rcases List.mem_cons.1 hx with rfl | hx
    · exact .inr ⟨rfl, rfl, hle⟩
    · exact .inl (List.mem_filter.1 hx).1
  | fail j =>
    simp only [step, fail] at h
    split at h <;> try cases h
    rename_i job hj
    split at h <;> cases h
    exact hi.progress hj (frame_of_eq rfl rfl rfl) rfl (fun x hx => .inl (List.mem_filter.1 hx).1) rfl
      (fun hfit => ⟨hfit.1, hfit.2.1, trivial⟩) fun _ => .inl
  | finish j =>
    simp only [step, finish] at h
    split at h <;> try cases h
    rename_i job hj
    split at h <;> try cases h
    rename_i board label hphase
    split at h <;> cases h
    have hfit := hi.jobs job (List.mem_of_getElem? hj)
    have hle : job.childDepth ≤ cfg.maxDepth := by
      have := hfit.2.2
      rwa [hphase] at this
    refine hi.progress hj (frame_of_eq rfl rfl rfl) rfl (fun _ => .inl) rfl
      (fun hfit => ⟨hfit.1, hfit.2.1, trivial⟩) fun c hc => ?_
    rcases List.mem_cons.1 hc with rfl | hc
    · exact .inr ⟨rfl, Nat.le_trans hfit.2.1 hle⟩
    · exact .inl (List.mem_filter.1 hc).1
  | reserve label =>
    cases h
    refine hi.frame (frame_of_eq rfl rfl rfl) (fun _ => .inl) (fun x hx => ?_) (fun _ => .inl)
      fun c hc => .inl ⟨c, hc, rfl⟩
    rcases List.mem_cons.1 hx with rfl | hx
    · exact .inr (.inl ⟨rfl, rfl⟩)
    · exact .inl (List.mem_filter.1 hx).1
  | unreserve label =>
    cases h
    exact hi.frame_books (frame_of_eq rfl rfl rfl) rfl (fun x hx => (List.mem_filter.1 hx).1) rfl rfl
  | activity sessionID state =>
    simp only [step, activity] at h
    split_ifs at h
    cases h
    refine hi.frame_books (frame_setSession sessionID rfl rfl rfl fun ses => ?_) rfl (fun _ => id) rfl rfl
    split_ifs <;> exact ⟨rfl, rfl, rfl⟩
  | markState sessionID state =>
    simp only [step, markState] at h
    split_ifs at h
    cases h
    exact hi.frame_books (frame_setSession sessionID rfl rfl rfl fun ses => ⟨rfl, rfl, rfl⟩) rfl
      (fun _ => id) rfl rfl
  | rename sessionID label =>
    cases h
    exact hi.frame_books (frame_setSession sessionID rfl rfl rfl fun ses => ⟨rfl, rfl, rfl⟩) rfl
      (fun _ => id) rfl rfl
  | disconnect sessionID own =>
    have hf (ses : Session) : let ses' := if isTerminalSessionState ses.state then ses
          else { ses with state := .disconnected }
        ses'.id = ses.id ∧ ses'.parentSessionID = ses.parentSessionID ∧ ses'.depth = ses.depth := by
      dsimp only
      split_ifs <;> exact ⟨rfl, rfl, rfl⟩
    cases h
    cases own <;> exact hi.frame_books (frame_setSession sessionID rfl rfl rfl hf) rfl (fun _ => id) rfl rfl
  | dismiss sessionID =>
    simp only [step, dismiss, Option.some.injEq] at h
    split_ifs at h <;> cases h
    · exact hi.frame_books (frame_filter _ rfl rfl rfl) rfl (fun _ => id) rfl rfl
    · exact hi

theorem depthInv_empty (cfg : OrchestrationConfig) : DepthInv cfg empty := by
  refine ⟨List.nodup_nil, ?_, ?_, ?_, ?_, ?_, ?_⟩ <;> simp [empty]

/-- Along a chain the depth grows by one, and only children are at the end of it. -/
theorem chain_depth_le (hi : DepthInv cfg s)
    (hchild : ∀ ses ∈ s.sessions, ∀ parent ∈ s.sessions, ses.parentSessionID = parent.id →
      ses.depth = parent.depth + 1) (parent : Session) (chain : List Session)
    (hm : ∀ ses ∈ parent :: chain, ses ∈ s.sessions)
    (hc : List.IsChain (fun parent ses => ses.parentSessionID = parent.id) (parent :: chain)) :
    parent.depth + chain.length ≤ max parent.depth cfg.maxDepth := by
  induction chain generalizing parent with
  | nil => exact le_max_left _ _
  | cons ses chain ih =>
    obtain ⟨hlink, hc⟩ := List.isChain_cons_cons.1 hc
    have hses : ses ∈ s.sessions := hm ses (by simp)
    have hd := hchild ses hses parent (hm parent (by simp)) hlink
    have hlen := ih ses (fun x hx => hm x (List.mem_cons_of_mem _ hx)) hc
    have hle : ses.depth ≤ cfg.maxDepth := by
      rcases hi.sessions ses hses with h | h
      · omega
      · exact h.2
    rw [max_eq_right hle, hd] at hlen
    rw [List.length_cons]
    omega

theorem DepthInv.trueDepth (hi : DepthInv cfg s) : TrueDepth cfg s := by
  have hchild : ∀ ses ∈ s.sessions, ∀ parent ∈ s.sessions, ses.parentSessionID = parent.id →
      ses.depth = parent.depth + 1 := by
    intro ses hs parent hp he
    rcases hi.sessions ses hs with h | h
    · have := (hi.bound parent.id (List.mem_append_left _ (List.mem_map_of_mem hp))).1
      omega
    · exact h.1.2 parent hp he.symm
  refine ⟨hchild, fun root chain hm hroot hc => ?_⟩
  have hlen := chain_depth_le hi hchild root chain hm hc
  have h0 : root.depth = 0 := by
    rcases hi.sessions root (hm root (by simp)) with h | h
    · exact h.2
    · exact absurd (hroot ▸ h.1.1.1) (Nat.lt_irrefl 0)
  omega

/-- While only children of roots are started again, depths are true and bounded. -/
theorem depth_true {as : List Action} {es : List Event} (hx : exec (step cfg) empty as = some (t, es))
    (hm : Meets (step cfg) (fun s a => s.keepsDepth cfg a) empty as) : TrueDepth cfg t :=
  (exec_state_invariant depthInv_step (depthInv_empty cfg) hm hx).trueDepth

def twoLevels : OrchestrationConfig := ⟨2, 4, 16, 1⟩

/-- A request of `parentID`, the `j`-th job, up to the registration of the child. -/
def spawns (parentID j : ℕ) : List Action :=
  [.spawnChild parentID "review".toList true, .decide j "o1" true, .dispatch j "orch", .connect "orch",
    .lookup 0, .register 0, .finish j, .rename (j + 2) "review"]

/-- A child times out and is started again as the `j`-th job. -/
def respawns (sessionID j : ℕ) : List Action :=
  [.markState sessionID .timeout, .respawn "o1" sessionID, .dispatch j "orch", .connect "orch", .lookup 0,
    .register 0, .finish j, .rename (j + 2) "review"]

def startsRoot : List Action := [.connect "", .lookup 0, .register 0]

/-- The child of a root is started again and has a child of its own. -/
theorem depth_true_respawned_child :
    ∃ s es, exec (step twoLevels) empty (startsRoot ++ spawns 1 0 ++ respawns 2 1 ++ spawns 3 2) =
      some (s, es) ∧ s.sessions.map (·.depth) = [0, 1, 1, 2] ∧ TrueDepth twoLevels s :=
  ⟨_, _, rfl, by decide, depth_true
    (rfl : exec (step twoLevels) empty (startsRoot ++ spawns 1 0 ++ respawns 2 1 ++ spawns 3 2) = some (_, _))
    (by decide)⟩

/-- Where two levels are allowed, a grandchild started again gets a child: the third
level below the root. -/
theorem respawned_grandchild_exceeds_depth :
    ¬ ∀ cfg as s es, exec (step cfg) empty as = some (s, es) → TrueDepth cfg s := by
  intro h
  let child (id parent depth : ℕ) (force : Bool) : Session :=
    ⟨id, "review", parent, "review".toList, depth, force, .standby⟩
  have hdepth := h twoLevels (startsRoot ++ spawns 1 0 ++ spawns 2 1 ++ respawns 3 2 ++ spawns 4 3) _ _ rfl
  have hlen := hdepth.chain ⟨1, "", 0, [], 0, false, .standby⟩
    [child 2 1 1 true, child 4 2 1 false, child 5 4 2 true] (by decide) rfl (by decide)
  exact absurd hlen (by decide)

end State

end ManyAiCli.Hub.Spawn
