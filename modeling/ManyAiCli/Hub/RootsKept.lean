import ManyAiCli.Hub.FileChecks

/-! Do the handlers that change files stay below the git root, and leave it and the session's
directory where they are? They do, if no source of a request is one of these two directories or
above one, and none is below the git root only when case is ignored. -/

namespace ManyAiCli.Hub.FileHandlers

open Files PathGuard Tree

variable {lower fold : Char → Char} {s t : Tree} {cwd src dstDir newName dir name : List Char}
  {srcs : List (List Char)} {p q dst : Path}

/-! ### The renames -/

/-- A source is not above a new place. -/
theorem Planned.not_above_newPath {plan plan' : FileMovePlan} {src' : List Char} (h : Planned s dst src plan)
    (h' : Planned s dst src' plan') : ¬ plan.srcClean <+: plan'.newPath := by
  obtain ⟨n, hn⟩ := h'.newPath_concat
  intro hle
  rw [hn, List.prefix_concat_iff] at hle
  rcases hle with heq | hle
  · exact h.source (heq ▸ hn ▸ h'.target)
  · exact h.notAbove hle

theorem Planned.newPath_not_above {plan plan' : FileMovePlan} {src' : List Char} (h : Planned s dst src plan)
    (h' : Planned s dst src' plan') (hne : plan.newPath ≠ plan'.newPath) : ¬ plan.newPath <+: plan'.newPath := by
  obtain ⟨n, hn⟩ := h.newPath_concat
  obtain ⟨n', hn'⟩ := h'.newPath_concat
  intro hle
  refine hne (hle.eq_of_length ?_)
  rw [hn, hn', List.length_append, List.length_append, List.length_singleton, List.length_singleton]

/-- After some of the moves, the next one still can be made. -/
theorem Planned.renames {m : Tree} {completed : List FileMovePlan} {plan : FileMovePlan} (hdst : s.get dst = some .dir)
    (h : Planned s dst src plan) (hall : ∀ c ∈ completed, ∃ src, Planned s dst src c)
    (htargets : ∀ c ∈ completed, c.newPath ≠ plan.newPath) (hapart : ∀ c ∈ completed, ¬ c.srcClean <+: plan.srcClean)
    (hm : Edited s m (completed.map (·.srcClean)) (completed.map (·.newPath))) :
    m.get plan.newPath = none ∧ m.Renames plan.srcClean plan.newPath := by
  obtain ⟨n, hn⟩ := h.newPath_concat
  have hsource : m.get plan.srcClean = s.get plan.srcClean :=
    hm.same _ (List.forall_mem_map.2 hapart) (hm.not_come h.source)
  have htarget : m.get plan.newPath = none := by
    rw [hm.same, h.target]
    · refine List.forall_mem_map.2 fun c hc => ?_
      obtain ⟨src', hplanned⟩ := hall c hc
      exact hplanned.not_above_newPath h
    · refine List.forall_mem_map.2 fun c hc => ?_
      obtain ⟨src', hplanned⟩ := hall c hc
      exact hplanned.newPath_not_above h (htargets c hc)
  have hdir : m.get dst = some .dir := by
    rw [hm.same _ _ (hm.not_come (by rw [hdst]; exact Option.some_ne_none _)), hdst]
    refine List.forall_mem_map.2 fun c hc => ?_
    obtain ⟨src', hplanned⟩ := hall c hc
    exact hplanned.notAbove
  refine ⟨htarget, ?_, ?_, ?_, ?_, ?_, ?_, ?_⟩
  · rw [hsource]
    exact h.source
  · exact fun hnil => h.notAbove (hnil ▸ List.nil_prefix)
  · rw [hn]
    exact List.append_ne_nil_of_right_ne_nil dst (List.cons_ne_nil n [])
  · rw [htarget]
    exact (Option.some_ne_none _).symm
  · exact fun _ => htarget
  · rw [hn, List.dropLast_concat]
    exact hdir
  · exact fun hle => absurd hle (h.not_above_newPath h)

/-- What the preflight lets pass goes through. -/
theorem runMoves_ok {m : Tree} {completed plans : List FileMovePlan} (hdst : s.get dst = some .dir)
    (h : Moves s dst (completed ++ plans))
    (hm : Edited s m (completed.map (·.srcClean)) (completed.map (·.newPath))) :
    ∃ t, runMoves completed m plans = (t, none) ∧
      Edited s t ((completed ++ plans).map (·.srcClean)) ((completed ++ plans).map (·.newPath)) := by
  induction plans generalizing m completed with
  | nil =>
    rw [List.append_nil]
    exact ⟨m, rfl, hm⟩
  | cons plan plans ih =>
    obtain ⟨src, hplan⟩ := h.planned plan (List.mem_append_right _ (List.mem_cons_self ..))
    have hall : ∀ c ∈ completed, ∃ src, Planned s dst src c := fun c hc => h.planned c (List.mem_append_left _ hc)
    have htargets : ∀ c ∈ completed, c.newPath ≠ plan.newPath := fun c hc => by
      have hnodup := h.targets
      rw [List.map_append, List.nodup_append] at hnodup
      exact hnodup.2.2 _ (List.mem_map_of_mem hc) _ (List.mem_map_of_mem (List.mem_cons_self ..))
    have hapart : ∀ c ∈ completed, ¬ c.srcClean <+: plan.srcClean := fun c hc =>
      (List.pairwise_append.1 h.apart).2.2 c hc plan (List.mem_cons_self ..)
    obtain ⟨hnone, hcan⟩ := hplan.renames hdst hall htargets hapart hm
    have hrename : m.rename plan.srcClean plan.newPath = .ok (m.move _ _ hcan) := rename_of_renames hcan
    have hatomic : atomicRenameNoReplace m plan.srcClean plan.newPath = .ok (m.move _ _ hcan) := by
      rw [atomicRenameNoReplace, if_neg (fun hboth => hboth.2 hnone), hrename]
    have hfree : ∀ c ∈ completed.map (·.newPath), ¬ plan.newPath <+: c ∧ ¬ plan.srcClean <+: c := by
      refine List.forall_mem_map.2 fun c hc => ?_
      obtain ⟨src', hplanned⟩ := hall c hc
      exact ⟨hplan.newPath_not_above hplanned (htargets c hc).symm, hplan.not_above_newPath hplanned⟩
    have hnext := hm.rename hrename hplan.source hplan.target hfree
    have happ : completed ++ plan :: plans = completed ++ [plan] ++ plans := by simp
    rw [happ] at h ⊢
    rw [runMoves, hatomic]
    refine ih h ?_
    rw [List.map_append, List.map_append]
    exact hnext

/-! ### Requests -/

/-- What a request renames, deletes or moves. -/
def Request.sources : Request → List Path
  | .rename src _ => [clean src]
  | .deleteDir src => [clean src]
  | .move src _ srcs => if srcs ≠ [] then srcs.map clean else [clean src]
  | .create _ _ => []

/-- The directories that it moves to or creates in. -/
def Request.dirs : Request → List Path
  | .move _ dstDir _ => [clean dstDir]
  | .create dir _ => [clean dir]
  | _ => []

/-- What it makes. -/
def Request.targets : Request → List Path
  | .rename src newName => [join (clean src).dropLast newName]
  | .deleteDir _ => []
  | .move src dstDir srcs => (Request.move src dstDir srcs).sources.map fun p => join (clean dstDir) (base p)
  | .create dir name => [join (clean dir) name]

theorem runMoves_preflight (hdst : s.get dst = some .dir)
    (h : (preflight lower fold s srcs dst cwd (findGitRoot s cwd)).allOK = true) : ∃ t,
    runMoves [] s ((preflight lower fold s srcs dst cwd (findGitRoot s cwd)).plans.filterMap id) = (t, none) ∧
      Edited s t (srcs.map clean) ((srcs.map clean).map fun p => join dst (base p)) ∧
      ∀ src ∈ srcs, ∃ plan, Passes lower s cwd dst src plan := by
  obtain ⟨plans, hplans, hmoves, heq⟩ := preflight_ok hdst h
  have hfilter : (plans.map some).filterMap id = plans := by
    rw [List.filterMap_map]
    exact List.filterMap_some
  have hnil : Edited s s (([] : List FileMovePlan).map (·.srcClean)) (([] : List FileMovePlan).map (·.newPath)) :=
    edited_nil
  obtain ⟨t, hrun, hedited⟩ := runMoves_ok hdst (show Moves s dst ([] ++ plans) from hmoves) hnil
  rw [heq, hfilter]
  refine ⟨t, hrun, ?_, fun src hsrc => ?_⟩
  · rw [List.nil_append, map_eq_of_forall₂ hplans fun _ _ h => h.srcClean_eq,
      map_eq_of_forall₂ hplans fun _ _ h => h.newPath_eq] at hedited
    rw [List.map_map]
    exact hedited
  · obtain ⟨i, hi, rfl⟩ := List.getElem_of_mem hsrc
    exact ⟨_, hplans.get hi (hplans.length_eq ▸ hi)⟩

/-- What holds of a request that passes. -/
structure Passed (lower : Char → Char) (s : Tree) (cwd : List Char) (req : Request) (t : Tree) : Prop where
  edited : Edited s t req.sources req.targets
  under : ∀ p ∈ req.sources ++ req.dirs, isUnder lower p (clean (findGitRoot s cwd)) = true
  /-- What is made is below the git root only if the directory it is made in is, and no source is the
  root then. -/
  inside : (∀ p ∈ req.sources ++ req.targets, clean (findGitRoot s cwd) <+: p) →
    (∀ p ∈ req.dirs, clean (findGitRoot s cwd) <+: p) ∧ clean (findGitRoot s cwd) ∉ req.sources
  targets : (∀ p ∈ req.sources ++ req.dirs, clean (findGitRoot s cwd) <+: p) →
    clean (findGitRoot s cwd) ∉ req.sources → ∀ p ∈ req.targets, clean (findGitRoot s cwd) <+: p

theorem above_of_concat {n : Name} (h : p <+: q ++ [n]) (hne : p ≠ q ++ [n]) : p <+: q :=
  (List.prefix_concat_iff.1 h).resolve_left hne

theorem passed_rename {newPath : Path} (h : handleFilesRename lower s cwd src newName = .ok (t, newPath)) :
    Passed lower s cwd (.rename src newName) t := by
  obtain ⟨hc, hjoin, hr⟩ := handleFilesRename_ok h
  have htargets : (Request.rename src newName).targets = [newPath] := congrArg (fun p => [p]) hjoin
  obtain ⟨hcan, -⟩ := rename_ok hr
  obtain ⟨dir, n, hsrc⟩ := (List.eq_nil_or_concat' (clean src)).resolve_left hcan.srcNotRoot
  have hnew : newPath = dir ++ [newName] := by
    rw [hc.newPath_eq, hsrc, List.dropLast_concat]
  refine ⟨?_, fun p hp => ?_, fun hin => ⟨nofun, fun hroot => ?_⟩, fun hin hroot p hp => ?_⟩
  · rw [htargets]
    exact edited_rename hr hc.target
  · rw [List.mem_singleton.1 hp]
    exact hc.under
  · have heq := List.mem_singleton.1 hroot
    rw [htargets] at hin
    have hle := hin newPath (List.mem_append_right _ (List.mem_singleton_self newPath))
    rw [heq] at hle
    refine hc.source (hle.eq_of_length ?_ ▸ hc.target)
    rw [hnew, hsrc, List.length_append, List.length_append, List.length_singleton, List.length_singleton]
  · rw [htargets] at hp
    have hle := hin (clean src) (List.mem_singleton_self _)
    rw [hsrc] at hle
    have hdir := above_of_concat hle fun heq => hroot (List.mem_singleton.2 (heq.trans hsrc.symm))
    rw [List.mem_singleton.1 hp, hnew]
    exact hdir.trans (List.prefix_append dir [newName])

theorem passed_deleteDir (h : handleFilesDeleteDir lower fold s cwd src = .ok t) :
    Passed lower s cwd (.deleteDir src) t := by
  obtain ⟨hc, hr⟩ := handleFilesDeleteDir_ok h
  refine ⟨?_, fun p hp => ?_, fun _ => ⟨fun _ hp => absurd hp List.not_mem_nil, fun hroot => ?_⟩,
    fun _ _ _ hp => absurd hp List.not_mem_nil⟩
  · exact edited_removeAll (by rw [hc.source]; exact Option.some_ne_none _) hr
  · rw [List.mem_singleton.1 hp]
    exact hc.under
  · exact hc.notRoot (List.mem_singleton.1 hroot).symm

theorem passed_create {newPath : Path} (h : handleFilesCreate lower s cwd dir name = .ok (t, newPath)) :
    Passed lower s cwd (.create dir name) t := by
  obtain ⟨hc, hjoin, hr⟩ := handleFilesCreate_ok h
  have htargets : (Request.create dir name).targets = [newPath] := congrArg (fun p => [p]) hjoin
  refine ⟨?_, fun p hp => ?_, fun hin => ⟨fun p hp => ?_, nofun⟩, fun hin _ p hp => ?_⟩
  · rw [htargets]
    exact edited_create hr
  · rw [List.mem_singleton.1 hp]
    exact hc.under
  · rw [List.mem_singleton.1 hp]
    rw [htargets] at hin
    have hle := hin newPath (List.mem_append_right _ (List.mem_singleton_self newPath))
    rw [hc.newPath_eq] at hle
    refine above_of_concat hle fun heq => ?_
    -- The root is no longer than the directory.
    have hlen := length_le_of_isUnder hc.under
    rw [heq, List.length_append, List.length_singleton] at hlen
    omega
  · rw [htargets] at hp
    rw [List.mem_singleton.1 hp, hc.newPath_eq]
    exact (hin (clean dir) (List.mem_singleton_self _)).trans (List.prefix_append _ [name])

theorem checkDstDir_ok (h : checkDstDir lower s cwd dstDir = .ok dst) : dst = clean dstDir ∧
    s.get dst = some .dir ∧ isUnder lower dst (clean (findGitRoot s cwd)) = true := by
  unfold checkDstDir at h
  obtain ⟨-, h⟩ := of_check h
  obtain ⟨-, h⟩ := of_check h
  obtain ⟨hguard, h⟩ := of_check h
  split at h
  · cases h
  · rename_i node hstat
    obtain ⟨hdir, h⟩ := of_check h
    cases h
    exact ⟨rfl, (stat_ok.1 hstat).trans (congrArg some (not_not.1 hdir)), isUnder_of_guard hguard⟩

theorem passed_move (hdst : isUnder lower (clean dstDir) (clean (findGitRoot s cwd)) = true)
    (hne : (Request.move src dstDir srcs).sources ≠ [])
    (hplans : ∀ p ∈ (Request.move src dstDir srcs).sources,
      ∃ src' plan, Passes lower s cwd (clean dstDir) src' plan ∧ clean src' = p)
    (he : Edited s t (Request.move src dstDir srcs).sources (Request.move src dstDir srcs).targets) :
    Passed lower s cwd (.move src dstDir srcs) t := by
  have hdirOf : (∀ p ∈ (Request.move src dstDir srcs).sources ++ (Request.move src dstDir srcs).targets,
      clean (findGitRoot s cwd) <+: p) → clean (findGitRoot s cwd) <+: clean dstDir := fun hin => by
    obtain ⟨p, hp⟩ := List.exists_mem_of_ne_nil _ hne
    obtain ⟨src', plan, hplan, rfl⟩ := hplans p hp
    obtain ⟨n, hn⟩ := hplan.newPath_concat
    have htarget : plan.newPath ∈ (Request.move src dstDir srcs).targets :=
      hplan.newPath_eq ▸ List.mem_map_of_mem hp
    have hle := hin _ (List.mem_append_right _ htarget)
    rw [hn] at hle
    refine above_of_concat hle fun heq => ?_
    have hroot : s.get (clean (findGitRoot s cwd)) ≠ none :=
      get_above_ne_none (hplan.srcClean_eq ▸ hplan.source) (hin _ (List.mem_append_left _ hp))
    rw [heq, ← hn, hplan.target] at hroot
    exact hroot rfl
  refine ⟨he, fun p hp => ?_, fun hin => ⟨fun p hp => ?_, fun hroot => ?_⟩, fun hin _ p hp => ?_⟩
  · rcases List.mem_append.1 hp with hp | hp
    · obtain ⟨src', plan, hplan, rfl⟩ := hplans p hp
      exact hplan.under
    · exact List.mem_singleton.1 hp ▸ hdst
  · exact List.mem_singleton.1 hp ▸ hdirOf hin
  · obtain ⟨src', plan, hplan, heq⟩ := hplans _ hroot
    exact hplan.notAbove (hplan.srcClean_eq ▸ heq ▸ hdirOf hin)
  · obtain ⟨q, hq, rfl⟩ := List.mem_map.1 hp
    obtain ⟨src', plan, hplan, rfl⟩ := hplans q hq
    obtain ⟨n, hn⟩ := hplan.newPath_concat
    have hdir := hin (clean dstDir) (List.mem_append_right _ (List.mem_singleton_self _))
    have hpath : join (clean dstDir) (base (clean src')) = clean dstDir ++ [n] := hplan.newPath_eq ▸ hn
    show clean (findGitRoot s cwd) <+: join (clean dstDir) (base (clean src'))
    rw [hpath]
    exact hdir.trans (List.prefix_append _ [n])

theorem processSingleMove_ok (hdst : s.get (clean dstDir) = some .dir)
    (h : processSingleMove lower fold s src dstDir cwd (findGitRoot s cwd) = .ok (t, p)) :
    ∃ plan, Passes lower s cwd (clean dstDir) src plan ∧ s.rename plan.srcClean plan.newPath = .ok t := by
  unfold processSingleMove at h
  split at h
  · cases h
  · rename_i plan hplan
    split at h
    · cases h
    · cases h
    · rename_i t' hr
      cases h
      exact ⟨plan, planSingleMove_ok hdst hplan, rename_of_atomic hr⟩

theorem handleFilesMove_cases (lower fold : Char → Char) (s : Tree) (cwd src dstDir : List Char)
    (srcs : List (List Char)) :
    ((handleFilesMove lower fold s cwd src dstDir srcs).2.ok = false ∧
      (handleFilesMove lower fold s cwd src dstDir srcs).1 = s) ∨
    ((handleFilesMove lower fold s cwd src dstDir srcs).2.ok = true ∧
      Passed lower s cwd (.move src dstDir srcs) (handleFilesMove lower fold s cwd src dstDir srcs).1) := by
  unfold handleFilesMove
  cases hd : checkDstDir lower s cwd dstDir with
  | error refusal => exact .inl ⟨rfl, rfl⟩
  | ok dst =>
    obtain ⟨rfl, hdir, hunder⟩ := checkDstDir_ok hd
    by_cases hsrcs : srcs ≠ []
    · simp only [if_pos hsrcs, processMultiMove]
      have hsources : (Request.move src dstDir srcs).sources = srcs.map clean := if_pos hsrcs
      cases hok : (preflight lower fold s srcs (clean dstDir) cwd (findGitRoot s cwd)).allOK with
      | false => exact .inl ⟨rfl, rfl⟩
      | true =>
        obtain ⟨t, hrun, hedited, hplans⟩ := runMoves_preflight hdir hok
        rw [if_neg Bool.noConfusion, hrun]
        refine .inr ⟨rfl, passed_move hunder ?_ (fun p hp => ?_) ?_⟩
        · rw [hsources]
          exact fun hnil => hsrcs (List.map_eq_nil_iff.1 hnil)
        · rw [hsources] at hp
          obtain ⟨src', hsrc', rfl⟩ := List.mem_map.1 hp
          obtain ⟨plan, hplan⟩ := hplans src' hsrc'
          exact ⟨src', plan, hplan, rfl⟩
        · rw [Request.targets, hsources]
          exact hedited
    · have hsources : (Request.move src dstDir srcs).sources = [clean src] := if_neg hsrcs
      simp only [if_neg hsrcs]
      by_cases hsrc : src = []
      · rw [if_pos hsrc]
        exact .inl ⟨rfl, rfl⟩
      · rw [if_neg hsrc]
        cases hp : processSingleMove lower fold s src dstDir cwd (findGitRoot s cwd) with
        | error msg => exact .inl ⟨rfl, rfl⟩
        | ok result =>
          obtain ⟨t, newPath⟩ := result
          obtain ⟨plan, hplan, hr⟩ := processSingleMove_ok hdir hp
          refine .inr ⟨rfl, passed_move hunder ?_ (fun p hp => ?_) ?_⟩
          · rw [hsources]
            exact List.cons_ne_nil _ _
          · rw [hsources] at hp
            exact ⟨src, plan, hplan, (List.mem_singleton.1 hp).symm⟩
          · rw [Request.targets, hsources, List.map_singleton, ← hplan.newPath_eq, ← hplan.srcClean_eq]
            exact edited_rename hr hplan.target

/-- A request is refused and nothing changes, or it passes. -/
theorem handle_cases (lower fold : Char → Char) (s : Tree) (cwd : List Char) (req : Request) :
    ((handle lower fold s cwd req).2.ok = false ∧ (handle lower fold s cwd req).1 = s) ∨
    ((handle lower fold s cwd req).2.ok = true ∧ Passed lower s cwd req (handle lower fold s cwd req).1) := by
  cases req with
  | rename src newName =>
    simp only [handle]
    cases h : handleFilesRename lower s cwd src newName with
    | error refusal => exact .inl ⟨rfl, rfl⟩
    | ok result => exact .inr ⟨rfl, passed_rename h⟩
  | deleteDir src =>
    simp only [handle]
    cases h : handleFilesDeleteDir lower fold s cwd src with
    | error refusal => exact .inl ⟨rfl, rfl⟩
    | ok t => exact .inr ⟨rfl, passed_deleteDir h⟩
  | move src dstDir srcs => exact handleFilesMove_cases lower fold s cwd src dstDir srcs
  | create dir name =>
    simp only [handle]
    cases h : handleFilesCreate lower s cwd dir name with
    | error refusal => exact .inl ⟨rfl, rfl⟩
    | ok result => exact .inr ⟨rfl, passed_create h⟩

/-! ### The roots -/

/-- No source is the git root or the session's directory or above it, and what the guard finds below the
git root is so without regard to case. -/
structure Spares (lower : Char → Char) (s : Tree) (cwd : List Char) (req : Request) : Prop where
  cased : ∀ p ∈ req.sources ++ req.dirs, isUnder lower p (clean (findGitRoot s cwd)) = true →
    clean (findGitRoot s cwd) <+: p
  notRoot : clean (findGitRoot s cwd) ∉ req.sources
  notAbove : s.get (clean cwd) = some .dir → ∀ g ∈ req.sources, ¬ g <+: clean cwd

/-- A request that passes changes nothing outside of the session's directory and the git root,
replaces nothing and keeps these two, exactly if it spares them. -/
theorem confined_iff_spares {req : Request} {resp : Resp} (h : handle lower fold s cwd req = (t, resp))
    (hok : resp.ok = true) :
    Confined s t [clean cwd, clean (findGitRoot s cwd)] ↔ Spares lower s cwd req := by
  have hpassed : Passed lower s cwd req t := by
    rcases handle_cases lower fold s cwd req with ⟨hrefused, -⟩ | ⟨-, hpassed⟩
    · rw [h, hok] at hrefused
      cases hrefused
    · rwa [h] at hpassed
  have hroot : clean (findGitRoot s cwd) <+: clean cwd := findGitRoot_above s cwd
  have hin : ∀ p, (∃ r ∈ [clean cwd, clean (findGitRoot s cwd)], r <+: p) ↔ clean (findGitRoot s cwd) <+: p := by
    intro p
    constructor
    · rintro ⟨r, hr, hrp⟩
      rcases List.mem_cons.1 hr with rfl | hr
      · exact hroot.trans hrp
      · exact List.mem_singleton.1 hr ▸ hrp
    · exact fun hp => ⟨_, List.mem_cons_of_mem _ (List.mem_singleton_self _), hp⟩
  rw [hpassed.edited.confined_iff]
  simp only [hin]
  constructor
  · rintro ⟨hinside, hkept⟩
    obtain ⟨hdirs, hnot⟩ := hpassed.inside hinside
    refine ⟨fun p hp _ => ?_, hnot, hkept _ (List.mem_cons_self ..)⟩
    rcases List.mem_append.1 hp with hp | hp
    · exact hinside p (List.mem_append_left _ hp)
    · exact hdirs p hp
  · intro hs
    have hcased : ∀ p ∈ req.sources ++ req.dirs, clean (findGitRoot s cwd) <+: p := fun p hp =>
      hs.cased p hp (hpassed.under p hp)
    refine ⟨fun p hp => ?_, fun r hr hdir g hg hgr => ?_⟩
    · rcases List.mem_append.1 hp with hp | hp
      · exact hcased p (List.mem_append_left _ hp)
      · exact hpassed.targets hcased hs.notRoot p hp
    · rcases List.mem_cons.1 hr with rfl | hr
      · exact hs.notAbove hdir g hg hgr
      · obtain rfl := List.mem_singleton.1 hr
        have heq : g = clean (findGitRoot s cwd) :=
          hgr.eq_of_length (Nat.le_antisymm hgr.length_le (hcased g (List.mem_append_left _ hg)).length_le)
        exact hs.notRoot (heq ▸ hg)

/-- A directory with two more in it. -/
def listed : Tree :=
  .ofEntries [(["r".toList], .dir), (["r".toList, "a".toList], .dir), (["r".toList, "b".toList], .dir)] (by decide)
    (by decide)

/-- One of the two moves into the other. -/
theorem confined_of_move : Confined listed
    (handle Char.toLower Char.toLower listed "/r".toList (.move [] "/r/b".toList ["/r/a".toList])).1
    [clean "/r".toList, clean (findGitRoot listed "/r".toList)] := by
  have hok : (handle Char.toLower Char.toLower listed "/r".toList (.move [] "/r/b".toList ["/r/a".toList])).2.ok =
      true := by decide
  have hspares : Spares Char.toLower listed "/r".toList (.move [] "/r/b".toList ["/r/a".toList]) :=
    ⟨by decide, by decide, fun _ => by decide⟩
  exact (confined_iff_spares (Prod.eta _).symm hok).2 hspares

/-- The session's directory, which is the git root here, is renamed. -/
theorem cwd_not_kept :
    (handle Char.toLower Char.toLower listed "/r".toList (.rename "/r".toList "q".toList)).2.ok = true ∧
      ¬ Confined listed (handle Char.toLower Char.toLower listed "/r".toList (.rename "/r".toList "q".toList)).1
        [clean "/r".toList, clean (findGitRoot listed "/r".toList)] := by
  refine ⟨by decide, fun h => ?_⟩
  have hkept := h.kept (clean "/r".toList) (List.mem_cons_self ..) (by decide)
  exact absurd hkept (by decide)

end ManyAiCli.Hub.FileHandlers
