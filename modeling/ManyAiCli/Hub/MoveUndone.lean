import ManyAiCli.Hub.LinkedMove

/-! A move of many files is all or nothing as long as no rename takes away a place on the way to
the destination, or, if another comes after it, on the way to its own source. -/

namespace ManyAiCli.Hub.LinkedMove

open Files FileHandlers PathGuard

variable {lower fold : Char → Char} {fs t : FileSystem} {dst dir p q w : Path} {src cwd gitRoot : List Char}
  {srcs : List (List Char)} {plan : FileMovePlan} {plans completed : List FileMovePlan}

/-- Where a source is. -/
def placeOf (fs : FileSystem) (p : Path) : Path :=
  match fs.locate p with
  | .ok loc => loc
  | .error _ => []

/-- From where it is to where it is to be. -/
def moveOf (fs : FileSystem) (dir p : Path) : FileSystem.Move := ⟨placeOf fs p, dir ++ [base p]⟩

/-- Each source is now in the directory, under the path of the answer, and nothing else is changed
or overwritten. -/
structure AllMoved (fs t : FileSystem) (dst dir : Path) (paths : List Path) : Prop where
  relocated : fs.Relocated t (paths.map (moveOf fs dir))
  found : ∀ p ∈ paths, fs.get (placeOf fs p) ≠ none ∧ fs.get (dir ++ [base p]) = none ∧
    t.locate (join dst (base p)) = .ok (dir ++ [base p])

/-- The answer is OK and all is moved, or it is not and nothing is changed. -/
def AllOrNothing (fs : FileSystem) (dst dir : Path) (paths : List Path) (out : FileSystem × Resp) : Prop :=
  (out.2.ok = true ∧ AllMoved fs out.1 dst dir paths) ∨ (out.2.ok = false ∧ out.1 = fs)

/-! ### The condition -/

/-- The source is not above a place on the way to the directory. -/
def Spares (fs : FileSystem) (p q : Path) : Prop := ∀ w ∈ fs.lookups q, ¬ placeOf fs p <+: w

/-- After the sources before it, a source can be moved. -/
def Movable (fs : FileSystem) (dir : Path) (before : List Path) (p : Path) : Prop :=
  ¬ placeOf fs p <+: dir ∧ ∀ q ∈ before, Spares fs q p.dropLast

/-- Of the sources up to the first that cannot be moved, each spares the way to the destination, and
its own if it is not the last. -/
def Undisturbed (fs : FileSystem) (dst dir : Path) : List Path → List Path → Prop
  | _, [] => True
  | before, p :: rest => Movable fs dir before p →
    Spares fs p dst ∧ (rest ≠ [] → Spares fs p p.dropLast) ∧ Undisturbed fs dst dir (before ++ [p]) rest

instance (fs : FileSystem) (p q : Path) : Decidable (Spares fs p q) :=
  inferInstanceAs (Decidable (∀ w ∈ fs.lookups q, ¬ placeOf fs p <+: w))

instance (fs : FileSystem) (dir : Path) (before : List Path) (p : Path) : Decidable (Movable fs dir before p) :=
  inferInstanceAs (Decidable (¬ placeOf fs p <+: dir ∧ ∀ q ∈ before, Spares fs q p.dropLast))

instance decidableUndisturbed (fs : FileSystem) (dst dir : Path) :
    ∀ before rest, Decidable (Undisturbed fs dst dir before rest)
  | _, [] => isTrue trivial
  | before, p :: rest =>
    haveI := decidableUndisturbed fs dst dir (before ++ [p]) rest
    inferInstanceAs (Decidable (Movable fs dir before p →
      Spares fs p dst ∧ (rest ≠ [] → Spares fs p p.dropLast) ∧ Undisturbed fs dst dir (before ++ [p]) rest))

/-! ### The checks -/

/-- What holds of a plan that has passed. -/
structure Ready (fs : FileSystem) (dst dir : Path) (plan : FileMovePlan) : Prop where
  named : plan.srcClean ≠ []
  located : fs.locate plan.srcClean = .ok (placeOf fs plan.srcClean)
  there : fs.get (placeOf fs plan.srcClean) ≠ none
  newPath_join : plan.newPath = join dst (base plan.srcClean)
  newPath : plan.newPath = dst ++ [base plan.srcClean]
  free : fs.get (dir ++ [base plan.srcClean]) = none

theorem placeOf_eq (h : fs.locate p = .ok q) : placeOf fs p = q := by
  rw [placeOf, h]

theorem planSingleMove_ok (hdst : fs.locateDir dst = .ok dir)
    (h : planSingleMove lower fold fs src dst cwd gitRoot = .ok plan) :
    plan.srcClean = clean src ∧ Ready fs dst dir plan := by
  unfold planSingleMove at h
  obtain ⟨-, h⟩ := of_check h
  obtain ⟨-, h⟩ := of_check h
  obtain ⟨-, h⟩ := of_check h
  dsimp only at h
  cases hstat : fs.lstat (clean src) with
  | error e =>
    rw [hstat] at h
    cases h
  | ok node =>
    rw [hstat] at h
    dsimp only at h
    obtain ⟨-, h⟩ := of_check h
    obtain ⟨hself, h⟩ := of_check h
    obtain ⟨loc, hloc⟩ : ∃ loc, fs.locate (clean src) = .ok loc := by
      rw [FileSystem.lstat] at hstat
      cases hl : fs.locate (clean src) with
      | error e =>
        rw [hl] at hstat
        cases hstat
      | ok loc => exact ⟨loc, rfl⟩
    have hthere : fs.get loc ≠ none := by
      rw [← FileSystem.lstat_isOk hloc, hstat]
      rfl
    -- The root is above every destination.
    have hne : clean src ≠ [] := fun hnil => by
      rw [hnil] at hstat hself
      have hdir : node = .dir := by
        have hroot : fs.lstat [] = .ok .dir := by
          rw [FileSystem.lstat, FileSystem.locate, if_pos rfl]
          dsimp only
          rw [fs.root]
        rw [hroot] at hstat
        cases hstat
        rfl
      refine hself ⟨hdir, ?_⟩
      rw [isUnder_of_above List.nil_prefix, Bool.or_true]
    obtain ⟨pre, n, hsrc⟩ := (List.eq_nil_or_concat' (clean src)).resolve_left hne
    have hn : n ∈ clean src := hsrc ▸ List.mem_append_right pre (List.mem_singleton_self n)
    have hbase : base (clean src) = n := by
      rw [hsrc, base, List.getLast?_concat]
      rfl
    have hnew : join dst (base (clean src)) = dst ++ [n] := by
      rw [hbase, join_entry (isEntry_of_mem_clean n hn) (no_slash_of_mem_clean hn)]
    have hat : fs.locate (dst ++ [n]) = .ok (dir ++ [n]) := FileSystem.locate_concat_ok.2 ⟨dir, hdst, rfl⟩
    cases hstat' : fs.lstat (join dst (base (clean src))) with
    | ok node' =>
      rw [hstat'] at h
      cases h
    | error e =>
      have hfree : fs.get (dir ++ [n]) = none := by
        rw [hnew] at hstat'
        exact FileSystem.lstat_error hat hstat'
      rw [hstat'] at h
      split at h
      · cases h
      · cases h
        rw [hbase] at hnew
        refine ⟨rfl, hne, ?_, ?_, rfl, ?_, ?_⟩
        · rw [placeOf_eq hloc]
          exact hloc
        · rw [placeOf_eq hloc]
          exact hthere
        · rw [hbase, hnew]
        · rw [hbase]
          exact hfree
      · cases h

/-- The plans of a move that has passed the preflight. -/
structure Checked (fs : FileSystem) (dst dir : Path) (plans : List FileMovePlan) : Prop where
  dstDir : fs.locateDir dst = .ok dir
  ready : ∀ plan ∈ plans, Ready fs dst dir plan
  targets : (plans.map (·.newPath)).Nodup

theorem preflight_ok (hdst : fs.locateDir dst = .ok dir)
    (h : (preflight lower fold fs srcs dst cwd gitRoot).allOK = true) :
    ∃ plans, (preflight lower fold fs srcs dst cwd gitRoot).plans = plans.map some ∧ Checked fs dst dir plans ∧
      plans.map (·.srcClean) = srcs.map clean := by
  unfold preflight at h ⊢
  obtain ⟨heq, -⟩ := foldl_preflightPair_ok h
  rw [heq] at h ⊢
  have hempty : Gathered {} [] := ⟨rfl, rfl, rfl, List.nodup_nil, List.nodup_nil⟩
  obtain ⟨plans, hplans, hg⟩ := (foldl_gatherPlan_ok h).2 [] hempty
  rw [List.nil_append] at hg
  have hready : List.Forall₂ (fun src plan => plan.srcClean = clean src ∧ Ready fs dst dir plan) srcs plans :=
    hplans.imp fun _ _ hp => planSingleMove_ok hdst hp
  refine ⟨plans, hg.plans_eq, ⟨hdst, fun plan hplan => ?_, hg.targets⟩, map_eq_of_forall₂ hready fun _ _ hp => hp.1⟩
  obtain ⟨i, hi, rfl⟩ := List.getElem_of_mem hplan
  exact (hready.get (hready.length_eq ▸ hi) hi).2

/-! ### The batch -/

/-- Of a plan. -/
abbrev planned (fs : FileSystem) (dir : Path) (plan : FileMovePlan) : FileSystem.Move := moveOf fs dir
  plan.srcClean

theorem Checked.plan_eq (hc : Checked fs dst dir plans) {plan' : FileMovePlan} (h : plan ∈ plans)
    (h' : plan' ∈ plans) (heq : base plan.srcClean = base plan'.srcClean) : plan = plan' := by
  refine List.inj_on_of_nodup_map hc.targets h h' ?_
  rw [(hc.ready plan h).newPath, (hc.ready plan' h').newPath, heq]

theorem Checked.batch (hc : Checked fs dst dir plans) : fs.Batch dir (plans.map (planned fs dir)) where
  source := List.forall_mem_map.2 fun plan h => (hc.ready plan h).there
  target := List.forall_mem_map.2 fun plan _ => ⟨base plan.srcClean, rfl⟩
  free := List.forall_mem_map.2 fun plan h => (hc.ready plan h).free
  distinct := List.forall_mem_map.2 fun plan h => List.forall_mem_map.2 fun plan' h' heq => by
    rw [hc.plan_eq h h' (List.singleton_inj.1 (List.append_cancel_left heq))]

theorem Checked.batch_completed (hc : Checked fs dst dir (completed ++ plans)) :
    fs.Batch dir (completed.map (planned fs dir)) := by
  have hb := hc.batch
  rw [List.map_append] at hb
  exact hb.of_append

/-- What was there is gone, if it was at or below a source that has been moved. -/
theorem get_of_ran (hc : Checked fs dst dir (completed ++ plans))
    (hran : fs.Ran (completed.map (planned fs dir)) t)
    (hp : fs.get p ≠ none) :
    t.get p = if ∃ c ∈ completed, placeOf fs c.srcClean <+: p then none else fs.get p := by
  rw [(hran.relocated hc.batch_completed).get_of_ne_none hc.batch_completed hp]
  refine if_congr ?_ rfl rfl
  simp only [List.mem_map, exists_exists_and_eq_and, planned, moveOf]

theorem lookups_of_ran (hc : Checked fs dst dir (completed ++ plans))
    (hran : fs.Ran (completed.map (planned fs dir)) t)
    (hq : fs.locateDir q = .ok p) :
    (∀ w ∈ fs.lookups q, t.get w = fs.get w) ↔ ∀ c ∈ completed, Spares fs c.srcClean q := by
  have hthere := (FileSystem.locateDir_ok hq).2
  constructor
  · intro hway c hcm w hw hle
    have hget := get_of_ran hc hran (hthere w hw)
    rw [if_pos ⟨c, hcm, hle⟩, hway w hw] at hget
    exact hthere w hw hget
  · intro hspare w hw
    rw [get_of_ran hc hran (hthere w hw), if_neg]
    rintro ⟨c, hcm, hle⟩
    exact hspare c hcm w hw hle

/-- A path leads where it did if all that have been moved spare it, and nowhere else. -/
theorem locateDir_of_ran (hc : Checked fs dst dir (completed ++ plans))
    (hran : fs.Ran (completed.map (planned fs dir)) t) (hq : fs.locateDir q = .ok p) :
    (∃ loc, t.locateDir q = .ok loc) ↔ ∀ c ∈ completed, Spares fs c.srcClean q := by
  rw [← lookups_of_ran hc hran hq]
  constructor
  · refine FileSystem.locateDir_kept (fun r hr => ?_) hq
    rw [get_of_ran hc hran hr]
    split_ifs
    · exact .inl rfl
    · exact .inr rfl
  · intro hway
    rw [FileSystem.locateDir_congr hway, hq]
    exact ⟨p, rfl⟩

/-! ### The renames -/

theorem Ready.parent (h : Ready fs dst dir plan) : ∃ loc, fs.locateDir plan.srcClean.dropLast = .ok loc ∧
    placeOf fs plan.srcClean = loc ++ [base plan.srcClean] :=
  (FileSystem.locate_ok_iff h.named).1 h.located

theorem Ready.newPath_located (h : Ready fs dst dir plan) (hdst : t.locateDir dst = .ok dir) :
    t.locate plan.newPath = .ok (dir ++ [base plan.srcClean]) := by
  rw [h.newPath]
  exact FileSystem.locate_concat_ok.2 ⟨dir, hdst, rfl⟩

theorem dstDir_of_ran (hc : Checked fs dst dir (completed ++ plans))
    (hran : fs.Ran (completed.map (planned fs dir)) t) (hdst : ∀ c ∈ completed, Spares fs c.srcClean dst) :
    t.locateDir dst = .ok dir := by
  rw [FileSystem.locateDir_congr ((lookups_of_ran hc hran hc.dstDir).2 hdst)]
  exact hc.dstDir

theorem located_of_ran (hc : Checked fs dst dir (completed ++ plans))
    (hran : fs.Ran (completed.map (planned fs dir)) t) (hplan : plan ∈ completed ++ plans)
    (hspare : ∀ c ∈ completed, Spares fs c.srcClean plan.srcClean.dropLast) :
    t.locate plan.srcClean = .ok (placeOf fs plan.srcClean) := by
  obtain ⟨loc, hloc, -⟩ := (hc.ready plan hplan).parent
  rw [FileSystem.locate_congr ((lookups_of_ran hc hran hloc).2 hspare)]
  exact (hc.ready plan hplan).located

theorem spares_of_located (hc : Checked fs dst dir (completed ++ plans))
    (hran : fs.Ran (completed.map (planned fs dir)) t) (hplan : plan ∈ completed ++ plans)
    (h : t.locate plan.srcClean = .ok p) : ∀ c ∈ completed, Spares fs c.srcClean plan.srcClean.dropLast := by
  obtain ⟨loc, hloc, -⟩ := (hc.ready plan hplan).parent
  obtain ⟨loc', hloc', -⟩ := (FileSystem.locate_ok_iff (hc.ready plan hplan).named).1 h
  exact (locateDir_of_ran hc hran hloc).1 ⟨loc', hloc'⟩

theorem spares_dst_of_located (hc : Checked fs dst dir (completed ++ plans))
    (hran : fs.Ran (completed.map (planned fs dir)) t) (hplan : plan ∈ completed ++ plans)
    (h : t.locate plan.newPath = .ok p) : ∀ c ∈ completed, Spares fs c.srcClean dst := by
  rw [(hc.ready plan hplan).newPath] at h
  obtain ⟨loc', hloc', -⟩ := FileSystem.locate_concat_ok.1 h
  exact (locateDir_of_ran hc hran hc.dstDir).1 ⟨loc', hloc'⟩

/-- A rename that is made was of a source that could be moved. -/
theorem ran_of_ok {t' : FileSystem} (hc : Checked fs dst dir (completed ++ plan :: plans))
    (hran : fs.Ran (completed.map (planned fs dir)) t)
    (h : t.atomicRenameNoReplace plan.srcClean plan.newPath = .ok t') :
    Movable fs dir (completed.map (·.srcClean)) plan.srcClean ∧
      (∀ c ∈ completed, Spares fs c.srcClean dst) ∧ fs.Ran ((completed ++ [plan]).map (planned fs dir)) t' := by
  have hmem : plan ∈ completed ++ plan :: plans := List.mem_append_right _ (List.mem_cons_self ..)
  obtain ⟨srcLoc, dstLoc, hsrc, hnew, hfree, hr, rfl⟩ := FileSystem.atomicRenameNoReplace_ok h
  have hspare := spares_of_located hc hran hmem hsrc
  have hspareDst := spares_dst_of_located hc hran hmem hnew
  rw [located_of_ran hc hran hmem hspare] at hsrc
  rw [(hc.ready plan hmem).newPath_located (dstDir_of_ran hc hran hspareDst)] at hnew
  cases hsrc
  cases hnew
  refine ⟨⟨?_, List.forall_mem_map.2 hspare⟩, hspareDst, ?_⟩
  · exact not_prefix_concat (hr.not_above hfree)
  · rw [List.map_append]
    exact hran.snoc hfree hr

/-- A source that can be moved is, unless the rename is refused. -/
theorem ok_of_movable (hc : Checked fs dst dir (completed ++ plan :: plans))
    (hran : fs.Ran (completed.map (planned fs dir)) t) (hdst : ∀ c ∈ completed, Spares fs c.srcClean dst)
    (hmov : Movable fs dir (completed.map (·.srcClean)) plan.srcClean) :
    ∃ t', t.atomicRenameNoReplace plan.srcClean plan.newPath = .ok t' := by
  have hmem : plan ∈ completed ++ plan :: plans := List.mem_append_right _ (List.mem_cons_self ..)
  have hready := hc.ready plan hmem
  have hspare := List.forall_mem_map.1 hmov.2
  have hnot : plan ∉ completed := fun hin => by
    have hnodup := hc.targets
    rw [List.map_append, List.nodup_append] at hnodup
    exact hnodup.2.2 _ (List.mem_map_of_mem hin) _ (List.mem_map_of_mem (List.mem_cons_self ..)) rfl
  have hother : ∀ c ∈ completed, base c.srcClean ≠ base plan.srcClean := fun c hcm heq =>
    hnot (hc.plan_eq (List.mem_append_left _ hcm) hmem heq ▸ hcm)
  have hdir := dstDir_of_ran hc hran hdst
  have hsrc := located_of_ran hc hran hmem hspare
  have hnew := hready.newPath_located hdir
  obtain ⟨loc, hloc, hplace⟩ := hready.parent
  -- What is left in the way of the source, now that its directory is there, would be the source itself.
  have hsource : t.get (placeOf fs plan.srcClean) ≠ none := by
    rw [get_of_ran hc hran hready.there, if_neg]
    · exact hready.there
    · rintro ⟨c, hcm, hle⟩
      obtain ⟨loc', -, hplace'⟩ := (hc.ready c (List.mem_append_left _ hcm)).parent
      rw [hplace, List.prefix_concat_iff] at hle
      rcases hle with heq | hle
      · rw [hplace'] at heq
        exact hother c hcm (List.singleton_inj.1 (List.append_inj' heq rfl).2)
      · have hthere := (FileSystem.locateDir_ok hloc).1
        have hnow : t.locateDir plan.srcClean.dropLast = .ok loc := by
          rw [FileSystem.locateDir_congr ((lookups_of_ran hc hran hloc).2 hspare), hloc]
        have hget := get_of_ran hc hran (p := loc) (by rw [hthere]; exact Option.some_ne_none _)
        rw [if_pos ⟨c, hcm, hle⟩, (FileSystem.locateDir_ok hnow).1] at hget
        cases hget
  have hfree : t.get (dir ++ [base plan.srcClean]) = none := by
    rw [(hran.relocated hc.batch_completed).away, hready.free, ite_self]
    refine List.forall_mem_map.2 fun c hcm hle => hother c hcm ?_
    have hlen := hle.eq_of_length (by simp only [moveOf, List.length_append, List.length_singleton])
    exact List.singleton_inj.1 (List.append_cancel_left hlen)
  have hr : t.Renames (placeOf fs plan.srcClean) (dir ++ [base plan.srcClean]) := by
    refine ⟨hsource, ?_, ?_, ?_, fun _ => hfree, ?_, fun hle => ?_⟩
    · rw [hplace]
      exact List.append_ne_nil_of_right_ne_nil loc (List.cons_ne_nil _ _)
    · exact List.append_ne_nil_of_right_ne_nil dir (List.cons_ne_nil _ _)
    · rw [hfree]
      exact (Option.some_ne_none _).symm
    · rw [List.dropLast_concat]
      exact (FileSystem.locateDir_ok hdir).1
    · exact (List.prefix_concat_iff.1 hle).resolve_right hmov.1
  exact ⟨_, FileSystem.atomicRenameNoReplace_of_renames hsrc hnew hfree hr⟩

/-! ### The rollback -/

/-- The paths of the plan lead back: those that are moved spare the destination, and each spares, as do
those before it, the way to its own source. -/
structure Restorable (fs : FileSystem) (dst : Path) (completed : List FileMovePlan) : Prop where
  target : ∀ c ∈ completed, Spares fs c.srcClean dst
  source : ∀ pre plan, pre ++ [plan] <+: completed → ∀ c ∈ pre ++ [plan], Spares fs c.srcClean
    plan.srcClean.dropLast

theorem restorable_nil : Restorable fs dst [] where
  target := nofun
  source pre plan h := absurd (List.prefix_nil.1 h)
    (List.append_ne_nil_of_right_ne_nil pre (List.cons_ne_nil plan []))

theorem Restorable.concat (h : Restorable fs dst completed) (hdst : Spares fs plan.srcClean dst)
    (hsrc : ∀ c ∈ completed ++ [plan], Spares fs c.srcClean plan.srcClean.dropLast) :
    Restorable fs dst (completed ++ [plan]) := by
  refine ⟨?_, fun pre p hle => ?_⟩
  · rw [List.forall_mem_append, List.forall_mem_singleton]
    exact ⟨h.target, hdst⟩
  · rcases List.prefix_concat_iff.1 hle with heq | hle
    · obtain ⟨rfl, hp⟩ := List.append_inj' heq rfl
      obtain rfl := List.singleton_inj.1 hp
      exact hsrc
    · exact h.source pre p hle

theorem Restorable.of_concat (h : Restorable fs dst (completed ++ [plan])) : Restorable fs dst completed where
  target c hc := h.target c (List.mem_append_left _ hc)
  source pre p hle := h.source pre p (hle.trans (List.prefix_append completed [plan]))

theorem rollbackMoves_concat (t : FileSystem) (completed : List FileMovePlan) (plan : FileMovePlan) :
    rollbackMoves t (completed ++ [plan]) = completed.reverse.foldl rollbackOne (rollbackOne (t, []) plan) := by
  rw [rollbackMoves, List.reverse_append, List.reverse_singleton, List.singleton_append, List.foldl_cons]

/-- The rollback gives the tree before the first rename. -/
theorem rollbackMoves_eq (hc : Checked fs dst dir (completed ++ plans))
    (hran : fs.Ran (completed.map (planned fs dir)) t) (h : Restorable fs dst completed) :
    rollbackMoves t completed = (fs, []) := by
  induction completed using List.reverseRecOn generalizing t plans with
  | nil =>
    obtain rfl := hran.eq_of_nil
    rfl
  | append_singleton completed plan ih =>
    have hmem : plan ∈ (completed ++ [plan]) ++ plans :=
      List.mem_append_left _ (List.mem_append_right _ (List.mem_singleton_self plan))
    have hnew := (hc.ready plan hmem).newPath_located (dstDir_of_ran hc hran h.target)
    have hsrc := located_of_ran hc hran hmem (h.source completed plan (List.prefix_refl _))
    rw [List.map_append] at hran
    obtain ⟨s, hs, hfree, hr, rfl⟩ := hran.last
    have hback := hr.back hfree
    have hone : rollbackOne (s.move _ _ hr, []) plan = (s, []) := by
      have hne : dir ++ [base plan.srcClean] ≠ placeOf fs plan.srcClean := fun heq =>
        hr.source (show s.get (placeOf fs plan.srcClean) = none from heq ▸ hfree)
      rw [rollbackOne]
      dsimp only
      rw [FileSystem.rename_of_renames hnew hsrc hne hback]
      exact congrArg (fun u => (u, [])) (FileSystem.move_back hr hfree hback)
    rw [rollbackMoves_concat, hone]
    rw [List.append_assoc] at hc
    exact ih hc hs h.of_concat

/-- What the rollback makes of a tree where the last rename cannot be undone. -/
theorem rollbackOne_kept {ms : List FileMovePlan} (errs : List (List Char)) (hc : Checked fs dst dir ms)
    (hscat : fs.Scattered t (ms.map (planned fs dir))) (hplan : plan ∈ ms) {c : FileMovePlan} (hcm : c ∈ ms)
    (hne : c ≠ plan) (hdir : ¬ placeOf fs c.srcClean <+: dir) :
    fs.Scattered (rollbackOne (t, errs) c).1 (ms.map (planned fs dir)) ∧
      (rollbackOne (t, errs) c).1.get (dir ++ [base plan.srcClean]) = t.get (dir ++ [base plan.srcClean]) := by
  have hweak : ∀ q, fs.get q ≠ none → t.get q = none ∨ t.get q = fs.get q := fun q hq =>
    hscat.get_of_ne_none hc.batch hq
  have hready := hc.ready c hcm
  rw [rollbackOne]
  dsimp only
  cases hren : t.rename c.newPath c.srcClean with
  | error e => exact ⟨hscat, rfl⟩
  | ok t' =>
    dsimp only
    obtain ⟨newLoc, srcLoc, hnew, hsrc, hcases⟩ := FileSystem.rename_ok hren
    rcases hcases with ⟨rfl, -, -⟩ | ⟨hr, rfl⟩
    · exact ⟨hscat, rfl⟩
    · -- The two paths lead where they did.
      have hdst : t.locateDir dst = .ok dir := by
        rw [hready.newPath] at hnew
        obtain ⟨loc', hloc', -⟩ := FileSystem.locate_concat_ok.1 hnew
        rw [FileSystem.locateDir_congr (FileSystem.locateDir_kept hweak hc.dstDir ⟨loc', hloc'⟩)]
        exact hc.dstDir
      have hplace : t.locate c.srcClean = .ok (placeOf fs c.srcClean) := by
        obtain ⟨loc, hloc, -⟩ := hready.parent
        obtain ⟨loc', hloc', -⟩ := (FileSystem.locate_ok_iff hready.named).1 hsrc
        rw [FileSystem.locate_congr (FileSystem.locateDir_kept hweak hloc ⟨loc', hloc'⟩)]
        exact hready.located
      rw [hready.newPath_located hdst] at hnew
      rw [hplace] at hsrc
      cases hnew
      cases hsrc
      have hin : planned fs dir c ∈ ms.map (planned fs dir) := List.mem_map_of_mem hcm
      have hin' : planned fs dir plan ∈ ms.map (planned fs dir) := List.mem_map_of_mem hplan
      refine ⟨hscat.moveBack hc.batch hin hdir hr, ?_⟩
      refine hc.batch.target_kept hin' hin hdir (fun heq => hne ?_) hr
      have htarget := congrArg FileSystem.Move.target heq
      exact (hc.plan_eq hplan hcm (List.singleton_inj.1 (List.append_cancel_left htarget))).symm

theorem foldl_rollbackOne_kept {ms cs : List FileMovePlan} {state : FileSystem × List (List Char)}
    (hc : Checked fs dst dir ms) (hscat : fs.Scattered state.1 (ms.map (planned fs dir))) (hplan : plan ∈ ms)
    (hcs : ∀ c ∈ cs, c ∈ ms ∧ c ≠ plan ∧ ¬ placeOf fs c.srcClean <+: dir) :
    (cs.foldl rollbackOne state).1.get (dir ++ [base plan.srcClean]) = state.1.get
      (dir ++ [base plan.srcClean]) := by
  induction cs generalizing state with
  | nil => rfl
  | cons c cs ih =>
    rw [List.forall_mem_cons] at hcs
    obtain ⟨⟨hcm, hne, hdir⟩, hrest⟩ := hcs
    obtain ⟨hscat', hget⟩ := rollbackOne_kept state.2 hc hscat hplan hcm hne hdir
    rw [List.foldl_cons, ih hscat' hrest]
    exact hget

/-! ### The run -/

/-- As `AllOrNothing`, of the renames. -/
structure Sound (fs : FileSystem) (dst dir : Path) (paths : List Path)
    (out : FileSystem × Option (ℕ × List Char × List (List Char))) : Prop where
  moved : out.2 = none → AllMoved fs out.1 dst dir paths
  undone : out.2 ≠ none → out.1 = fs

variable {refused : Option (ℕ × SysError)} {i : ℕ}

theorem attempt_ok (h : attempt refused i fs plan = .ok t) :
    fs.atomicRenameNoReplace plan.srcClean plan.newPath = .ok t := by
  unfold attempt at h
  split at h
  · obtain ⟨-, h⟩ := of_check h
    exact h
  · exact h

theorem attempt_eq (h : ∀ k e, refused = some (k, e) → k ≠ i) :
    attempt refused i fs plan = fs.atomicRenameNoReplace plan.srcClean plan.newPath := by
  unfold attempt
  split
  · exact if_neg (h _ _ rfl)
  · rfl

theorem runMoves_ok {t' : FileSystem} (h : attempt refused completed.length t plan = .ok t') :
    runMoves refused completed t (plan :: plans) = runMoves refused (completed ++ [plan]) t' plans := by
  rw [runMoves, h]

theorem runMoves_error {e : SysError} (h : attempt refused completed.length t plan = .error e)
    (plans : List FileMovePlan) :
    (runMoves refused completed t (plan :: plans)).1 = (rollbackMoves t completed).1 ∧
      (runMoves refused completed t (plan :: plans)).2 ≠ none := by
  rw [runMoves, h]
  exact ⟨rfl, nofun⟩

theorem allMoved_of_ran (hc : Checked fs dst dir plans) (hran : fs.Ran (plans.map (planned fs dir)) t)
    (hdst : ∀ c ∈ plans, Spares fs c.srcClean dst) : AllMoved fs t dst dir (plans.map (·.srcClean)) := by
  have hc' : Checked fs dst dir (plans ++ []) := by rwa [List.append_nil]
  refine ⟨?_, List.forall_mem_map.2 fun plan hplan => ?_⟩
  · rw [List.map_map]
    exact hran.relocated hc.batch
  · have hready := hc.ready plan hplan
    rw [← hready.newPath_join]
    exact ⟨hready.there, hready.free, hready.newPath_located (dstDir_of_ran hc' hran hdst)⟩

/-- Undisturbed moves are all made or all undone. -/
theorem sound_runMoves (hc : Checked fs dst dir (completed ++ plans))
    (hran : fs.Ran (completed.map (planned fs dir)) t) (hdst : ∀ c ∈ completed, Spares fs c.srcClean dst)
    (hback : plans ≠ [] → Restorable fs dst completed)
    (h : Undisturbed fs dst dir (completed.map (·.srcClean)) (plans.map (·.srcClean))) :
    Sound fs dst dir ((completed ++ plans).map (·.srcClean)) (runMoves refused completed t plans) := by
  induction plans generalizing completed t with
  | nil =>
    rw [List.append_nil] at hc ⊢
    exact ⟨fun _ => allMoved_of_ran hc hran hdst, fun hne => absurd rfl hne⟩
  | cons plan plans ih =>
    have hback := hback (List.cons_ne_nil plan plans)
    cases ha : attempt refused completed.length t plan with
    | error e =>
      obtain ⟨hfst, hsnd⟩ := runMoves_error ha plans
      rw [rollbackMoves_eq hc hran hback] at hfst
      exact ⟨fun hnone => absurd hnone hsnd, fun _ => hfst⟩
    | ok t' =>
      obtain ⟨hmov, -, hran'⟩ := ran_of_ok hc hran (attempt_ok ha)
      obtain ⟨hspareDst, hspare, hrest⟩ := h hmov
      have happ : completed ++ plan :: plans = completed ++ [plan] ++ plans := by simp
      have hdst' : ∀ c ∈ completed ++ [plan], Spares fs c.srcClean dst := by
        rw [List.forall_mem_append, List.forall_mem_singleton]
        exact ⟨hdst, hspareDst⟩
      rw [happ] at hc ⊢
      rw [runMoves_ok ha]
      refine ih hc hran' hdst' (fun hne => hback.concat hspareDst ?_) ?_
      · rw [List.forall_mem_append, List.forall_mem_singleton]
        exact ⟨List.forall_mem_map.1 hmov.2, hspare fun hnil => hne (List.map_eq_nil_iff.1 hnil)⟩
      · rw [List.map_append]
        exact hrest

/-- A rollback whose first rename fails leaves its file at the destination. -/
theorem rollbackMoves_ne (hc : Checked fs dst dir (completed ++ [plan] ++ plans))
    (hran : fs.Ran ((completed ++ [plan]).map (planned fs dir)) t)
    (herr : ∃ e, t.rename plan.newPath plan.srcClean = .error e) :
    (rollbackMoves t (completed ++ [plan])).1 ≠ fs := by
  have hmem : plan ∈ completed ++ [plan] ++ plans :=
    List.mem_append_left _ (List.mem_append_right _ (List.mem_singleton_self plan))
  have hin : planned fs dir plan ∈ (completed ++ [plan]).map (planned fs dir) :=
    List.mem_map_of_mem (List.mem_append_right _ (List.mem_singleton_self plan))
  have hb := hc.batch_completed
  have hscat : fs.Scattered t ((completed ++ [plan] ++ plans).map (planned fs dir)) :=
    hran.scattered hc.batch fun m hm => by
      rw [List.map_append]
      exact List.mem_append_left _ hm
  have hnodup := hc.targets
  rw [List.append_assoc, List.map_append, List.nodup_append] at hnodup
  obtain ⟨e, he⟩ := herr
  have hone : (rollbackOne (t, []) plan).1 = t := by
    rw [rollbackOne]
    dsimp only
    rw [he]
  have hkept : (rollbackMoves t (completed ++ [plan])).1.get (dir ++ [base plan.srcClean]) =
      t.get (dir ++ [base plan.srcClean]) := by
    rw [rollbackMoves_concat, foldl_rollbackOne_kept hc (by rwa [hone]) hmem, hone]
    intro c hcm
    rw [List.mem_reverse] at hcm
    refine ⟨List.mem_append_left _ (List.mem_append_left _ hcm), ?_, ?_⟩
    · rintro rfl
      exact hnodup.2.2 _ (List.mem_map_of_mem hcm) _ (List.mem_map_of_mem (List.mem_cons_self ..)) rfl
    · exact hran.not_above_dir hb _ (List.mem_map_of_mem (List.mem_append_left _ hcm))
  intro heq
  have hnone := (hc.ready plan hmem).free
  rw [← heq, hkept] at hnone
  exact (hran.relocated hb).target_ne_none hb hin hnone

/-- After a source that does not spare the destination or itself, one refused rename is enough. -/
theorem undisturbed_of_sound (hc : Checked fs dst dir (completed ++ plans))
    (hran : fs.Ran (completed.map (planned fs dir)) t) (hdst : ∀ c ∈ completed, Spares fs c.srcClean dst)
    (h : ∀ refused : Option (ℕ × SysError), (∀ k e, refused = some (k, e) → completed.length ≤ k) →
      Sound fs dst dir ((completed ++ plans).map (·.srcClean)) (runMoves refused completed t plans)) :
    Undisturbed fs dst dir (completed.map (·.srcClean)) (plans.map (·.srcClean)) := by
  induction plans generalizing completed t with
  | nil => trivial
  | cons plan plans ih =>
    intro hmov
    obtain ⟨t', ht'⟩ := ok_of_movable hc hran hdst hmov
    obtain ⟨-, -, hran'⟩ := ran_of_ok hc hran ht'
    have happ : completed ++ plan :: plans = completed ++ [plan] ++ plans := by simp
    have hlen : (completed ++ [plan]).length = completed.length + 1 := List.length_append
    rw [happ] at hc h
    have hmem : plan ∈ completed ++ [plan] ++ plans :=
      List.mem_append_left _ (List.mem_append_right _ (List.mem_singleton_self plan))
    have hlast : plan ∈ completed ++ [plan] := List.mem_append_right _ (List.mem_singleton_self plan)
    have hnext : ∀ refused : Option (ℕ × SysError),
        (∀ k e, refused = some (k, e) → (completed ++ [plan]).length ≤ k) →
        Sound fs dst dir ((completed ++ [plan] ++ plans).map (·.srcClean))
          (runMoves refused (completed ++ [plan]) t' plans) := fun refused hk => by
      have hlater : ∀ k e, refused = some (k, e) → k ≠ completed.length := fun k e hr => by
        have := hk k e hr
        omega
      have hone := h refused fun k e hr => by
        have := hk k e hr
        omega
      rwa [runMoves_ok ((attempt_eq hlater).trans ht')] at hone
    -- When a later rename is refused and this one cannot be undone, something is left behind.
    have hundone : ∀ {refused : Option (ℕ × SysError)} {plan' plans'} {e : SysError}, plans = plan' :: plans' →
        (∀ k e, refused = some (k, e) → (completed ++ [plan]).length ≤ k) →
        attempt refused (completed ++ [plan]).length t' plan' = .error e →
        ∃ s, t'.rename plan.newPath plan.srcClean = .ok s := by
      rintro refused plan' plans' e rfl hk ha
      by_contra hno
      obtain ⟨hfst, hsnd⟩ := runMoves_error ha plans'
      have hsame := (hnext refused hk).undone hsnd
      rw [hfst] at hsame
      exact rollbackMoves_ne hc hran' (FileSystem.exists_error hno) hsame
    have hspareDst : Spares fs plan.srcClean dst := by
      cases plans with
      | nil =>
        have hmoved := (hnext none nofun).moved rfl
        rw [List.append_nil] at hmoved hmem
        have hfound := (hmoved.found _ (List.mem_map_of_mem hmem)).2.2
        rw [← (hc.ready plan (List.mem_append_left _ hmem)).newPath_join] at hfound
        exact spares_dst_of_located hc hran' (List.mem_append_left _ hmem) hfound plan hlast
      | cons plan' plans' =>
        have hmem' : plan' ∈ completed ++ [plan] ++ plan' :: plans' :=
          List.mem_append_right _ (List.mem_cons_self ..)
        cases ha : attempt none (completed ++ [plan]).length t' plan' with
        | error e =>
          obtain ⟨s, hs⟩ := hundone rfl (by nofun) ha
          obtain ⟨loc, -, hloc, -⟩ := FileSystem.rename_ok hs
          exact spares_dst_of_located hc hran' hmem hloc plan hlast
        | ok s => exact (ran_of_ok hc hran' (attempt_ok ha)).2.1 plan hlast
    refine ⟨hspareDst, fun hne => ?_, ?_⟩
    · obtain ⟨plan', plans', rfl⟩ := List.exists_cons_of_ne_nil fun hnil => hne (List.map_eq_nil_iff.2 hnil)
      have hrefused : attempt (some ((completed ++ [plan]).length, .errno .busy))
        (completed ++ [plan]).length t' plan' =
          .error (.errno .busy) := if_pos rfl
      obtain ⟨s, hs⟩ := hundone rfl (fun k e hr => by cases hr; exact Nat.le_refl _) hrefused
      obtain ⟨-, loc, -, hloc, -⟩ := FileSystem.rename_ok hs
      exact spares_of_located hc hran' hmem hloc plan hlast
    · have hdst' : ∀ c ∈ completed ++ [plan], Spares fs c.srcClean dst := by
        rw [List.forall_mem_append, List.forall_mem_singleton]
        exact ⟨hdst, hspareDst⟩
      have hrest := ih hc hran' hdst' hnext
      rwa [List.map_append] at hrest

theorem processMultiMove_refused (h : (preflight lower fold fs srcs dst cwd gitRoot).allOK = false) :
    (processMultiMove lower fold refused fs srcs dst cwd gitRoot).2.ok = false ∧
      (processMultiMove lower fold refused fs srcs dst cwd gitRoot).1 = fs := by
  unfold processMultiMove
  dsimp only
  rw [if_pos h]
  exact ⟨rfl, rfl⟩

theorem allOrNothing_iff_sound {paths : List Path}
    (h : (preflight lower fold fs srcs dst cwd gitRoot).allOK = true)
    (hplans : (preflight lower fold fs srcs dst cwd gitRoot).plans = plans.map some) :
    AllOrNothing fs dst dir paths (processMultiMove lower fold refused fs srcs dst cwd gitRoot) ↔
      Sound fs dst dir paths (runMoves refused [] fs plans) := by
  have hfilter : (plans.map some).filterMap id = plans := by
    rw [List.filterMap_map]
    exact List.filterMap_some
  unfold processMultiMove
  dsimp only
  rw [if_neg (by rw [h]; nofun), hplans, hfilter]
  cases hrun : runMoves refused [] fs plans with
  | mk t out =>
    cases out with
    | none =>
      constructor
      · rintro (⟨-, hmoved⟩ | ⟨hok, -⟩)
        · exact ⟨fun _ => hmoved, fun hne => absurd rfl hne⟩
        · cases hok
      · exact fun hsound => .inl ⟨rfl, hsound.moved rfl⟩
    | some failure =>
      constructor
      · rintro (⟨hok, -⟩ | ⟨-, hsame⟩)
        · cases hok
        · exact ⟨nofun, fun _ => hsame⟩
      · exact fun hsound => .inr ⟨rfl, hsound.undone nofun⟩

/-- Whichever of the renames is refused, if one is, the move into a directory is all or nothing, exactly
if the sources spare the paths of the plan. -/
theorem all_or_nothing_iff (lower fold : Char → Char) (fs : FileSystem) (srcs : List (List Char))
    (dstDir cwd gitRoot : List Char) {dir : Path} (hdst : fs.locateDir (clean dstDir) = .ok dir) :
    (∀ refused, AllOrNothing fs (clean dstDir) dir (srcs.map clean)
      (processMultiMove lower fold refused fs srcs (clean dstDir) cwd gitRoot)) ↔
    ((preflight lower fold fs srcs (clean dstDir) cwd gitRoot).allOK = true →
      Undisturbed fs (clean dstDir) dir [] (srcs.map clean)) := by
  cases hok : (preflight lower fold fs srcs (clean dstDir) cwd gitRoot).allOK with
  | false =>
    refine ⟨fun _ => nofun, fun _ refused => .inr ?_⟩
    exact processMultiMove_refused hok
  | true =>
    obtain ⟨plans, hplans, hc, hpaths⟩ := preflight_ok hdst hok
    have hc' : Checked fs (clean dstDir) dir ([] ++ plans) := hc
    rw [← hpaths]
    constructor
    · intro hall _
      exact undisturbed_of_sound hc' .nil nofun fun refused _ => (allOrNothing_iff_sound hok hplans).1
        (hall refused)
    · intro hund refused
      rw [allOrNothing_iff_sound hok hplans]
      exact sound_runMoves hc' .nil nofun (fun _ => restorable_nil) (hund rfl)

/-- A directory, a link to it and a file. -/
def shelf : FileSystem :=
  .ofEntries [(["w".toList], .dir), (["w".toList, "dst".toList], .dir),
    (["w".toList, "link".toList], .link "/w/dst".toList), (["w".toList, "f".toList], .file [])] (by decide)

/-- The link and the file can be moved to the directory by its own name, or not when the second is refused. -/
theorem all_or_nothing_dst : AllOrNothing shelf (clean "/w/dst".toList) ["w".toList, "dst".toList]
    (["/w/link".toList, "/w/f".toList].map clean)
    (processMultiMove Char.toLower Char.toLower (some (1, .errno .busy)) shelf ["/w/link".toList, "/w/f".toList]
      (clean "/w/dst".toList) "/w".toList "/w".toList) :=
  (all_or_nothing_iff Char.toLower Char.toLower shelf ["/w/link".toList, "/w/f".toList] "/w/dst".toList
    "/w".toList "/w".toList (by decide)).2 (fun _ => by decide) (some (1, .errno .busy))

/-- By the link, it is gone after the first rename, and stays where it has come to. -/
theorem link_left_behind : ¬ AllOrNothing shelf (clean "/w/link".toList) ["w".toList, "dst".toList]
    (["/w/link".toList, "/w/f".toList].map clean)
    (processMultiMove Char.toLower Char.toLower none shelf ["/w/link".toList, "/w/f".toList]
      (clean "/w/link".toList) "/w".toList "/w".toList) := by
  rintro (⟨hok, -⟩ | ⟨-, hsame⟩)
  · revert hok
    decide
  · have hget := congrArg (fun fs => fs.get ["w".toList, "dst".toList, "link".toList]) hsame
    revert hget
    decide

end ManyAiCli.Hub.LinkedMove
