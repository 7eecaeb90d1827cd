import ManyAiCli.Hub.FileHandlers
import Mathlib.Data.List.Forall2
import Mathlib.Data.List.Nodup

/-! What the handlers that change files have checked of a request that passes: it has passed the guard,
its target is free, and moves of several sources do not get in each other's way. -/

namespace ManyAiCli.Hub.FileHandlers

open Files FileSystem PathGuard Tree

variable {lower fold : Char → Char} {s t : Tree} {cwd src dstDir newName dir name target : List Char}
  {srcs : List (List Char)} {p q dst : Path}

/-! ### The guard -/

/-- Without links, the guard judges a path as it is written. -/
theorem evalSymlinksViaSelf_self (hp : ∀ n ∈ p, IsEntry n) : (evalSymlinksViaSelf s.toFileSystem p).1 = p := by
  have hself : ∀ q, (∀ n ∈ q, IsEntry n) → ∀ r, s.evalSymlinks q = some r → r = q := fun q hq r hr =>
    (reaches_of_evalSymlinks hr).unique (reaches_of_no_link hq fun _ _ => s.noLinks _)
  rcases List.eq_nil_or_concat' p with rfl | ⟨dir, n, rfl⟩
  · rfl
  · cases he : s.evalSymlinks (dir ++ [n]) with
    | some r =>
      unfold evalSymlinksViaSelf
      rw [he]
      exact hself _ hp r he
    | none =>
      rw [evalSymlinksViaSelf_concat he]
      cases hd : s.evalSymlinks dir with
      | none => rfl
      | some r =>
        rw [hself dir (fun m hm => hp m (List.mem_append_left _ hm)) r hd]
        rfl

theorem isPathUnderAllowedRoots_iff {roots : List (List Char)} :
    isPathUnderAllowedRoots lower s.toFileSystem target roots = true ↔
      ∃ root ∈ roots, isAbs root = true ∧ isUnder lower (clean target) (clean root) = true := by
  rw [isPathUnderAllowedRoots_eq, List.any_eq_true]
  refine exists_congr fun root => and_congr_right fun _ => ?_
  rw [evalSymlinksViaSelf_self isEntry_of_mem_clean, evalSymlinksViaSelf_self isEntry_of_mem_clean,
    Bool.and_eq_true, Bool.and_eq_true, decide_eq_true_iff]
  refine ⟨fun h => ⟨h.1.2, h.2⟩, fun h => ⟨⟨?_, h.1⟩, h.2⟩⟩
  rintro rfl
  cases h.1

theorem isUnder_of_above (h : p <+: q) : isUnder lower q p = true := by
  unfold isUnder
  split_ifs
  · exact List.isPrefixOf_iff_prefix.2 (h.map _)
  · exact List.isPrefixOf_iff_prefix.2 h

theorem length_le_of_isUnder (h : isUnder lower q p = true) : p.length ≤ q.length := by
  unfold isUnder at h
  split_ifs at h
  · simpa only [List.length_map] using (List.isPrefixOf_iff_prefix.1 h).length_le
  · exact (List.isPrefixOf_iff_prefix.1 h).length_le

theorem isWindowsPath_of_above (h : p <+: q) (hp : isWindowsPath p = true) : isWindowsPath q = true := by
  cases p with
  | nil => cases hp
  | cons n p =>
    obtain ⟨rest, rfl⟩ := h
    exact hp

theorem isUnder_trans {r : Path} (hr : r <+: p) (h : isUnder lower q p = true) : isUnder lower q r = true := by
  by_cases hw : (isWindowsPath p || isWindowsPath q) = true
  · rw [isUnder, if_pos hw] at h
    have hmap : r.map (·.map lower) <+: q.map (·.map lower) := (hr.map _).trans (List.isPrefixOf_iff_prefix.1 h)
    cases r with
    | nil => exact isUnder_of_above (List.nil_prefix)
    | cons n r =>
      have hhead : isWindowsPath (n :: r) = isWindowsPath p := by
        obtain ⟨rest, rfl⟩ := hr
        rfl
      rw [isUnder, if_pos (hhead ▸ hw)]
      exact List.isPrefixOf_iff_prefix.2 hmap
  · rw [isUnder, if_neg hw] at h
    exact isUnder_of_above (hr.trans (List.isPrefixOf_iff_prefix.1 h))

theorem findGitRoot_above (s : Tree) (cwd : List Char) : clean (findGitRoot s cwd) <+: clean cwd := by
  unfold findGitRoot
  split_ifs
  · cases hf : (clean cwd).inits.reverse.find? fun q => s.get (q ++ [".git".toList]) = some .dir with
    | none => exact List.prefix_refl _
    | some q =>
      have hq : q <+: clean cwd := (List.mem_inits _ _).1 (List.mem_reverse.1 (List.mem_of_find?_eq_some hf))
      rw [Option.map_some, Option.getD_some, clean_pathText (fun n hn => isEntry_of_mem_clean n (hq.subset hn))
        (fun n hn => no_slash_of_mem_clean (hq.subset hn))]
      exact hq
  · exact List.prefix_refl _

/-- What passes the guard is below the git root, case aside. -/
theorem isUnder_of_guard
    (h : ¬ isPathUnderAllowedRoots lower s.toFileSystem target [cwd, findGitRoot s cwd] = false) :
    isUnder lower (clean target) (clean (findGitRoot s cwd)) = true := by
  rw [Bool.not_eq_false, isPathUnderAllowedRoots_iff] at h
  obtain ⟨root, hroot, -, hunder⟩ := h
  rcases List.mem_cons.1 hroot with rfl | hroot
  · exact isUnder_trans (findGitRoot_above s root) hunder
  · rwa [List.mem_singleton.1 hroot] at hunder

/-! ### What a request that passes has checked -/

theorem of_check {ε α : Type} {c : Prop} [Decidable c] {e : ε} {x : Except ε α} {a : α}
    (h : (if c then .error e else x) = Except.ok a) : ¬ c ∧ x = .ok a := by
  split_ifs at h with hc
  exact ⟨hc, h⟩

theorem stat_ok {node : Node} : s.stat p = .ok node ↔ s.get p = some node := by
  unfold Tree.stat
  cases s.get p with
  | none => exact ⟨nofun, nofun⟩
  | some n => exact ⟨fun h => congrArg some (Except.ok.inj h), fun h => congrArg Except.ok (Option.some.inj h)⟩

theorem entry_of_isSafeBasename {n : Name} (h : ¬ isSafeBasename n = false) : IsEntry n ∧ '/' ∉ n := by
  unfold isSafeBasename at h
  split_ifs at h with hdots hsep hcolon
  · exact absurd rfl h
  · exact absurd rfl h
  · exact absurd rfl h
  · simp only [not_or] at hdots
    refine ⟨hdots, fun hmem => hsep (List.any_eq_true.2 ⟨'/', hmem, rfl⟩)⟩

theorem rename_of_atomic (h : atomicRenameNoReplace s p q = .ok t) : s.rename p q = .ok t := (of_check h).2

structure RenameChecked (lower : Char → Char) (s : Tree) (cwd src newName : List Char) (newPath : Path) : Prop where
  under : isUnder lower (clean src) (clean (findGitRoot s cwd)) = true
  newPath_eq : newPath = (clean src).dropLast ++ [newName]
  source : s.get (clean src) ≠ none
  target : s.get newPath = none

theorem handleFilesRename_ok {newPath : Path} (h : handleFilesRename lower s cwd src newName = .ok (t, newPath)) :
    RenameChecked lower s cwd src newName newPath ∧ join (clean src).dropLast newName = newPath ∧
      s.rename (clean src) newPath = .ok t := by
  unfold handleFilesRename at h
  obtain ⟨-, h⟩ := of_check h
  obtain ⟨-, h⟩ := of_check h
  obtain ⟨hname, h⟩ := of_check h
  obtain ⟨hguard, h⟩ := of_check h
  have hunder := isUnder_of_guard hguard
  rw [clean_pathText_clean] at hunder
  have hjoin := join_entry (entry_of_isSafeBasename hname).1 (entry_of_isSafeBasename hname).2 (clean src).dropLast
  split at h
  · cases h
  · rename_i node hstat
    obtain ⟨-, h⟩ := of_check h
    obtain ⟨htarget, h⟩ := of_check h
    split at h
    · cases h
    · cases h
    · rename_i t' hr
      cases h
      rw [stat_ok] at hstat
      exact ⟨⟨hunder, hjoin, by rw [hstat]; exact Option.some_ne_none _, not_not.1 htarget⟩, rfl, rename_of_atomic hr⟩

theorem not_pathsEqual (h : pathsEqual fold p q = false) : p ≠ q := by
  rintro rfl
  rw [pathsEqual, decide_eq_true rfl] at h
  cases h

structure DeleteChecked (lower : Char → Char) (s : Tree) (cwd src : List Char) : Prop where
  under : isUnder lower (clean src) (clean (findGitRoot s cwd)) = true
  notRoot : clean src ≠ clean (findGitRoot s cwd)
  source : s.get (clean src) = some .dir

theorem handleFilesDeleteDir_ok (h : handleFilesDeleteDir lower fold s cwd src = .ok t) :
    DeleteChecked lower s cwd src ∧ s.removeAll (clean src) = .ok t := by
  unfold handleFilesDeleteDir at h
  obtain ⟨-, h⟩ := of_check h
  obtain ⟨-, h⟩ := of_check h
  obtain ⟨hguard, h⟩ := of_check h
  obtain ⟨hroots, h⟩ := of_check h
  have hunder := isUnder_of_guard hguard
  rw [clean_pathText_clean] at hunder
  rw [Bool.not_eq_true, Bool.or_eq_false_iff] at hroots
  split at h
  · cases h
  · rename_i node hstat
    obtain ⟨hdir, h⟩ := of_check h
    split at h
    · cases h
    · rename_i t' hr
      cases h
      exact ⟨⟨hunder, not_pathsEqual hroots.2, (stat_ok.1 hstat).trans (congrArg some (not_not.1 hdir))⟩, hr⟩

structure CreateChecked (lower : Char → Char) (s : Tree) (cwd dir name : List Char) (newPath : Path) : Prop where
  under : isUnder lower (clean dir) (clean (findGitRoot s cwd)) = true
  newPath_eq : newPath = clean dir ++ [name]

theorem handleFilesCreate_ok {newPath : Path} (h : handleFilesCreate lower s cwd dir name = .ok (t, newPath)) :
    CreateChecked lower s cwd dir name newPath ∧ join (clean dir) name = newPath ∧ s.create newPath = .ok t := by
  unfold handleFilesCreate at h
  obtain ⟨-, h⟩ := of_check h
  obtain ⟨-, h⟩ := of_check h
  obtain ⟨hname, h⟩ := of_check h
  obtain ⟨hguard, h⟩ := of_check h
  have hunder := isUnder_of_guard hguard
  rw [clean_pathText_clean] at hunder
  have hjoin := join_entry (entry_of_isSafeBasename hname).1 (entry_of_isSafeBasename hname).2 (clean dir)
  split at h
  · cases h
  · obtain ⟨-, h⟩ := of_check h
    obtain ⟨-, h⟩ := of_check h
    obtain ⟨-, h⟩ := of_check h
    obtain ⟨-, h⟩ := of_check h
    split at h
    · cases h
    · cases h
    · cases h
    · rename_i t' hr
      cases h
      exact ⟨⟨hunder, hjoin⟩, rfl, hr⟩

/-! ### Plans of moves -/

structure Planned (s : Tree) (dst : Path) (src : List Char) (plan : FileMovePlan) : Prop where
  srcClean_eq : plan.srcClean = clean src
  newPath_eq : plan.newPath = join dst (base (clean src))
  isDir_iff : plan.isDir = true ↔ s.get plan.srcClean = some .dir
  source : s.get plan.srcClean ≠ none
  target : s.get plan.newPath = none
  notAbove : ¬ plan.srcClean <+: dst

/-- It also has passed the guard. -/
structure Passes (lower : Char → Char) (s : Tree) (cwd : List Char) (dst : Path) (src : List Char)
    (plan : FileMovePlan) : Prop extends Planned s dst src plan where
  under : isUnder lower (clean src) (clean (findGitRoot s cwd)) = true

theorem planSingleMove_ok {plan : FileMovePlan} (hdst : s.get dst = some .dir)
    (h : planSingleMove lower fold s src dst cwd (findGitRoot s cwd) = .ok plan) :
    Passes lower s cwd dst src plan := by
  unfold planSingleMove at h
  obtain ⟨-, h⟩ := of_check h
  obtain ⟨-, h⟩ := of_check h
  obtain ⟨hguard, h⟩ := of_check h
  dsimp only at h
  split at h
  · cases h
  · rename_i node hstat
    rw [stat_ok] at hstat
    obtain ⟨-, h⟩ := of_check h
    obtain ⟨hself, h⟩ := of_check h
    have habove : ¬ clean src <+: dst := fun hle => by
      -- A source above a directory is one itself.
      have hnode : node = .dir := by
        obtain ⟨rest, hrest⟩ := hle
        cases rest with
        | nil =>
          rw [← hrest, List.append_nil, hstat] at hdst
          exact Option.some.inj hdst
        | cons n rest =>
          have hdir : s.get (clean src) = some .dir :=
            dir_above (by rw [hdst]; exact Option.some_ne_none _) ⟨rest, by rw [List.append_assoc, List.singleton_append, hrest]⟩
          rw [hstat] at hdir
          exact Option.some.inj hdir
      exact hself ⟨hnode, by rw [isUnder_of_above hle, Bool.or_true]⟩
    have hsource : s.get (clean src) ≠ none := by
      rw [hstat]
      exact Option.some_ne_none _
    split at h
    · cases h
    · rename_i htarget
      cases h
      have hnone : s.get (join dst (base (clean src))) = none := by
        by_contra hne
        obtain ⟨node', hnode'⟩ := Option.ne_none_iff_exists'.1 hne
        rw [stat_ok.2 hnode'] at htarget
        cases htarget
      refine ⟨⟨rfl, rfl, ?_, hsource, hnone, habove⟩, isUnder_of_guard hguard⟩
      rw [decide_eq_true_iff, hstat, Option.some.injEq]
    · cases h

/-- The new place is in the directory. -/
theorem Planned.newPath_concat {plan : FileMovePlan} (h : Planned s dst src plan) : ∃ n, plan.newPath = dst ++ [n] := by
  have hne : clean src ≠ [] := fun hnil => h.notAbove (h.srcClean_eq ▸ hnil ▸ List.nil_prefix)
  obtain ⟨pre, n, hsrc⟩ := (List.eq_nil_or_concat' (clean src)).resolve_left hne
  have hn : n ∈ clean src := hsrc ▸ List.mem_append_right pre (List.mem_singleton_self n)
  have hbase : base (clean src) = n := by
    rw [hsrc, base, List.getLast?_concat]
    rfl
  refine ⟨n, ?_⟩
  rw [h.newPath_eq, hbase, join_entry (isEntry_of_mem_clean n hn) (no_slash_of_mem_clean hn)]

/-- A directory above another source is found by the preflight. -/
theorem isAncestor_of_above {plan plan' : FileMovePlan} {src' : List Char} (h : Planned s dst src plan)
    (h' : Planned s dst src' plan') (hle : plan.srcClean <+: plan'.srcClean) (hne : plan.srcClean ≠ plan'.srcClean) :
    isAncestor lower fold plan plan' = true := by
  have hlen : plan.srcClean.length ≠ plan'.srcClean.length := fun hlen => hne (hle.eq_of_length hlen)
  have hdir : plan.isDir = true := by
    rw [h.isDir_iff]
    obtain ⟨rest, hrest⟩ := hle
    cases rest with
    | nil => exact absurd (by rw [← hrest, List.append_nil]) hne
    | cons n rest => exact dir_above h'.source ⟨rest, by rw [List.append_assoc, List.singleton_append, hrest]⟩
  have hpaths : pathsEqual fold plan.srcClean plan'.srcClean = false := by
    have hmap : plan.srcClean.map (·.map fold) ≠ plan'.srcClean.map (·.map fold) := fun heq => hlen (by
      simpa only [List.length_map] using congrArg List.length heq)
    rw [pathsEqual, decide_eq_false hne, decide_eq_false hmap, Bool.and_false, Bool.or_false]
  rw [isAncestor, hdir, hpaths, isUnder_of_above hle]
  rfl

/-! ### The preflight -/

theorem map_eq_of_forall₂ {α β γ : Type} {R : α → β → Prop} {f : α → γ} {g : β → γ} {as : List α} {bs : List β}
    (h : List.Forall₂ R as bs) (hfg : ∀ a b, R a b → g b = f a) : bs.map g = as.map f := by
  induction h with
  | nil => rfl
  | cons hab _ ih => rw [List.map_cons, List.map_cons, hfg _ _ hab, ih]

theorem takeKey_ok {results : List FileMoveResult} {seen : List (Path × ℕ)} {key : Path} {i : ℕ} {error : List Char}
    (h : (takeKey results seen key i error).2.2 = true) :
    key ∉ seen.map Prod.fst ∧ (takeKey results seen key i error).2.1.map Prod.fst = key :: seen.map Prod.fst := by
  unfold takeKey at h ⊢
  cases hl : seen.lookup key with
  | some prev =>
    rw [hl] at h
    cases h
  | none =>
    refine ⟨fun hmem => ?_, rfl⟩
    obtain ⟨e, he, rfl⟩ := List.mem_map.1 hmem
    have hne := List.lookup_eq_none_iff.1 hl e he
    rw [bne_self_eq_false] at hne
    cases hne

/-- The loop has kept these plans, and knows their keys. -/
structure Gathered (pf : Preflight) (plans : List FileMovePlan) : Prop where
  plans_eq : pf.plans = plans.map some
  srcKeys : pf.srcSeen.map Prod.fst = (plans.map (·.srcClean)).reverse
  targetKeys : pf.targetSeen.map Prod.fst = (plans.map (·.newPath)).reverse
  srcs : (plans.map (·.srcClean)).Nodup
  targets : (plans.map (·.newPath)).Nodup

variable {pf : Preflight} {plans : List FileMovePlan} {gitRoot : List Char}

theorem gatherPlan_ok {planned : Except (List Char) FileMovePlan} (h : (gatherPlan pf src planned).allOK = true) :
    pf.allOK = true ∧ ∀ plans, Gathered pf plans → ∃ plan, planned = .ok plan ∧
      Gathered (gatherPlan pf src planned) (plans ++ [plan]) := by
  cases planned with
  | error msg => cases h
  | ok plan =>
    simp only [gatherPlan, Bool.and_eq_true] at h
    obtain ⟨⟨hall, hsrc⟩, htarget⟩ := h
    have hsrcKey := takeKey_ok hsrc
    have htargetKey := takeKey_ok htarget
    refine ⟨hall, fun plans hg => ⟨plan, rfl, ?_⟩⟩
    rw [hg.srcKeys, List.mem_reverse] at hsrcKey
    rw [hg.targetKeys, List.mem_reverse] at htargetKey
    refine ⟨?_, ?_, ?_, ?_, ?_⟩
    · show pf.plans ++ [some plan] = _
      rw [hg.plans_eq, List.map_append]
      rfl
    · rw [List.map_append, List.reverse_append]
      exact hsrcKey.2
    · rw [List.map_append, List.reverse_append]
      exact htargetKey.2
    · rw [List.map_append]
      exact List.concat_eq_append ▸ hg.srcs.concat hsrcKey.1
    · rw [List.map_append]
      exact List.concat_eq_append ▸ hg.targets.concat htargetKey.1

theorem foldl_gatherPlan_ok {plan : List Char → Except (List Char) FileMovePlan}
    (h : (srcs.foldl (fun pf src => gatherPlan pf src (plan src)) pf).allOK = true) :
    pf.allOK = true ∧ ∀ plans, Gathered pf plans → ∃ more,
      List.Forall₂ (fun src p => plan src = .ok p) srcs more ∧
        Gathered (srcs.foldl (fun pf src => gatherPlan pf src (plan src)) pf) (plans ++ more) := by
  induction srcs generalizing pf with
  | nil => exact ⟨h, fun plans hg => ⟨[], .nil, by rwa [List.append_nil]⟩⟩
  | cons src srcs ih =>
    obtain ⟨hone, hrest⟩ := ih h
    obtain ⟨hall, hfirst⟩ := gatherPlan_ok hone
    refine ⟨hall, fun plans hg => ?_⟩
    obtain ⟨p, hp, hg'⟩ := hfirst plans hg
    obtain ⟨more, hmore, hg''⟩ := hrest _ hg'
    rw [List.append_assoc, List.singleton_append] at hg''
    exact ⟨p :: more, .cons hp hmore, hg''⟩

theorem preflightOne_eq (pf : Preflight) (src : List Char) : preflightOne lower fold s dst cwd gitRoot pf src =
    gatherPlan pf src (planSingleMove lower fold s src dst cwd gitRoot) := by
  unfold preflightOne
  cases planSingleMove lower fold s src dst cwd gitRoot with
  | error msg => rfl
  | ok plan => rfl

theorem foldl_preflightOne_ok (h : (srcs.foldl (preflightOne lower fold s dst cwd gitRoot) pf).allOK = true) :
    pf.allOK = true ∧ ∀ plans, Gathered pf plans → ∃ more,
      List.Forall₂ (fun src plan => planSingleMove lower fold s src dst cwd gitRoot = .ok plan) srcs more ∧
        Gathered (srcs.foldl (preflightOne lower fold s dst cwd gitRoot) pf) (plans ++ more) := by
  have heq : preflightOne lower fold s dst cwd gitRoot =
      fun pf src => gatherPlan pf src (planSingleMove lower fold s src dst cwd gitRoot) := by
    funext pf src
    exact preflightOne_eq pf src
  rw [heq] at h ⊢
  exact foldl_gatherPlan_ok h

theorem preflightPair_ok {ij : ℕ × ℕ} (h : (preflightPair lower fold pf ij).allOK = true) :
    preflightPair lower fold pf ij = pf ∧ ∀ plan plan', pf.plans[ij.1]?.join = some plan →
      pf.plans[ij.2]?.join = some plan' → ij.1 ≠ ij.2 → isAncestor lower fold plan plan' = false := by
  unfold preflightPair at h ⊢
  split at h
  · rename_i plan plan' hi hj
    split_ifs at h with hc
    rw [if_neg hc]
    refine ⟨rfl, fun p q hp hq hij => ?_⟩
    obtain rfl := Option.some.inj (hi.symm.trans hp)
    obtain rfl := Option.some.inj (hj.symm.trans hq)
    exact Bool.eq_false_iff.2 fun ha => hc ⟨hij, ha⟩
  · rename_i hnone
    exact ⟨rfl, fun p q hp hq => absurd hq (hnone p q hp)⟩

theorem foldl_preflightPair_ok {ijs : List (ℕ × ℕ)} (h : (ijs.foldl (preflightPair lower fold) pf).allOK = true) :
    ijs.foldl (preflightPair lower fold) pf = pf ∧ ∀ ij ∈ ijs, ∀ plan plan', pf.plans[ij.1]?.join = some plan →
      pf.plans[ij.2]?.join = some plan' → ij.1 ≠ ij.2 → isAncestor lower fold plan plan' = false := by
  induction ijs generalizing pf with
  | nil => exact ⟨rfl, nofun⟩
  | cons ij ijs ih =>
    rw [List.foldl_cons] at h ⊢
    obtain ⟨heq, hrest⟩ := ih h
    rw [heq] at h ⊢
    obtain ⟨hsame, hone⟩ := preflightPair_ok h
    rw [hsame] at hrest ⊢
    refine ⟨rfl, fun ij' hij' => ?_⟩
    rcases List.mem_cons.1 hij' with rfl | hij'
    · exact hone
    · exact hrest ij' hij'

/-- Moves that do not get in each other's way. -/
structure Moves (s : Tree) (dst : Path) (plans : List FileMovePlan) : Prop where
  planned : ∀ plan ∈ plans, ∃ src, Planned s dst src plan
  targets : (plans.map (·.newPath)).Nodup
  apart : plans.Pairwise fun plan plan' => ¬ plan.srcClean <+: plan'.srcClean

theorem preflight_ok (hdst : s.get dst = some .dir)
    (h : (preflight lower fold s srcs dst cwd (findGitRoot s cwd)).allOK = true) :
    ∃ plans, List.Forall₂ (Passes lower s cwd dst) srcs plans ∧ Moves s dst plans ∧
      (preflight lower fold s srcs dst cwd (findGitRoot s cwd)).plans = plans.map some := by
  unfold preflight at h ⊢
  obtain ⟨heq, hpairs⟩ := foldl_preflightPair_ok h
  rw [heq] at h ⊢
  have hempty : Gathered {} [] := ⟨rfl, rfl, rfl, List.nodup_nil, List.nodup_nil⟩
  obtain ⟨plans, hplans, hg⟩ := (foldl_preflightOne_ok h).2 [] hempty
  rw [List.nil_append] at hg
  have hplanned : List.Forall₂ (Passes lower s cwd dst) srcs plans := hplans.imp fun _ _ => planSingleMove_ok hdst
  have hmem : ∀ plan ∈ plans, ∃ src, Planned s dst src plan := fun plan hplan => by
    obtain ⟨i, hi, rfl⟩ := List.getElem_of_mem hplan
    exact ⟨_, (hplanned.get (hplanned.length_eq ▸ hi) hi).toPlanned⟩
  refine ⟨plans, hplanned, ⟨hmem, hg.targets, ?_⟩, hg.plans_eq⟩
  rw [List.pairwise_iff_getElem]
  intro i j hi hj hij habove
  obtain ⟨src, hsrc⟩ := hmem _ (List.getElem_mem hi)
  obtain ⟨src', hsrc'⟩ := hmem _ (List.getElem_mem hj)
  have hne : plans[i].srcClean ≠ plans[j].srcClean := by
    have hnodup := List.pairwise_iff_getElem.1 hg.srcs i j (by rwa [List.length_map]) (by rwa [List.length_map]) hij
    simpa only [List.getElem_map] using hnodup
  have hlen := hplanned.length_eq
  have hin : (i, j) ∈ (List.range srcs.length).product (List.range srcs.length) :=
    List.pair_mem_product.2 ⟨List.mem_range.2 (hlen ▸ hi), List.mem_range.2 (hlen ▸ hj)⟩
  have hget : ∀ k (hk : k < plans.length), (plans.map some)[k]?.join = some plans[k] := fun k hk => by
    rw [List.getElem?_map, List.getElem?_eq_getElem hk]
    rfl
  rw [hg.plans_eq] at hpairs
  have hfalse := hpairs (i, j) hin _ _ (hget i hi) (hget j hj) (Nat.ne_of_lt hij)
  rw [isAncestor_of_above hsrc hsrc' habove hne] at hfalse
  cases hfalse

end ManyAiCli.Hub.FileHandlers
