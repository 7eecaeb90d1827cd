import ManyAiCli.Files.Tree

/-! Renames of real places, in trees with links. A rename to a free place is undone by the one
back; after a row of renames into one directory each source is in it, less what was moved out of
it before, and nothing else is changed. -/

namespace ManyAiCli.Files

variable {fs t : FileSystem} {src dst dir p q : Path}

/-! ### What is above and below -/

theorem not_prefix_concat {n : Name} (h : ¬ q <+: p ++ [n]) : ¬ q <+: p := fun hq =>
  h (hq.trans (List.prefix_append p [n]))

/-- What is below something is in a directory. -/
theorem dir_above {n : Name} (h : fs.get q ≠ none) (hpq : p ++ [n] <+: q) : fs.get p = some .dir := by
  obtain ⟨rest, rfl⟩ := hpq
  induction rest using List.reverseRecOn with
  | nil =>
    rw [List.append_nil] at h
    exact fs.parent p n h
  | append_singleton rest m ih =>
    rw [← List.append_assoc] at h
    have hdir := fs.parent _ _ h
    exact ih (by rw [hdir]; exact Option.some_ne_none _)

theorem get_above_ne_none (h : fs.get q ≠ none) (hpq : p <+: q) : fs.get p ≠ none := by
  obtain ⟨rest, rfl⟩ := hpq
  cases rest with
  | nil => rwa [List.append_nil] at h
  | cons n rest =>
    have hdir : fs.get p = some .dir := dir_above h ⟨rest, by rw [List.append_assoc, List.singleton_append]⟩
    rw [hdir]
    exact Option.some_ne_none _

theorem get_below_eq_none (h : fs.get p = none) (rest : Path) : fs.get (p ++ rest) = none := by
  by_contra hne
  exact get_above_ne_none hne (List.prefix_append p rest) h

namespace FileSystem

theorem eq_of_get (h : ∀ p, fs.get p = t.get p) : fs = t := by
  cases fs
  cases t
  rw [mk.injEq]
  funext p
  exact h p

/-! ### One rename -/

variable (fs) in
/-- What is at a place after the rename. -/
def moved (src dst p : Path) : Option Node :=
  if dst <+: p then fs.get (src ++ p.drop dst.length) else if src <+: p then none else fs.get p

variable (fs) in
/-- The operating system can make the rename; what is at the new place is replaced. -/
structure Renames (src dst : Path) : Prop where
  source : fs.get src ≠ none
  srcNotRoot : src ≠ []
  dstNotRoot : dst ≠ []
  target : fs.get dst ≠ some .dir
  sameKind : fs.get src = some .dir → fs.get dst = none
  dir : fs.get dst.dropLast = some .dir
  notBelow : src <+: dst → src = dst

instance (src dst : Path) : Decidable (fs.Renames src dst) :=
  decidable_of_iff
    (fs.get src ≠ none ∧ src ≠ [] ∧ dst ≠ [] ∧ fs.get dst ≠ some .dir ∧
      (fs.get src = some .dir → fs.get dst = none) ∧ fs.get dst.dropLast = some .dir ∧
        (src <+: dst → src = dst))
    ⟨fun ⟨h₁, h₂, h₃, h₄, h₅, h₆, h₇⟩ => ⟨h₁, h₂, h₃, h₄, h₅, h₆, h₇⟩,
      fun ⟨h₁, h₂, h₃, h₄, h₅, h₆, h₇⟩ => ⟨h₁, h₂, h₃, h₄, h₅, h₆, h₇⟩⟩

theorem moved_of_not_above (hdst : ¬ dst <+: p) (hsrc : ¬ src <+: p) : fs.moved src dst p = fs.get p := by
  rw [moved, if_neg hdst, if_neg hsrc]

theorem moved_source (hdst : ¬ dst <+: p) (hsrc : src <+: p) : fs.moved src dst p = none := by
  rw [moved, if_neg hdst, if_pos hsrc]

theorem moved_append (src dst rest : Path) : fs.moved src dst (dst ++ rest) = fs.get (src ++ rest) := by
  rw [moved, if_pos (List.prefix_append dst rest), List.drop_left]

theorem moved_nil (h : fs.Renames src dst) : fs.moved src dst [] = some .dir := by
  rw [moved_of_not_above (fun hp => h.dstNotRoot (List.prefix_nil.1 hp))
    (fun hp => h.srcNotRoot (List.prefix_nil.1 hp))]
  exact fs.root

theorem moved_parent (h : fs.Renames src dst) (p : Path) (n : Name) (hp : fs.moved src dst (p ++ [n]) ≠ none)
    :
    fs.moved src dst p = some .dir := by
  by_cases hdst : dst <+: p ++ [n]
  · rcases List.prefix_concat_iff.1 hdst with heq | ⟨rest, rfl⟩
    · -- The new name itself; its directory is not moved along.
      subst heq
      have hdir := h.dir
      rw [List.dropLast_concat] at hdir
      have hlen : ¬ p ++ [n] <+: p := fun hle => by
        have := hle.length_le
        rw [List.length_append, List.length_singleton] at this
        omega
      have hsrc : ¬ src <+: p := fun hle => by
        have heq := h.notBelow (hle.trans (List.prefix_append p [n]))
        exact hlen (heq ▸ hle)
      rw [moved_of_not_above hlen hsrc]
      exact hdir
    · rw [List.append_assoc, moved_append, ← List.append_assoc] at hp
      rw [moved_append]
      exact fs.parent _ _ hp
  · by_cases hsrc : src <+: p ++ [n]
    · exact absurd (moved_source hdst hsrc) hp
    · rw [moved_of_not_above hdst hsrc] at hp
      rw [moved_of_not_above (not_prefix_concat hdst) (not_prefix_concat hsrc)]
      exact fs.parent p n hp

variable (fs) in
def move (src dst : Path) (h : fs.Renames src dst) : FileSystem where
  get := fs.moved src dst
  root := moved_nil h
  parent := moved_parent h

@[simp] theorem get_move (h : fs.Renames src dst) (p : Path) : (fs.move src dst h).get p = fs.moved src dst p
  := rfl

theorem Renames.not_above (h : fs.Renames src dst) (hnone : fs.get dst = none) : ¬ src <+: dst := fun hle =>
  h.source (h.notBelow hle ▸ hnone)

/-- The way back is open. -/
theorem Renames.back (h : fs.Renames src dst) (hnone : fs.get dst = none) : (fs.move src dst h).Renames dst
    src := by
  have hdst : ¬ dst <+: src := fun hle => get_above_ne_none h.source hle hnone
  obtain ⟨dir, n, rfl⟩ := (List.eq_nil_or_concat' src).resolve_left h.srcNotRoot
  have hfree : (fs.move (dir ++ [n]) dst h).get (dir ++ [n]) = none := moved_source hdst (List.prefix_refl _)
  have hnot : ¬ dir ++ [n] <+: dir := fun hle => by
    have := hle.length_le
    rw [List.length_append, List.length_singleton] at this
    omega
  have hsource : (fs.move (dir ++ [n]) dst h).get dst = fs.get (dir ++ [n]) := by
    have happ : fs.moved (dir ++ [n]) dst (dst ++ []) = fs.get (dir ++ [n] ++ []) := moved_append
      (dir ++ [n]) dst []
    rwa [List.append_nil, List.append_nil] at happ
  have hdir : (fs.move (dir ++ [n]) dst h).get dir = some .dir := by
    rw [get_move, moved_of_not_above (not_prefix_concat hdst) hnot]
    exact fs.parent dir n h.source
  refine ⟨?_, h.dstNotRoot, h.srcNotRoot, ?_, fun _ => hfree, ?_, fun hle => absurd hle hdst⟩
  · rw [hsource]
    exact h.source
  · rw [hfree]
    exact (Option.some_ne_none _).symm
  · rw [List.dropLast_concat]
    exact hdir

/-- The rename back undoes the rename. -/
theorem move_back (h : fs.Renames src dst) (hnone : fs.get dst = none)
    (hback : (fs.move src dst h).Renames dst src) : (fs.move src dst h).move dst src hback = fs := by
  refine eq_of_get fun p => ?_
  rw [get_move]
  by_cases hsrc : src <+: p
  · obtain ⟨rest, rfl⟩ := hsrc
    rw [moved_append, get_move, moved_append]
  · by_cases hdst : dst <+: p
    · obtain ⟨rest, rfl⟩ := hdst
      rw [moved_source hsrc (List.prefix_append dst rest), get_below_eq_none hnone]
    · rw [moved_of_not_above hsrc hdst, get_move, moved_of_not_above hdst hsrc]

/-! ### Renames into one directory -/

structure Move where
  source : Path
  target : Path
  deriving DecidableEq, Repr

/-- What is there is to get free names in the directory. -/
structure Batch (fs : FileSystem) (dir : Path) (ms : List Move) : Prop where
  source : ∀ m ∈ ms, fs.get m.source ≠ none
  target : ∀ m ∈ ms, ∃ n, m.target = dir ++ [n]
  free : ∀ m ∈ ms, fs.get m.target = none
  distinct : ∀ m ∈ ms, ∀ m' ∈ ms, m.target = m'.target → m = m'

/-- The renames made one after the other, each to a name that was free then. -/
inductive Ran (fs : FileSystem) : List Move → FileSystem → Prop
  | nil : Ran fs [] fs
  | snoc {done : List Move} {t : FileSystem} {m : Move} (h : Ran fs done t) (hfree : t.get m.target = none)
      (hr : t.Renames m.source m.target) : Ran fs (done ++ [m]) (t.move m.source m.target hr)

theorem Ran.eq_of_nil (h : Ran fs [] t) : t = fs := by
  generalize hms : ([] : List Move) = ms at h
  cases h with
  | nil => rfl
  | snoc => exact absurd hms.symm (List.append_ne_nil_of_right_ne_nil _ (List.cons_ne_nil _ _))

theorem Ran.last {done : List Move} {m : Move} (h : Ran fs (done ++ [m]) t) :
    ∃ s, Ran fs done s ∧ s.get m.target = none ∧ ∃ hr : s.Renames m.source m.target, t = s.move _ _ hr := by
  generalize hms : done ++ [m] = ms at h
  cases h with
  | nil => exact absurd hms (List.append_ne_nil_of_right_ne_nil _ (List.cons_ne_nil _ _))
  | snoc h hfree hr =>
    obtain ⟨rfl, hm⟩ := List.append_inj' hms rfl
    obtain rfl := List.singleton_inj.1 hm
    exact ⟨_, h, hfree, hr, rfl⟩

/-- Each source is at its target, less the other sources that were below it, and nothing else is
changed. -/
structure Relocated (fs t : FileSystem) (ms : List Move) : Prop where
  there : ∀ m ∈ ms, ∀ rest, t.get (m.target ++ rest) =
    if ∃ m' ∈ ms, m.source ≠ m'.source ∧ m.source <+: m'.source ∧ m'.source <+: m.source ++ rest then none
    else fs.get (m.source ++ rest)
  away : ∀ p, (∀ m ∈ ms, ¬ m.target <+: p) → t.get p = if ∃ m ∈ ms, m.source <+: p then none else fs.get p

/-- Some of the sources or of what was below them may be at their targets, some may be gone. -/
structure Scattered (fs t : FileSystem) (ms : List Move) : Prop where
  there : ∀ m ∈ ms, ∀ rest, t.get (m.target ++ rest) = none ∨ t.get (m.target ++ rest) = fs.get
    (m.source ++ rest)
  away : ∀ p, (∀ m ∈ ms, ¬ m.target <+: p) → t.get p = none ∨ t.get p = fs.get p

variable {ms done : List Move} {m m' : Move} {rest : Path}

theorem Batch.of_append {more : List Move} (hb : Batch fs dir (done ++ more)) : Batch fs dir done where
  source m hm := hb.source m (List.mem_append_left _ hm)
  target m hm := hb.target m (List.mem_append_left _ hm)
  free m hm := hb.free m (List.mem_append_left _ hm)
  distinct m hm m' hm' := hb.distinct m (List.mem_append_left _ hm) m' (List.mem_append_left _ hm')

theorem Batch.target_not_above (hb : Batch fs dir ms) (hm : m ∈ ms) (hp : fs.get p ≠ none) : ¬ m.target <+: p :=
  fun hle => get_above_ne_none hp hle (hb.free m hm)

theorem Batch.target_eq (hb : Batch fs dir ms) (hm : m ∈ ms) (hm' : m' ∈ ms)
    (hle : m.target <+: m'.target ++ rest) :
    m.target = m'.target := by
  obtain ⟨n, hn⟩ := hb.target m hm
  obtain ⟨n', hn'⟩ := hb.target m' hm'
  have hlen : m.target.length = m'.target.length := by
    rw [hn, hn', List.length_append, List.length_append, List.length_singleton, List.length_singleton]
  exact (List.prefix_of_prefix_length_le hle (List.prefix_append _ rest) hlen.le).eq_of_length hlen

/-- A source that is not above the directory is not above what comes into it. -/
theorem Batch.source_not_above (hb : Batch fs dir ms) (hm : m ∈ ms) (hm' : m' ∈ ms)
    (hdir : ¬ m.source <+: dir) :
    ¬ m.source <+: m'.target ++ rest := by
  intro hle
  rcases List.prefix_or_prefix_of_prefix hle (List.prefix_append m'.target rest) with hle | hle
  · obtain ⟨n, hn⟩ := hb.target m' hm'
    rw [hn, List.prefix_concat_iff, ← hn] at hle
    rcases hle with heq | hle
    · exact hb.source m hm (heq ▸ hb.free m' hm')
    · exact hdir hle
  · exact hb.target_not_above hm' (hb.source m hm) hle

theorem Batch.target_not_above_source (hb : Batch fs dir ms) (hm : m ∈ ms) (hm' : m' ∈ ms)
    (hdir : ¬ m.source <+: dir) : ¬ m'.target <+: m.source ++ rest := by
  intro hle
  rcases List.prefix_or_prefix_of_prefix hle (List.prefix_append m.source rest) with hle | hle
  · exact hb.target_not_above hm' (hb.source m hm) hle
  · have hnot : ¬ m.source <+: m'.target ++ [] := hb.source_not_above hm hm' hdir
    rw [List.append_nil] at hnot
    exact hnot hle

theorem Batch.not_above_dir (hb : Batch fs dir ms) (hm : m ∈ ms) (hle : ¬ m.source <+: m.target) :
    ¬ m.source <+: dir := by
  obtain ⟨n, hn⟩ := hb.target m hm
  rw [hn] at hle
  exact not_prefix_concat hle

/-! #### What is where after the renames -/

theorem relocated_nil : Relocated fs fs [] where
  there := nofun
  away p _ := by rw [if_neg (fun ⟨m, hm, _⟩ => absurd hm List.not_mem_nil)]

theorem Relocated.target_ne_none (h : Relocated fs t done) (hb : Batch fs dir done) (hm : m ∈ done) :
    t.get m.target ≠ none := by
  have hthere := h.there m hm []
  rw [List.append_nil, List.append_nil, if_neg] at hthere
  · rw [hthere]
    exact hb.source m hm
  · rintro ⟨m', -, hne, hle, hle'⟩
    exact hne (hle.eq_of_length (Nat.le_antisymm hle.length_le hle'.length_le))

/-- What was there still is, exactly if no source was above it. -/
theorem Relocated.get_of_ne_none (h : Relocated fs t done) (hb : Batch fs dir done) (hp : fs.get p ≠ none) :
    t.get p = if ∃ m ∈ done, m.source <+: p then none else fs.get p :=
  h.away p fun _ hm => hb.target_not_above hm hp

theorem Relocated.snoc (h : Relocated fs t done) (hb : Batch fs dir (done ++ [m]))
    (hfree : t.get m.target = none)
    (hr : t.Renames m.source m.target) : Relocated fs (t.move m.source m.target hr) (done ++ [m]) := by
  have hmem : m ∈ done ++ [m] := List.mem_append_right _ (List.mem_singleton_self m)
  have hsub : ∀ m' ∈ done, m' ∈ done ++ [m] := fun m' hm' => List.mem_append_left _ hm'
  have hbd : Batch fs dir done := hb.of_append
  have hdir : ¬ m.source <+: dir := hb.not_above_dir hmem (hr.not_above hfree)
  -- The source is still there, so none of those before was above it.
  have hkept : ∀ m' ∈ done, ¬ m'.source <+: m.source := fun m' hm' hle => by
    have hget := h.get_of_ne_none hbd (hb.source m hmem)
    rw [if_pos ⟨m', hm', hle⟩] at hget
    exact hr.source hget
  refine ⟨fun m' hm' rest => ?_, fun p hp => ?_⟩
  · rcases List.mem_append.1 hm' with hm' | hm'
    · have hne : ¬ m.target <+: m'.target ++ rest := fun hle => by
        have heq := hb.target_eq hmem (hsub m' hm') hle
        exact h.target_ne_none hbd hm' (heq ▸ hfree)
      rw [get_move, moved_of_not_above hne (hb.source_not_above hmem (hsub m' hm') hdir), h.there m' hm' rest]
      refine if_congr ?_ rfl rfl
      simp only [List.mem_append, List.mem_singleton, or_and_right, exists_or, exists_eq_left]
      exact ⟨.inl, fun hor => hor.resolve_right fun hlast => hkept m' hm' hlast.2.1⟩
    · obtain rfl := List.mem_singleton.1 hm'
      have hnot : ∀ d ∈ done, ¬ d.target <+: m'.source ++ rest := fun d hd =>
        hb.target_not_above_source hmem (hsub d hd) hdir
      rw [get_move, moved_append, h.away _ hnot]
      refine if_congr ⟨?_, ?_⟩ rfl rfl
      · rintro ⟨d, hd, hle⟩
        have hbelow : m'.source <+: d.source :=
          (List.prefix_or_prefix_of_prefix hle (List.prefix_append _ rest)).resolve_left (hkept d hd)
        exact ⟨d, hsub d hd, fun heq => hkept d hd (heq ▸ List.prefix_refl _), hbelow, hle⟩
      · rintro ⟨d, hd, hne, -, hle⟩
        rcases List.mem_append.1 hd with hd | hd
        · exact ⟨d, hd, hle⟩
        · exact absurd (congrArg Move.source (List.mem_singleton.1 hd)).symm hne
  · rw [List.forall_mem_append, List.forall_mem_singleton] at hp
    by_cases hs : m.source <+: p
    · rw [get_move, moved_source hp.2 hs, if_pos ⟨m, hmem, hs⟩]
    · rw [get_move, moved_of_not_above hp.2 hs, h.away p hp.1]
      refine if_congr ?_ rfl rfl
      simp only [List.mem_append, List.mem_singleton, or_and_right, exists_or, exists_eq_left, hs, or_false]

/-- So it is after all of a row. -/
theorem Ran.relocated (h : Ran fs done t) (hb : Batch fs dir done) : Relocated fs t done := by
  induction h with
  | nil => exact relocated_nil
  | snoc _ hfree hr ih => exact (ih hb.of_append).snoc hb hfree hr

/-! #### While they are made and undone -/

theorem scattered_refl (hb : Batch fs dir ms) : Scattered fs fs ms where
  there m hm rest := .inl (get_below_eq_none (hb.free m hm) rest)
  away _ _ := .inr rfl

theorem Scattered.move (h : Scattered fs t ms) (hb : Batch fs dir ms) (hm : m ∈ ms)
    (hdir : ¬ m.source <+: dir)
    (hr : t.Renames m.source m.target) : Scattered fs (t.move m.source m.target hr) ms := by
  refine ⟨fun m' hm' rest => ?_, fun p hp => ?_⟩
  · by_cases hle : m.target <+: m'.target ++ rest
    · obtain rfl := hb.distinct m hm m' hm' (hb.target_eq hm hm' hle)
      rw [get_move, moved_append]
      exact h.away _ fun d hd => hb.target_not_above_source hm hd hdir
    · rw [get_move, moved_of_not_above hle (hb.source_not_above hm hm' hdir)]
      exact h.there m' hm' rest
  · by_cases hs : m.source <+: p
    · exact .inl (moved_source (hp m hm) hs)
    · rw [get_move, moved_of_not_above (hp m hm) hs]
      exact h.away p hp

theorem Scattered.moveBack (h : Scattered fs t ms) (hb : Batch fs dir ms) (hm : m ∈ ms)
    (hdir : ¬ m.source <+: dir)
    (hr : t.Renames m.target m.source) : Scattered fs (t.move m.target m.source hr) ms := by
  refine ⟨fun m' hm' rest => ?_, fun p hp => ?_⟩
  · have hsource : ¬ m.source <+: m'.target ++ rest := hb.source_not_above hm hm' hdir
    by_cases hle : m.target <+: m'.target ++ rest
    · exact .inl (moved_source hsource hle)
    · rw [get_move, moved_of_not_above hsource hle]
      exact h.there m' hm' rest
  · by_cases hs : m.source <+: p
    · obtain ⟨rest, rfl⟩ := hs
      rw [get_move, moved_append]
      exact h.there m hm rest
    · rw [get_move, moved_of_not_above hs (hp m hm)]
      exact h.away p hp

/-- What is at a target stays there when another is undone. -/
theorem Batch.target_kept (hb : Batch fs dir ms) (hm : m ∈ ms) (hm' : m' ∈ ms) (hdir : ¬ m'.source <+: dir)
    (hne : m ≠ m') (hr : t.Renames m'.target m'.source) :
    (t.move m'.target m'.source hr).get m.target = t.get m.target := by
  have hsource : ¬ m'.source <+: m.target ++ [] := hb.source_not_above hm' hm hdir
  have htarget : ¬ m'.target <+: m.target ++ [] := fun hle =>
    hne (hb.distinct m' hm' m hm (hb.target_eq hm' hm hle)).symm
  rw [List.append_nil] at hsource htarget
  rw [get_move, moved_of_not_above hsource htarget]

/-- What was there is there, or nothing is. -/
theorem Scattered.get_of_ne_none (h : Scattered fs t ms) (hb : Batch fs dir ms) (hp : fs.get p ≠ none) :
    t.get p = none ∨ t.get p = fs.get p :=
  h.away p fun _ hm => hb.target_not_above hm hp

theorem Ran.scattered (h : Ran fs done t) (hb : Batch fs dir ms) (hsub : ∀ m ∈ done, m ∈ ms) :
    Scattered fs t ms := by
  induction h with
  | nil => exact scattered_refl hb
  | snoc _ hfree hr ih =>
    rw [List.forall_mem_append, List.forall_mem_singleton] at hsub
    exact (ih hsub.1).move hb hsub.2 (hb.not_above_dir hsub.2 (hr.not_above hfree)) hr

/-- What has been renamed is not above the directory. -/
theorem Ran.not_above_dir (h : Ran fs done t) (hb : Batch fs dir done) : ∀ m ∈ done, ¬ m.source <+: dir := by
  induction h with
  | nil => nofun
  | @snoc done t m _ hfree hr ih =>
    rw [List.forall_mem_append, List.forall_mem_singleton]
    have hlast : m ∈ done ++ [m] := List.mem_append_right _ (List.mem_singleton_self m)
    exact ⟨ih hb.of_append, hb.not_above_dir hlast (hr.not_above hfree)⟩

end FileSystem

end ManyAiCli.Files
