import ManyAiCli.Files.Relocation

/-! Trees without links and what changes them: a rename, the removal of a subtree, a new
file. Whether a row of such changes stays below some directories, and leaves these where they
are, can be read off what is gone and what is new. -/

namespace ManyAiCli.Files

structure Tree extends FileSystem where
  noLinks : ∀ p, ¬ toFileSystem.isLink p

def Node.isLink : Node → Bool
  | .link _ => true
  | _ => false

/-- A tree of the listed entries. -/
def Tree.ofEntries (es : List (Path × Node)) (h : FileSystem.valid es = true)
    (hl : (es.any fun e => e.2.isLink) = false) : Tree where
  toFileSystem := .ofEntries es h
  noLinks p := by
    rintro ⟨target, hp : (if p = [] then some .dir else es.lookup p) = _⟩
    split_ifs at hp
    · cases hp
    obtain ⟨l₁, l₂, rfl, -⟩ := List.lookup_eq_some_iff.1 hp
    have hno := List.any_eq_false.1 hl _ (List.mem_append_right l₁ (List.mem_cons_self ..))
    exact hno rfl

/-- Why the operating system refuses. -/
inductive Errno
  | notExist
  | notDir
  | exist
  | busy
  | invalid
  deriving DecidableEq, Repr

namespace Tree

variable (s : Tree)

/-- For a place where nothing is. -/
def errno (p : Path) : Errno :=
  if p.inits.any fun q => s.get q ≠ none && s.get q ≠ some .dir then .notDir else .notExist

/-- `os.Lstat` and `os.Stat`. -/
def stat (p : Path) : Except Errno Node :=
  match s.get p with
  | some node => .ok node
  | none => .error (s.errno p)

/-! ### Renames -/

/-- What is at a place after the rename. -/
def moved (src dst p : Path) : Option Node :=
  if dst <+: p then s.get (src ++ p.drop dst.length) else if src <+: p then none else s.get p

structure Renames (src dst : Path) : Prop where
  source : s.get src ≠ none
  srcNotRoot : src ≠ []
  dstNotRoot : dst ≠ []
  target : s.get dst ≠ some .dir
  sameKind : s.get src = some .dir → s.get dst = none
  dir : s.get dst.dropLast = some .dir
  notBelow : src <+: dst → src = dst

instance (src dst : Path) : Decidable (s.Renames src dst) :=
  decidable_of_iff
    (s.get src ≠ none ∧ src ≠ [] ∧ dst ≠ [] ∧ s.get dst ≠ some .dir ∧
      (s.get src = some .dir → s.get dst = none) ∧ s.get dst.dropLast = some .dir ∧ (src <+: dst → src = dst))
    ⟨fun ⟨h₁, h₂, h₃, h₄, h₅, h₆, h₇⟩ => ⟨h₁, h₂, h₃, h₄, h₅, h₆, h₇⟩,
      fun ⟨h₁, h₂, h₃, h₄, h₅, h₆, h₇⟩ => ⟨h₁, h₂, h₃, h₄, h₅, h₆, h₇⟩⟩

def renameErrno (src dst : Path) : Errno :=
  if s.get src = none then s.errno src
  else if src = [] ∨ dst = [] then .busy
  else if s.get dst = some .dir then .exist
  else if s.get src = some .dir ∧ s.get dst ≠ none then .notDir
  else if s.get dst.dropLast ≠ some .dir then s.errno dst
  else .invalid

variable {s} {src dst p q : Path}

/-- As for trees with links. -/
theorem Renames.toFileSystem (h : s.Renames src dst) : s.toFileSystem.Renames src dst :=
  ⟨h.source, h.srcNotRoot, h.dstNotRoot, h.target, h.sameKind, h.dir, h.notBelow⟩

theorem moved_nil (h : s.Renames src dst) : s.moved src dst [] = some .dir := FileSystem.moved_nil h.toFileSystem

theorem moved_parent (h : s.Renames src dst) (p : Path) (n : Name) (hp : s.moved src dst (p ++ [n]) ≠ none) :
    s.moved src dst p = some .dir := FileSystem.moved_parent h.toFileSystem p n hp

theorem moved_eq (src dst p : Path) : s.moved src dst p = none ∨ ∃ q, s.moved src dst p = s.get q := by
  unfold moved
  split_ifs
  · exact .inr ⟨_, rfl⟩
  · exact .inl rfl
  · exact .inr ⟨p, rfl⟩

variable (s) in
def move (src dst : Path) (h : s.Renames src dst) : Tree where
  get := s.moved src dst
  root := moved_nil h
  parent := moved_parent h
  noLinks p := by
    rintro ⟨target, hp : s.moved src dst p = _⟩
    rcases moved_eq (s := s) src dst p with hn | ⟨q, hq⟩
    · rw [hn] at hp
      cases hp
    · exact s.noLinks q ⟨target, hq ▸ hp⟩

variable (s) in
/-- `os.Rename`; it replaces a file. -/
def rename (src dst : Path) : Except Errno Tree :=
  if h : s.Renames src dst then .ok (s.move src dst h) else .error (s.renameErrno src dst)

theorem rename_ok {t : Tree} (h : s.rename src dst = .ok t) :
    s.Renames src dst ∧ ∀ p, t.get p = s.moved src dst p := by
  unfold rename at h
  split_ifs at h with hr
  cases h
  exact ⟨hr, fun _ => rfl⟩

theorem rename_of_renames (h : s.Renames src dst) : s.rename src dst = .ok (s.move src dst h) := dif_pos h

/-! ### Removals and new files -/

variable (s) in
/-- `os.RemoveAll`. -/
def removeAll (p : Path) : Except Errno Tree :=
  if hp : p = [] then .error .busy
  else .ok
    { get := fun q => if p <+: q then none else s.get q
      root := by rw [if_neg (fun h => hp (List.prefix_nil.1 h))]; exact s.root
      parent := fun q n hq => by
        by_cases h : p <+: q ++ [n]
        · rw [if_pos h] at hq
          exact absurd rfl hq
        · rw [if_neg h] at hq
          rw [if_neg (not_prefix_concat h)]
          exact s.parent q n hq
      noLinks := fun q => by
        rintro ⟨target, hq : (if p <+: q then none else s.get q) = _⟩
        split_ifs at hq
        exact s.noLinks q ⟨target, hq⟩ }

theorem removeAll_ok {t : Tree} (h : s.removeAll p = .ok t) :
    ∀ q, t.get q = if p <+: q then none else s.get q := by
  unfold removeAll at h
  split_ifs at h
  cases h
  exact fun _ => rfl

variable (s) in
/-- `os.OpenFile` with `O_CREATE` and `O_EXCL`. -/
def create (p : Path) : Except Errno Tree :=
  if hp : s.get p ≠ none then .error .exist
  else if hdir : s.get p.dropLast = some .dir then .ok
    { get := fun q => if q = p then some (.file []) else s.get q
      root := by
        rw [if_neg (fun h => hp (by rw [← h, s.root]; nofun))]
        exact s.root
      parent := fun q n hq => by
        have hq' : s.get q = some .dir := by
          by_cases h : q ++ [n] = p
          · rwa [← h, List.dropLast_concat] at hdir
          · rw [if_neg h] at hq
            exact s.parent q n hq
        rw [if_neg (fun h => hp (by rw [← h, hq']; nofun))]
        exact hq'
      noLinks := fun q => by
        rintro ⟨target, hq : (if q = p then some (.file []) else s.get q) = _⟩
        split_ifs at hq
        · cases hq
        · exact s.noLinks q ⟨target, hq⟩ }
  else .error (s.errno p)

theorem create_ok {t : Tree} (h : s.create p = .ok t) :
    s.get p = none ∧ ∀ q, t.get q = if q = p then some (.file []) else s.get q := by
  unfold create at h
  split_ifs at h with hp hdir
  cases h
  exact ⟨not_not.1 hp, fun _ => rfl⟩

/-! ### What is gone and what is new -/

/-- All that was at or below some places is gone, but for what has come to other places. -/
structure Edited (s t : Tree) (gone come : List Path) : Prop where
  same : ∀ p, (∀ g ∈ gone, ¬ g <+: p) → (∀ c ∈ come, ¬ c <+: p) → t.get p = s.get p
  goneWas : ∀ g ∈ gone, s.get g ≠ none
  goneIs : ∀ g ∈ gone, ∀ p, g <+: p → (∀ c ∈ come, ¬ c <+: p) → t.get p = none
  comeWas : ∀ c ∈ come, s.get c = none
  comeIs : ∀ c ∈ come, t.get c ≠ none

/-- Nothing changes but below the roots, nothing is replaced, and the roots stay. -/
structure Confined (s t : Tree) (roots : List Path) : Prop where
  inside : ∀ p, t.get p ≠ s.get p → ∃ r ∈ roots, r <+: p
  noOverwrite : ∀ p node, s.get p = some node → t.get p = some node ∨ t.get p = none
  kept : ∀ r ∈ roots, s.get r = some .dir → t.get r = some .dir

variable {t : Tree} {gone come roots : List Path}

/-- What has come is not above what was there. -/
theorem Edited.not_come (h : Edited s t gone come) (hp : s.get p ≠ none) : ∀ c ∈ come, ¬ c <+: p :=
  fun c hc hcp => get_above_ne_none hp hcp (h.comeWas c hc)

theorem Edited.confined_iff (h : Edited s t gone come) : Confined s t roots ↔
    (∀ p ∈ gone ++ come, ∃ r ∈ roots, r <+: p) ∧
      ∀ r ∈ roots, s.get r = some .dir → ∀ g ∈ gone, ¬ g <+: r := by
  constructor
  · intro hc
    refine ⟨fun p hp => hc.inside p ?_, fun r hr hdir g hg hgr => ?_⟩
    · rcases List.mem_append.1 hp with hp | hp
      · have hwas := h.goneWas p hp
        rw [h.goneIs p hp p (List.prefix_refl p) (h.not_come hwas)]
        exact hwas.symm
      · rw [h.comeWas p hp]
        exact h.comeIs p hp
    · have hnone := h.goneIs g hg r hgr (h.not_come (by rw [hdir]; nofun))
      rw [hc.kept r hr hdir] at hnone
      cases hnone
  · rintro ⟨hinside, hkept⟩
    refine ⟨fun p hp => ?_, fun p node hp => ?_, fun r hr hdir => ?_⟩
    · by_contra hout
      have hno : ∀ q ∈ gone ++ come, ¬ q <+: p := fun q hq hqp => by
        obtain ⟨r, hr, hrq⟩ := hinside q hq
        exact hout ⟨r, hr, hrq.trans hqp⟩
      exact hp (h.same p (fun g hg => hno g (List.mem_append_left _ hg))
        (fun c hc => hno c (List.mem_append_right _ hc)))
    · have hnot := h.not_come (p := p) (by rw [hp]; nofun)
      by_cases hg : ∃ g ∈ gone, g <+: p
      · obtain ⟨g, hg, hgp⟩ := hg
        exact .inr (h.goneIs g hg p hgp hnot)
      · push Not at hg
        exact .inl ((h.same p hg hnot).trans hp)
    · rw [h.same r (hkept r hr hdir) (h.not_come (by rw [hdir]; nofun))]
      exact hdir

theorem edited_nil : Edited s s [] [] where
  same _ _ _ := rfl
  goneWas := nofun
  goneIs := nofun
  comeWas := nofun
  comeIs := nofun

/-- One more rename, of something that was there, to a place that has nothing to do with where
the others have come to. -/
theorem Edited.rename {m : Tree} (h : Edited s m gone come) (hr : m.rename src dst = .ok t)
    (hsrc : s.get src ≠ none) (hdst : s.get dst = none) (hfree : ∀ c ∈ come, ¬ dst <+: c ∧ ¬ src <+: c) :
    Edited s t (gone ++ [src]) (come ++ [dst]) := by
  obtain ⟨hcan, hget⟩ := rename_ok hr
  have hstay : ∀ p, ¬ dst <+: p → ¬ src <+: p → t.get p = m.get p := fun p hd hs => by
    rw [hget, moved, if_neg hd, if_neg hs]
  refine ⟨fun p hg hc => ?_, fun g hg => ?_, fun g hg p hgp hc => ?_, fun c hc => ?_, fun c hc => ?_⟩
  · rw [List.forall_mem_append, List.forall_mem_singleton] at hg hc
    rw [hstay p hc.2 hg.2]
    exact h.same p hg.1 hc.1
  · rcases List.mem_append.1 hg with hg | hg
    · exact h.goneWas g hg
    · exact List.mem_singleton.1 hg ▸ hsrc
  · rw [List.forall_mem_append, List.forall_mem_singleton] at hc
    by_cases hs : src <+: p
    · rw [hget, moved, if_neg hc.2, if_pos hs]
    · rw [hstay p hc.2 hs]
      rcases List.mem_append.1 hg with hg | hg
      · exact h.goneIs g hg p hgp hc.1
      · exact absurd (List.mem_singleton.1 hg ▸ hgp) hs
  · rcases List.mem_append.1 hc with hc | hc
    · exact h.comeWas c hc
    · exact List.mem_singleton.1 hc ▸ hdst
  · rcases List.mem_append.1 hc with hc | hc
    · rw [hstay c (hfree c hc).1 (hfree c hc).2]
      exact h.comeIs c hc
    · obtain rfl := List.mem_singleton.1 hc
      rw [hget, moved, if_pos (List.prefix_refl c), List.drop_length, List.append_nil]
      exact hcan.source

theorem edited_rename (hr : s.rename src dst = .ok t) (hdst : s.get dst = none) : Edited s t [src] [dst] :=
  edited_nil.rename hr (rename_ok hr).1.source hdst nofun

theorem edited_removeAll (hp : s.get p ≠ none) (h : s.removeAll p = .ok t) : Edited s t [p] [] := by
  have hget := removeAll_ok h
  refine ⟨fun q hq _ => ?_, fun g hg => ?_, fun g hg q hgq _ => ?_, nofun, nofun⟩
  · rw [hget, if_neg (hq p (List.mem_singleton_self p))]
  · rw [List.mem_singleton.1 hg]
    exact hp
  · rw [hget, if_pos (List.mem_singleton.1 hg ▸ hgq)]

theorem edited_create (h : s.create p = .ok t) : Edited s t [] [p] := by
  obtain ⟨hnone, hget⟩ := create_ok h
  refine ⟨fun q _ hq => ?_, nofun, nofun, fun c hc => ?_, fun c hc => ?_⟩
  · have hne : q ≠ p := fun heq => hq p (List.mem_singleton_self p) (heq ▸ List.prefix_refl q)
    rw [hget, if_neg hne]
  · rw [List.mem_singleton.1 hc]
    exact hnone
  · rw [List.mem_singleton.1 hc, hget, if_pos rfl]
    nofun

end Tree

end ManyAiCli.Files
