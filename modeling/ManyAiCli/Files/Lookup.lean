import ManyAiCli.Files.Edits

/-! How the operating system finds the place of a path in a tree with links, where it looks on
the way, and the calls that take such paths. A path leads where it did before as long as every
place that was looked at is what it was, and nowhere once one of them is gone. -/

namespace ManyAiCli.Files

inductive SysError
  | errno (e : Errno)
  | other (text : List Char)
  deriving DecidableEq, Repr

/-- `ELOOP`. -/
def tooManyLinks : SysError := .other "too many levels of symbolic links".toList

namespace FileSystem

variable (fs : FileSystem)

/-- The walk along the names of directories up to the next link, from where `next` goes on. -/
def nameiSegment (next : Path → List Name → Except SysError Path) : Path → List Name → Except SysError Path
  | dest, [] => .ok dest
  | dest, n :: rest =>
    if n = [] ∨ n = ['.'] then nameiSegment next dest rest
    else if n = ['.', '.'] then nameiSegment next dest.dropLast rest
    else match fs.get (dest ++ [n]) with
      | none => .error (.errno .notExist)
      | some .dir => nameiSegment next (dest ++ [n]) rest
      | some (.file _) => .error (.errno .notDir)
      | some (.link target) => next (linkBase dest target) (names target ++ rest)

/-- With so many links at most. -/
def namei : ℕ → Path → List Name → Except SysError Path
  | 0 => fs.nameiSegment fun _ _ => .error tooManyLinks
  | links + 1 => fs.nameiSegment (namei links)

/-- The places that are looked at. -/
def waySegment (next : Path → List Name → List Path) : Path → List Name → List Path
  | _, [] => []
  | dest, n :: rest =>
    if n = [] ∨ n = ['.'] then waySegment next dest rest
    else if n = ['.', '.'] then waySegment next dest.dropLast rest
    else (dest ++ [n]) :: match fs.get (dest ++ [n]) with
      | some .dir => waySegment next (dest ++ [n]) rest
      | some (.link target) => next (linkBase dest target) (names target ++ rest)
      | _ => []

def way : ℕ → Path → List Name → List Path
  | 0 => fs.waySegment fun _ _ => []
  | links + 1 => fs.waySegment (way links)

/-- `MAXSYMLINKS`. -/
def maxSymlinks : ℕ := 40

/-- Where a directory is. -/
def locateDir (p : Path) : Except SysError Path := fs.namei maxSymlinks [] p

def lookups (p : Path) : List Path := fs.way maxSymlinks [] p

/-- Where the last name of a path is; it is not followed. -/
def locate (p : Path) : Except SysError Path :=
  if p = [] then .ok [] else (fs.locateDir p.dropLast).map fun dir => dir ++ [base p]

/-- `os.Lstat`. -/
def lstat (p : Path) : Except SysError Node :=
  match fs.locate p with
  | .error e => .error e
  | .ok loc =>
    match fs.get loc with
    | some node => .ok node
    | none => .error (.errno .notExist)

/-- For places in directories. -/
def renameErrno (src dst : Path) : Errno :=
  if fs.get src = none then .notExist
  else if src = [] ∨ dst = [] then .busy
  else if fs.get dst = some .dir then .exist
  else if fs.get src = some .dir ∧ fs.get dst ≠ none then .notDir
  else .invalid

/-- `os.Rename`; a directory can be renamed to itself by another path to it. -/
def rename (src dst : Path) : Except SysError FileSystem :=
  match fs.locate src with
  | .error e => .error e
  | .ok srcLoc =>
    match fs.locate dst with
    | .error e => .error e
    | .ok dstLoc =>
      if fs.get srcLoc = some .dir ∧ srcLoc = dstLoc ∧ src ≠ dst then .ok fs
      else if h : fs.Renames srcLoc dstLoc then .ok (fs.move srcLoc dstLoc h)
      else .error (.errno (fs.renameErrno srcLoc dstLoc))

/-- `renameat2` with `RENAME_NOREPLACE`, or a look at the target before the rename. -/
def atomicRenameNoReplace (src dst : Path) : Except SysError FileSystem :=
  if (fs.lstat src).isOk ∧ (fs.lstat dst).isOk then .error (.errno .exist) else fs.rename src dst

variable {fs} {t : FileSystem} {dest loc p q src dst : Path} {ns : List Name} {links : ℕ}

/-! ### The way -/

theorem nameiSegment_congr {next next' : Path → List Name → Except SysError Path}
    {wayNext : Path → List Name → List Path}
    (hnext : ∀ dest ns, (∀ w ∈ wayNext dest ns, t.get w = fs.get w) → next' dest ns = next dest ns)
    (h : ∀ w ∈ fs.waySegment wayNext dest ns, t.get w = fs.get w) :
    t.nameiSegment next' dest ns = fs.nameiSegment next dest ns := by
  induction ns generalizing dest with
  | nil => rfl
  | cons n rest ih =>
    rw [waySegment] at h
    rw [nameiSegment, nameiSegment]
    by_cases hstay : n = [] ∨ n = ['.']
    · rw [if_pos hstay] at h ⊢
      rw [if_pos hstay]
      exact ih h
    · rw [if_neg hstay] at h ⊢
      rw [if_neg hstay]
      by_cases hup : n = ['.', '.']
      · rw [if_pos hup] at h ⊢
        rw [if_pos hup]
        exact ih h
      · rw [if_neg hup, List.forall_mem_cons] at h
        rw [if_neg hup, if_neg hup, h.1]
        obtain ⟨-, hrest⟩ := h
        cases hget : fs.get (dest ++ [n]) with
        | none => rfl
        | some node =>
          rw [hget] at hrest
          cases node with
          | dir => exact ih hrest
          | file content => rfl
          | link target => exact hnext _ _ hrest

/-- A path leads where it did as long as the places on its way are what they were. -/
theorem namei_congr (h : ∀ w ∈ fs.way links dest ns, t.get w = fs.get w) :
    t.namei links dest ns = fs.namei links dest ns := by
  induction links generalizing dest ns with
  | zero => exact nameiSegment_congr (fun _ _ _ => rfl) h
  | succ links ih => exact nameiSegment_congr (fun _ _ hw => ih hw) h

theorem nameiSegment_gone {next' : Path → List Name → Except SysError Path}
    {wayNext : Path → List Name → List Path}
    (hnext : ∀ dest ns, (∀ w ∈ wayNext dest ns, t.get w = none ∨ t.get w = fs.get w) →
      (∃ w ∈ wayNext dest ns, t.get w = none) → ∃ e, next' dest ns = .error e)
    (h : ∀ w ∈ fs.waySegment wayNext dest ns, t.get w = none ∨ t.get w = fs.get w)
    (hgone : ∃ w ∈ fs.waySegment wayNext dest ns, t.get w = none) :
    ∃ e, t.nameiSegment next' dest ns = .error e := by
  induction ns generalizing dest with
  | nil =>
    obtain ⟨w, hw, -⟩ := hgone
    exact absurd hw List.not_mem_nil
  | cons n rest ih =>
    rw [waySegment] at h hgone
    rw [nameiSegment]
    by_cases hstay : n = [] ∨ n = ['.']
    · rw [if_pos hstay] at h hgone ⊢
      exact ih h hgone
    · rw [if_neg hstay] at h hgone ⊢
      by_cases hup : n = ['.', '.']
      · rw [if_pos hup] at h hgone ⊢
        exact ih h hgone
      · rw [if_neg hup] at h hgone ⊢
        rw [List.forall_mem_cons] at h
        cases hnow : t.get (dest ++ [n]) with
        | none => exact ⟨_, rfl⟩
        | some node =>
          -- The place is as it was, so one further on is gone.
          have hget : fs.get (dest ++ [n]) = some node := by
            rw [hnow] at h
            exact (h.1.resolve_left nofun).symm
          obtain ⟨w, hw, hnone⟩ := hgone
          have htail := (List.mem_cons.1 hw).resolve_left fun heq => by
            rw [heq, hnow] at hnone
            cases hnone
          rw [hget] at htail h
          cases node with
          | dir => exact ih h.2 ⟨w, htail, hnone⟩
          | file content => exact ⟨_, rfl⟩
          | link target => exact hnext _ _ h.2 ⟨w, htail, hnone⟩

/-- It leads nowhere if one of them is gone. -/
theorem namei_gone (h : ∀ w ∈ fs.way links dest ns, t.get w = none ∨ t.get w = fs.get w)
    (hgone : ∃ w ∈ fs.way links dest ns, t.get w = none) : ∃ e, t.namei links dest ns = .error e := by
  induction links generalizing dest ns with
  | zero => exact nameiSegment_gone (fun _ _ _ hw => absurd hw.choose_spec.1 List.not_mem_nil) h hgone
  | succ links ih => exact nameiSegment_gone (fun _ _ hw hg => ih hw hg) h hgone

theorem get_dropLast_dir (h : fs.get dest = some .dir) : fs.get dest.dropLast = some .dir := by
  rcases List.eq_nil_or_concat' dest with rfl | ⟨pre, n, rfl⟩
  · exact fs.root
  · rw [List.dropLast_concat]
    exact fs.parent pre n (by rw [h]; exact Option.some_ne_none _)

theorem linkBase_dir (h : fs.get dest = some .dir) (target : List Char) :
    fs.get (linkBase dest target) = some .dir := by
  unfold linkBase
  split_ifs
  · exact fs.root
  · exact h

/-- What is found is a directory, and what was looked at is there. -/
theorem nameiSegment_ok {next : Path → List Name → Except SysError Path}
    {wayNext : Path → List Name → List Path}
    (hnext : ∀ dest ns, fs.get dest = some .dir → next dest ns = .ok loc →
      fs.get loc = some .dir ∧ ∀ w ∈ wayNext dest ns, fs.get w ≠ none)
    (hdest : fs.get dest = some .dir) (h : fs.nameiSegment next dest ns = .ok loc) :
    fs.get loc = some .dir ∧ ∀ w ∈ fs.waySegment wayNext dest ns, fs.get w ≠ none := by
  induction ns generalizing dest with
  | nil =>
    cases h
    exact ⟨hdest, nofun⟩
  | cons n rest ih =>
    rw [nameiSegment] at h
    rw [waySegment]
    by_cases hstay : n = [] ∨ n = ['.']
    · rw [if_pos hstay] at h ⊢
      exact ih hdest h
    · rw [if_neg hstay] at h ⊢
      by_cases hup : n = ['.', '.']
      · rw [if_pos hup] at h ⊢
        exact ih (get_dropLast_dir hdest) h
      · rw [if_neg hup] at h ⊢
        rw [List.forall_mem_cons]
        cases hget : fs.get (dest ++ [n]) with
        | none =>
          rw [hget] at h
          cases h
        | some node =>
          rw [hget] at h
          cases node with
          | dir =>
            obtain ⟨hdir, hway⟩ := ih hget h
            exact ⟨hdir, Option.some_ne_none _, hway⟩
          | file content => cases h
          | link target =>
            obtain ⟨hdir, hway⟩ := hnext _ _ (linkBase_dir hdest target) h
            exact ⟨hdir, Option.some_ne_none _, hway⟩

theorem namei_ok (hdest : fs.get dest = some .dir) (h : fs.namei links dest ns = .ok loc) :
    fs.get loc = some .dir ∧ ∀ w ∈ fs.way links dest ns, fs.get w ≠ none := by
  induction links generalizing dest ns with
  | zero =>
    refine nameiSegment_ok (fun _ _ _ hn => ?_) hdest h
    cases hn
  | succ links ih => exact nameiSegment_ok (fun _ _ hd hn => ih hd hn) hdest h

theorem locateDir_ok (h : fs.locateDir p = .ok loc) :
    fs.get loc = some .dir ∧ ∀ w ∈ fs.lookups p, fs.get w ≠ none :=
  namei_ok fs.root h

theorem locateDir_congr (h : ∀ w ∈ fs.lookups p, t.get w = fs.get w) : t.locateDir p = fs.locateDir p :=
  namei_congr h

theorem locateDir_gone (h : ∀ w ∈ fs.lookups p, t.get w = none ∨ t.get w = fs.get w)
    (hgone : ∃ w ∈ fs.lookups p, t.get w = none) : ∃ e, t.locateDir p = .error e :=
  namei_gone h hgone

/-! ### The place of a path -/

theorem locate_ok_iff (hp : p ≠ []) :
    fs.locate p = .ok loc ↔ ∃ dir, fs.locateDir p.dropLast = .ok dir ∧ loc = dir ++ [base p] := by
  rw [locate, if_neg hp]
  cases fs.locateDir p.dropLast with
  | error e => exact ⟨nofun, nofun⟩
  | ok dir =>
    constructor
    · intro h
      cases h
      exact ⟨dir, rfl, rfl⟩
    · rintro ⟨dir', hdir, rfl⟩
      cases hdir
      rfl

theorem locate_concat_ok {n : Name} :
    fs.locate (p ++ [n]) = .ok loc ↔ ∃ dir, fs.locateDir p = .ok dir ∧ loc = dir ++ [n] := by
  rw [locate_ok_iff (List.append_ne_nil_of_right_ne_nil p (List.cons_ne_nil n [])), List.dropLast_concat,
    base,
    List.getLast?_concat]
  rfl

theorem exists_error {α : Type} {x : Except SysError α} (h : ¬ ∃ a, x = .ok a) : ∃ e, x = .error e := by
  cases x with
  | error e => exact ⟨e, rfl⟩
  | ok a => exact absurd ⟨a, rfl⟩ h

theorem locate_congr (h : ∀ w ∈ fs.lookups p.dropLast, t.get w = fs.get w) : t.locate p = fs.locate p := by
  rw [locate, locate, locateDir_congr h]

/-- Where nothing has been put in the place of something else, a path leads where it did or nowhere. -/
theorem locateDir_kept (hweak : ∀ q, fs.get q ≠ none → t.get q = none ∨ t.get q = fs.get q)
    (hp : fs.locateDir p = .ok loc) (ht : ∃ loc', t.locateDir p = .ok loc') : ∀ w ∈ fs.lookups p, t.get w =
      fs.get w := by
  have hthere := (locateDir_ok hp).2
  have hway : ∀ w ∈ fs.lookups p, t.get w = none ∨ t.get w = fs.get w := fun w hw => hweak w (hthere w hw)
  intro w hw
  refine (hway w hw).resolve_left fun hnone => ?_
  obtain ⟨e, he⟩ := locateDir_gone hway ⟨w, hw, hnone⟩
  obtain ⟨loc', hloc'⟩ := ht
  rw [he] at hloc'
  cases hloc'

theorem lstat_isOk (h : fs.locate p = .ok loc) : (fs.lstat p).isOk = true ↔ fs.get loc ≠ none := by
  rw [lstat, h]
  dsimp only
  cases fs.get loc with
  | none => exact ⟨nofun, fun hne => absurd rfl hne⟩
  | some node => exact ⟨fun _ => nofun, fun _ => rfl⟩

theorem lstat_error (h : fs.locate p = .ok loc) {e : SysError} (he : fs.lstat p = .error e) : fs.get loc =
    none := by
  by_contra hne
  have hok := (lstat_isOk h).2 hne
  rw [he] at hok
  cases hok

/-! ### Renames of paths -/

theorem rename_of_renames {srcLoc dstLoc : Path} (hsrc : fs.locate src = .ok srcLoc)
    (hdst : fs.locate dst = .ok dstLoc) (hne : srcLoc ≠ dstLoc) (h : fs.Renames srcLoc dstLoc) :
    fs.rename src dst = .ok (fs.move srcLoc dstLoc h) := by
  rw [rename, hsrc, hdst]
  dsimp only
  rw [if_neg (fun hsame => hne hsame.2.1), dif_pos h]

/-- What a rename has found and done. -/
theorem rename_ok (h : fs.rename src dst = .ok t) : ∃ srcLoc dstLoc, fs.locate src = .ok srcLoc ∧
    fs.locate dst = .ok dstLoc ∧
      (t = fs ∧ srcLoc = dstLoc ∧ fs.get srcLoc ≠ none ∨ ∃ hr : fs.Renames srcLoc dstLoc, t = fs.move srcLoc
        dstLoc hr) := by
  unfold rename at h
  cases hsrc : fs.locate src with
  | error e =>
    rw [hsrc] at h
    cases h
  | ok srcLoc =>
    cases hdst : fs.locate dst with
    | error e =>
      rw [hsrc, hdst] at h
      cases h
    | ok dstLoc =>
      rw [hsrc, hdst] at h
      dsimp only at h
      refine ⟨srcLoc, dstLoc, rfl, rfl, ?_⟩
      split_ifs at h with hsame hr
      · cases h
        exact .inl ⟨rfl, hsame.2.1, by rw [hsame.1]; exact Option.some_ne_none _⟩
      · cases h
        exact .inr ⟨hr, rfl⟩

theorem rename_error_of_src (h : ∃ e, fs.locate src = .error e) (dst : Path) : ∃ e, fs.rename src dst =
    .error e := by
  obtain ⟨e, he⟩ := h
  rw [rename, he]
  exact ⟨e, rfl⟩

theorem rename_error_of_dst (src : Path) (h : ∃ e, fs.locate dst = .error e) : ∃ e, fs.rename src dst =
    .error e := by
  obtain ⟨e, he⟩ := h
  rw [rename]
  cases fs.locate src with
  | error e' => exact ⟨e', rfl⟩
  | ok srcLoc =>
    rw [he]
    exact ⟨e, rfl⟩

theorem atomicRenameNoReplace_of_renames {srcLoc dstLoc : Path} (hsrc : fs.locate src = .ok srcLoc)
    (hdst : fs.locate dst = .ok dstLoc) (hfree : fs.get dstLoc = none) (h : fs.Renames srcLoc dstLoc) :
    fs.atomicRenameNoReplace src dst = .ok (fs.move srcLoc dstLoc h) := by
  have hnot : ¬ (fs.lstat dst).isOk = true := fun hok => (lstat_isOk hdst).1 hok hfree
  rw [atomicRenameNoReplace, if_neg (fun hboth => hnot hboth.2)]
  exact rename_of_renames hsrc hdst (fun heq => h.source (heq ▸ hfree)) h

/-- It goes to a free place, if it goes. -/
theorem atomicRenameNoReplace_ok (h : fs.atomicRenameNoReplace src dst = .ok t) : ∃ srcLoc dstLoc,
    fs.locate src = .ok srcLoc ∧ fs.locate dst = .ok dstLoc ∧ fs.get dstLoc = none ∧
      ∃ hr : fs.Renames srcLoc dstLoc, t = fs.move srcLoc dstLoc hr := by
  unfold atomicRenameNoReplace at h
  split_ifs at h with hboth
  obtain ⟨srcLoc, dstLoc, hsrc, hdst, hcases⟩ := rename_ok h
  have hfree : fs.get srcLoc ≠ none → fs.get dstLoc = none := fun hs => by
    by_contra hd
    exact hboth ⟨(lstat_isOk hsrc).2 hs, (lstat_isOk hdst).2 hd⟩
  rcases hcases with ⟨-, rfl, hs⟩ | ⟨hr, rfl⟩
  · exact absurd (hfree hs) hs
  · exact ⟨srcLoc, dstLoc, hsrc, hdst, hfree hr.source, hr, rfl⟩

end FileSystem

end ManyAiCli.Files
