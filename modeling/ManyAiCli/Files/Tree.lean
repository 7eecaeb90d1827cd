import Mathlib.Data.List.Infix
import ManyAiCli.Text.Cut

/-! Trees of directories, files and symbolic links, absolute paths in them, and where a path
leads when its links are followed. Names are compared as they are. -/

namespace ManyAiCli.Files

abbrev Name := List Char

/-- The names from the root on. -/
abbrev Path := List Name

inductive Node
  | dir
  | file (content : List Char)
  | link (target : List Char)
  deriving DecidableEq, Repr

structure FileSystem where
  get : Path → Option Node
  root : get [] = some .dir
  /-- What is there is in a directory. -/
  parent : ∀ p n, get (p ++ [n]) ≠ none → get p = some .dir

/-- `filepath.IsAbs`. -/
def isAbs (s : List Char) : Bool := s.head? = some '/'

/-- The names between the slashes, with the empty ones and the dots. -/
def names (s : List Char) : List Name := s.splitOn '/'

def cleanName (p : Path) (n : Name) : Path :=
  if n = [] ∨ n = ['.'] then p else if n = ['.', '.'] then p.dropLast else p ++ [n]

/-- `filepath.Clean` of an absolute path. -/
def clean (s : List Char) : Path := (names s).foldl cleanName []

/-- A clean path as text. -/
def pathText (p : Path) : List Char := if p = [] then ['/'] else ['/'].intercalate ([] :: p)

/-- `filepath.Base`. -/
def base (p : Path) : Name := p.getLast?.getD ['/']

/-- `filepath.Join`. -/
def join (dir : Path) (name : List Char) : Path := (names name).foldl cleanName dir

/-- The name of a directory entry. -/
def IsEntry (n : Name) : Prop := n ≠ [] ∧ n ≠ ['.'] ∧ n ≠ ['.', '.']

/-- Where a link at a place takes up its target. -/
def linkBase (dest : Path) (target : List Char) : Path := if isAbs target then [] else dest

namespace FileSystem

variable (fs : FileSystem)

def isLink (p : Path) : Prop := ∃ target, fs.get p = some (.link target)

/-- From a place without links, the names lead to a place when each link on the way is
followed, the last one too. What is missing is taken by its name. -/
inductive Reaches : Path → List Name → Path → Prop
  | done (dest : Path) : Reaches dest [] dest
  | stay {dest : Path} {n : Name} {rest : List Name} {loc : Path} (hn : n = [] ∨ n = ['.'])
      (h : Reaches dest rest loc) : Reaches dest (n :: rest) loc
  | up {dest : Path} {rest : List Name} {loc : Path} (h : Reaches dest.dropLast rest loc) :
      Reaches dest (['.', '.'] :: rest) loc
  | entry {dest : Path} {n : Name} {rest : List Name} {loc : Path} (hn : IsEntry n)
      (hl : ¬ fs.isLink (dest ++ [n])) (h : Reaches (dest ++ [n]) rest loc) : Reaches dest (n :: rest) loc
  | follow {dest : Path} {n : Name} {rest : List Name} {loc : Path} {target : List Char} (hn : IsEntry n)
      (hl : fs.get (dest ++ [n]) = some (.link target))
      (h : Reaches (linkBase dest target) (names target ++ rest) loc) : Reaches dest (n :: rest) loc

/-- The part of `filepath.EvalSymlinks` up to the next link, from where `next` goes on. -/
def walkSegment (next : Path → List Name → Option Path) : Path → List Name → Option Path
  | dest, [] => some dest
  | dest, n :: rest =>
    if n = [] ∨ n = ['.'] then walkSegment next dest rest
    else if n = ['.', '.'] then walkSegment next dest.dropLast rest
    else match fs.get (dest ++ [n]) with
      | none => none
      | some .dir => walkSegment next (dest ++ [n]) rest
      | some (.file _) => if rest = [] then some (dest ++ [n]) else none
      | some (.link target) => next (linkBase dest target) (names target ++ rest)

/-- With so many links at most. -/
def walk : ℕ → Path → List Name → Option Path
  | 0 => fs.walkSegment fun _ _ => none
  | links + 1 => fs.walkSegment (walk links)

/-- `filepath.EvalSymlinks` of a clean path. -/
def evalSymlinks (p : Path) : Option Path := fs.walk 255 [] p

/-- A tree of the listed entries. -/
def valid (es : List (Path × Node)) : Bool :=
  es.all fun e => e.1 ≠ [] && (e.1.dropLast = [] || es.lookup e.1.dropLast = some .dir)

def ofEntries (es : List (Path × Node)) (h : valid es = true) : FileSystem where
  get p := if p = [] then some .dir else es.lookup p
  root := if_pos rfl
  parent p n hp := by
    rw [if_neg (List.append_ne_nil_of_right_ne_nil p (List.cons_ne_nil n []))] at hp
    obtain ⟨v, hv⟩ := Option.ne_none_iff_exists'.1 hp
    have hmem : (p ++ [n], v) ∈ es := by
      obtain ⟨l₁, l₂, rfl, -⟩ := List.lookup_eq_some_iff.1 hv
      exact List.mem_append_right _ (List.mem_cons_self ..)
    have hall := List.all_eq_true.1 h _ hmem
    rw [Bool.and_eq_true, Bool.or_eq_true, List.dropLast_concat] at hall
    rcases hall.2 with hnil | hdir
    · exact if_pos (of_decide_eq_true hnil)
    · by_cases hp0 : p = []
      · exact if_pos hp0
      · rw [if_neg hp0]
        exact of_decide_eq_true hdir

/-! ### Where a path leads -/

variable {fs} {dest loc loc' mid : Path} {n : Name} {rest ns ms : List Name} {target : List Char}

theorem isEntry_iff : IsEntry n ↔ ¬ (n = [] ∨ n = ['.']) ∧ n ≠ ['.', '.'] := by
  simp only [IsEntry, not_or, and_assoc]

/-- A path leads to one place at most. -/
theorem Reaches.unique (h : fs.Reaches dest ns loc) (h' : fs.Reaches dest ns loc') : loc = loc' := by
  induction h generalizing loc' with
  | done dest =>
    cases h'
    rfl
  | stay hn _ ih =>
    cases h' with
    | stay _ h' => exact ih h'
    | up => rcases hn with hn | hn <;> cases hn
    | entry he => exact absurd hn (isEntry_iff.1 he).1
    | follow he => exact absurd hn (isEntry_iff.1 he).1
  | up _ ih =>
    cases h' with
    | stay hn => rcases hn with hn | hn <;> cases hn
    | up h' => exact ih h'
    | entry he => exact absurd rfl he.2.2
    | follow he => exact absurd rfl he.2.2
  | entry he hl _ ih =>
    cases h' with
    | stay hn => exact absurd hn (isEntry_iff.1 he).1
    | up => exact absurd rfl he.2.2
    | entry _ _ h' => exact ih h'
    | follow _ hl' => exact absurd ⟨_, hl'⟩ hl
  | follow he hl _ ih =>
    cases h' with
    | stay hn => exact absurd hn (isEntry_iff.1 he).1
    | up => exact absurd rfl he.2.2
    | entry _ hl' => exact absurd ⟨_, hl⟩ hl'
    | follow _ hl' h' =>
      obtain rfl := Node.link.inj (Option.some.inj (hl.symm.trans hl'))
      exact ih h'

theorem Reaches.append (h : fs.Reaches dest ns mid) (h' : fs.Reaches mid ms loc) :
    fs.Reaches dest (ns ++ ms) loc := by
  induction h with
  | done dest => exact h'
  | stay hn _ ih => exact .stay hn (ih h')
  | up _ ih => exact .up (ih h')
  | entry hn hl _ ih => exact .entry hn hl (ih h')
  | follow hn hl _ ih =>
    have hrest := ih h'
    rw [List.append_assoc] at hrest
    exact .follow hn hl hrest

/-- Without links on the way, entries lead where they say. -/
theorem reaches_of_no_link (hns : ∀ n ∈ ns, IsEntry n) (hl : ∀ q, q <+: dest ++ ns → ¬ fs.isLink q) :
    fs.Reaches dest ns (dest ++ ns) := by
  induction ns generalizing dest with
  | nil =>
    rw [List.append_nil]
    exact .done dest
  | cons n ns ih =>
    have happ : dest ++ n :: ns = dest ++ [n] ++ ns := by simp
    rw [happ] at hl ⊢
    refine .entry (hns n (List.mem_cons_self ..)) (hl _ (List.prefix_append ..)) ?_
    exact ih (fun m hm => hns m (List.mem_cons_of_mem n hm)) hl

theorem reaches_of_walkSegment {next : Path → List Name → Option Path}
    (hnext : ∀ dest rest loc, next dest rest = some loc → fs.Reaches dest rest loc)
    (h : fs.walkSegment next dest ns = some loc) : fs.Reaches dest ns loc := by
  induction ns generalizing dest with
  | nil =>
    obtain rfl := Option.some.inj h
    exact .done _
  | cons n rest ih =>
    rw [walkSegment] at h
    by_cases hstay : n = [] ∨ n = ['.']
    · rw [if_pos hstay] at h
      exact .stay hstay (ih h)
    · rw [if_neg hstay] at h
      by_cases hup : n = ['.', '.']
      · rw [if_pos hup] at h
        subst hup
        exact .up (ih h)
      · rw [if_neg hup] at h
        have hn : IsEntry n := isEntry_iff.2 ⟨hstay, hup⟩
        split at h
        · cases h
        · rename_i hdir
          exact .entry hn (fun ⟨_, hl⟩ => by rw [hdir] at hl; cases hl) (ih h)
        · rename_i hfile
          split_ifs at h with hrest
          obtain rfl := Option.some.inj h
          subst hrest
          exact .entry hn (fun ⟨_, hl⟩ => by rw [hfile] at hl; cases hl) (.done _)
        · rename_i hlink
          exact .follow hn hlink (hnext _ _ _ h)

theorem reaches_of_walk {links : ℕ} (h : fs.walk links dest ns = some loc) : fs.Reaches dest ns loc := by
  induction links generalizing dest ns loc with
  | zero => exact reaches_of_walkSegment (fun _ _ _ h => by cases h) h
  | succ links ih => exact reaches_of_walkSegment (fun _ _ _ h => ih h) h

theorem reaches_of_evalSymlinks {p : Path} (h : fs.evalSymlinks p = some loc) : fs.Reaches [] p loc :=
  reaches_of_walk h

end FileSystem

/-! ### Clean paths -/

theorem isEntry_of_mem_cleanName {p : Path} (hp : ∀ m ∈ p, IsEntry m) {n : Name} :
    ∀ m ∈ cleanName p n, IsEntry m := by
  intro m hm
  unfold cleanName at hm
  split_ifs at hm with hstay hup
  · exact hp m hm
  · exact hp m (List.dropLast_subset p hm)
  · rcases List.mem_append.1 hm with hm | hm
    · exact hp m hm
    · obtain rfl := List.mem_singleton.1 hm
      exact FileSystem.isEntry_iff.2 ⟨hstay, hup⟩

theorem isEntry_of_mem_clean {s : List Char} : ∀ n ∈ clean s, IsEntry n := by
  have hfold : ∀ (ns : List Name) (p : Path), (∀ m ∈ p, IsEntry m) → ∀ m ∈ ns.foldl cleanName p, IsEntry m := by
    intro ns
    induction ns with
    | nil => exact fun p hp => hp
    | cons n ns ih => exact fun p hp => ih (cleanName p n) (isEntry_of_mem_cleanName hp)
  exact hfold (names s) [] fun m hm => nomatch hm

/-- A name that is not passed over. -/
def isStep (n : Name) : Bool := n ≠ [] ∧ n ≠ ['.']

theorem IsEntry.isStep {n : Name} (h : IsEntry n) : isStep n = true := decide_eq_true ⟨h.1, h.2.1⟩

namespace FileSystem

variable {fs : FileSystem} {dest loc : Path} {ns ms : List Name}

end FileSystem

theorem clean_eq_filter {s : List Char} (h : ['.', '.'] ∉ names s) : clean s = (names s).filter isStep := by
  have hfold : ∀ (ns : List Name) (p : Path), ['.', '.'] ∉ ns → ns.foldl cleanName p = p ++ ns.filter isStep := by
    intro ns
    induction ns with
    | nil => simp
    | cons n ns ih =>
      intro p hns
      rw [List.mem_cons, not_or] at hns
      rw [List.foldl_cons, ih _ hns.2, cleanName]
      by_cases hn : n = [] ∨ n = ['.']
      · rw [if_pos hn, List.filter_cons_of_neg]
        rcases hn with rfl | rfl <;> decide
      · rw [if_neg hn, if_neg (Ne.symm hns.1), List.filter_cons_of_pos, List.append_assoc, List.singleton_append]
        simpa [isStep, not_or] using hn
  exact hfold (names s) [] h

theorem no_slash_of_mem_clean {s : List Char} {n : Name} (h : n ∈ clean s) : '/' ∉ n := by
  have hfold : ∀ (ns : List Name) (p : Path), ∀ m ∈ ns.foldl cleanName p, m ∈ p ∨ m ∈ ns := by
    intro ns
    induction ns with
    | nil => exact fun p m hm => .inl hm
    | cons n ns ih =>
      intro p m hm
      rcases ih (cleanName p n) m hm with hm | hm
      · unfold cleanName at hm
        split_ifs at hm
        · exact .inl hm
        · exact .inl (List.dropLast_subset p hm)
        · rcases List.mem_append.1 hm with hm | hm
          · exact .inl hm
          · exact .inr (List.mem_singleton.1 hm ▸ List.mem_cons_self ..)
      · exact .inr (List.mem_cons_of_mem n hm)
  rcases hfold (names s) [] n h with hn | hn
  · cases hn
  · exact Text.not_mem_of_mem_splitOn hn

theorem names_singleton {n : Name} (h : '/' ∉ n) : names n = [n] := by
  rw [names, List.splitOn_eq_splitOnP]
  refine List.splitOnP_eq_singleton fun c hc => ?_
  rw [beq_eq_false_iff_ne]
  rintro rfl
  exact h hc

theorem join_entry {n : Name} (hn : IsEntry n) (h : '/' ∉ n) (dir : Path) : join dir n = dir ++ [n] := by
  rw [join, names_singleton h, List.foldl_cons, List.foldl_nil, cleanName,
    if_neg (FileSystem.isEntry_iff.1 hn).1, if_neg hn.2.2]

theorem isAbs_pathText (p : Path) : isAbs (pathText p) = true := by
  cases p <;> rfl

theorem clean_pathText {p : Path} (hp : ∀ n ∈ p, IsEntry n) (hslash : ∀ n ∈ p, '/' ∉ n) : clean (pathText p) = p := by
  cases p with
  | nil => decide
  | cons n p =>
    have hnames : names (pathText (n :: p)) = [] :: n :: p := by
      rw [pathText, if_neg (List.cons_ne_nil n p), names]
      refine List.splitOn_intercalate '/' (fun l hl => ?_) (List.cons_ne_nil _ _)
      rcases List.mem_cons.1 hl with rfl | hl
      · exact List.not_mem_nil
      · exact hslash l hl
    have hup : ['.', '.'] ∉ [] :: n :: p := by
      rw [List.mem_cons, not_or]
      exact ⟨nofun, fun hm => (hp _ hm).2.2 rfl⟩
    rw [clean_eq_filter (hnames ▸ hup), hnames, List.filter_cons_of_neg (by decide), List.filter_eq_self]
    exact fun m hm => (hp m hm).isStep

theorem clean_pathText_clean (s : List Char) : clean (pathText (clean s)) = clean s :=
  clean_pathText isEntry_of_mem_clean fun _ hn => no_slash_of_mem_clean hn

end ManyAiCli.Files
