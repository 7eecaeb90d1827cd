import ManyAiCli.Files.Tree

/-! Does the guard of the file handlers judge where a path really leads? It judges the place
that `filepath.EvalSymlinks` finds for the path, else the one it finds for the directory
with the last name, else the path as it is written. -/

namespace ManyAiCli.Hub.PathGuard

open Files FileSystem

/-- Of a path from the root; its first byte is the slash. -/
def isWindowsPath (p : Path) : Bool := p.head?.bind (·.head?) = some ':'

variable (lower : Char → Char) (fs : FileSystem)

/-- Of clean paths; `lower` is `unicode.ToLower`. -/
def isUnder (target base : Path) : Bool :=
  if isWindowsPath base || isWindowsPath target then
    (base.map (·.map lower)).isPrefixOf (target.map (·.map lower))
  else base.isPrefixOf target

def evalSymlinksViaSelf (cleaned : Path) : Path × Bool :=
  match fs.evalSymlinks cleaned with
  | some r => (r, true)
  | none =>
    match fs.evalSymlinks cleaned.dropLast, cleaned.getLast? with
    | some rp, some base => (rp ++ [base], true)
    | _, _ => (cleaned, false)

/-- Nothing is relative to a root that is not absolute. -/
def isPathUnderAllowedRoots (target : List Char) (allowedRoots : List (List Char)) : Bool :=
  let cleaned := clean target
  let (r, ok) := evalSymlinksViaSelf fs cleaned
  let resolved := if ok then r else cleaned
  allowedRoots.any fun root =>
    root ≠ [] && isAbs root && isUnder lower resolved (evalSymlinksViaSelf fs (clean root)).1

/-- The place where the target leads, if it leads to one, is that of a root or below it. -/
def Covered (target : List Char) (allowedRoots : List (List Char)) : Prop :=
  ∀ loc, fs.Reaches [] (names target) loc →
    ∃ root ∈ allowedRoots, ∃ rootLoc, fs.Reaches [] (names root) rootLoc ∧ rootLoc <+: loc

/-- A path that the guard can judge. -/
structure Plain (s : List Char) : Prop where
  /-- `filepath.Clean` does not change where it leads. -/
  cleaned : ∀ loc, fs.Reaches [] (names s) loc ↔ fs.Reaches [] (clean s) loc
  /-- It exists, or only its last name is missing, or there is no link on its way. -/
  resolved : fs.evalSymlinks (clean s) ≠ none ∨
    (∃ dir base, clean s = dir ++ [base] ∧ ∃ loc, fs.evalSymlinks dir = some loc ∧ fs.get (loc ++ [base]) = none) ∨
    ∀ q, q <+: clean s → ¬ fs.isLink q
  /-- It does not lead below a directory of the root that is named like a drive. -/
  drive : ∀ loc, fs.Reaches [] (clean s) loc → isWindowsPath loc = false

variable {lower fs} {s target : List Char} {allowedRoots : List (List Char)}

theorem evalSymlinksViaSelf_concat {dir : Path} {base : Name} (h : fs.evalSymlinks (dir ++ [base]) = none) :
    (evalSymlinksViaSelf fs (dir ++ [base])).1 =
      ((fs.evalSymlinks dir).map fun rp => rp ++ [base]).getD (dir ++ [base]) := by
  unfold evalSymlinksViaSelf
  rw [h, List.dropLast_concat, List.getLast?_concat]
  cases fs.evalSymlinks dir <;> rfl

theorem judged_eq (p : Path) : (if (evalSymlinksViaSelf fs p).2 then (evalSymlinksViaSelf fs p).1 else p) =
    (evalSymlinksViaSelf fs p).1 := by
  unfold evalSymlinksViaSelf
  split
  · rfl
  · split <;> rfl

theorem isPathUnderAllowedRoots_eq : isPathUnderAllowedRoots lower fs target allowedRoots =
    allowedRoots.any fun root => root ≠ [] && isAbs root &&
      isUnder lower (evalSymlinksViaSelf fs (clean target)).1 (evalSymlinksViaSelf fs (clean root)).1 := by
  show (allowedRoots.any fun root => root ≠ [] && isAbs root &&
    isUnder lower (if (evalSymlinksViaSelf fs (clean target)).2 then (evalSymlinksViaSelf fs (clean target)).1
      else clean target) (evalSymlinksViaSelf fs (clean root)).1) = _
  rw [judged_eq]

end ManyAiCli.Hub.PathGuard
