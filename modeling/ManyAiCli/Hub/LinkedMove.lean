import ManyAiCli.Files.Lookup
import ManyAiCli.Hub.FileChecks

/-! Is a move of many files all or nothing, on trees with links too? The plan is made on the
tree before the first rename; one of the renames may be refused for any reason, and then those
before it are taken back by the paths of the plan. -/

namespace ManyAiCli.Hub.LinkedMove

open Files FileHandlers PathGuard

-- What `unicode.ToLower` and the folding of `strings.EqualFold` make of a rune.
variable (lower fold : Char → Char)

/-! ### The plan -/

def sysErrorText : SysError → List Char
  | .errno e => errnoText e
  | .other text => text

/-- `fs.PathError` of `os.Lstat`. -/
def lstatError (p : Path) (e : SysError) : List Char :=
  "lstat ".toList ++ pathText p ++ ": ".toList ++ sysErrorText e

def planSingleMove (fs : FileSystem) (src : List Char) (dstDirClean : Path) (cwd gitRoot : List Char) :
    Except (List Char) FileMovePlan :=
  if src = [] then .error "src is required".toList
  else if isAbs src = false then .error "src must be an absolute path".toList
  else if isPathUnderAllowedRoots lower fs src [cwd, gitRoot] = false then
    .error "forbidden: src is outside allowed roots".toList
  else
    let srcClean := clean src
    match fs.lstat srcClean with
    | .error e => .error (errorDetail "src not found" (lstatError srcClean e))
    | .ok node =>
      if pathsEqual fold srcClean.dropLast dstDirClean then .error "src is already in dstDir".toList
      else if node = .dir ∧ (pathsEqual fold srcClean dstDirClean || isUnder lower dstDirClean srcClean) then
        .error "cannot move a directory into itself or its descendant".toList
      else
        let newPath := join dstDirClean (base srcClean)
        match fs.lstat newPath with
        | .ok _ => .error (targetExists newPath)
        | .error (.errno .notExist) =>
          .ok { srcClean := srcClean, newPath := newPath, isDir := decide (node = .dir) }
        | .error e => .error (errorDetail "target check failed" (lstatError newPath e))

def preflight (fs : FileSystem) (srcs : List (List Char)) (dstDirClean : Path) (cwd gitRoot : List Char) :
    Preflight :=
  let pf := srcs.foldl (fun pf src => gatherPlan pf src
    (planSingleMove lower fold fs src dstDirClean cwd gitRoot)) {}
  ((List.range srcs.length).product (List.range srcs.length)).foldl (preflightPair lower fold) pf

/-! ### The renames -/

/-- One call of `atomicRenameNoReplace`, with its number, and the one that is refused. -/
def attempt (refused : Option (ℕ × SysError)) (i : ℕ) (fs : FileSystem) (plan : FileMovePlan) :
    Except SysError FileSystem :=
  match refused with
  | some (k, e) => if k = i then .error e else fs.atomicRenameNoReplace plan.srcClean plan.newPath
  | none => fs.atomicRenameNoReplace plan.srcClean plan.newPath

/-- `os.LinkError`. -/
def linkError (plan : FileMovePlan) (e : SysError) : List Char :=
  "rename ".toList ++ pathText plan.newPath ++ ' ' :: pathText plan.srcClean ++ ": ".toList ++ sysErrorText e

def rollbackOne (state : FileSystem × List (List Char)) (plan : FileMovePlan) : FileSystem × List (List Char) :=
  match state.1.rename plan.newPath plan.srcClean with
  | .ok t => (t, state.2)
  | .error e => (state.1, state.2 ++
      [pathText plan.newPath ++ " -> ".toList ++ pathText plan.srcClean ++ ": ".toList ++ linkError plan e])

def rollbackMoves (fs : FileSystem) (plans : List FileMovePlan) : FileSystem × List (List Char) :=
  plans.reverse.foldl rollbackOne (fs, [])

/-- The renames one after the other; with the first that fails, its message and that of the
rollback. -/
def runMoves (refused : Option (ℕ × SysError)) (completed : List FileMovePlan) :
    FileSystem → List FileMovePlan → FileSystem × Option (ℕ × List Char × List (List Char))
  | fs, [] => (fs, none)
  | fs, plan :: plans =>
    match attempt refused completed.length fs plan with
    | .ok t => runMoves refused (completed ++ [plan]) t plans
    | .error e =>
      let msg := if e = .errno .exist then targetExists plan.newPath else errorDetail "rename failed"
        (sysErrorText e)
      let (t, rollbackErrs) := rollbackMoves fs completed
      (t, some (completed.length, msg, rollbackErrs))

def processMultiMove (refused : Option (ℕ × SysError)) (fs : FileSystem) (srcs : List (List Char))
    (dstDirClean : Path) (cwd gitRoot : List Char) : FileSystem × Resp :=
  let pf := preflight lower fold fs srcs dstDirClean cwd gitRoot
  if pf.allOK = false then
    (fs, { (writeErr 400 "move_preflight_failed" "move preflight failed".toList).resp with results :=
      pf.results })
  else match runMoves refused [] fs (pf.plans.filterMap id) with
    | (t, some (i, msg, rollbackErrs)) =>
      let errMsg := if rollbackErrs = [] then msg
        else msg ++ "; rollback failed: ".toList ++ "; ".toList.intercalate rollbackErrs
      (t, { (writeErr 400 "rename_failed" errMsg).resp with results := setError pf.results i msg })
    | (t, none) =>
      let results := pf.results.zipWith
        (fun r plan => { r with newAbs := (plan.map fun p : FileMovePlan => pathText p.newPath).getD [] })
          pf.plans
      (t, { ok := true, results := results })

end ManyAiCli.Hub.LinkedMove
