import ManyAiCli.Files.Edits
import ManyAiCli.Hub.PathGuard
import ManyAiCli.Text.Strings

/-! The handlers that rename, delete, move and create, on trees without links. A refusal of
the operating system is one that the tree gives a reason for. -/

namespace ManyAiCli.Hub.FileHandlers

open Files PathGuard

-- What `unicode.ToLower` and the folding of `strings.EqualFold` make of a rune.
variable (lower fold : Char → Char)

/-! ### Checks -/

/-- The next directory upwards with a `.git`, else the directory itself. -/
def findGitRoot (s : Tree) (dir : List Char) : List Char :=
  if isAbs dir then
    (((clean dir).inits.reverse.find? fun q => s.get (q ++ [".git".toList]) = some .dir).map pathText).getD dir
  else dir

/-- Of clean paths. -/
def pathsEqual (a b : Path) : Bool :=
  a = b || ((isWindowsPath a || isWindowsPath b) && decide (a.map (·.map fold) = b.map (·.map fold)))

def isSafeBasename (name : List Char) : Bool :=
  if name = [] ∨ name = ['.'] ∨ name = ['.', '.'] then false
  else if name.any fun c => c = '/' || c = '\\' then false
  else if name.contains ':' then false
  else true

def previewableTextExtensions : List String :=
  [".txt", ".md", ".markdown", ".rst", ".log", ".json", ".jsonl", ".yaml", ".yml", ".toml", ".ini",
   ".cfg", ".conf", ".env", ".csv", ".tsv", ".xml", ".html", ".htm", ".css", ".scss", ".sass", ".less",
   ".js", ".mjs", ".cjs", ".jsx", ".ts", ".tsx", ".vue", ".go", ".rs", ".py", ".rb", ".php", ".java",
   ".kt", ".kts", ".c", ".cc", ".cpp", ".cxx", ".h", ".hh", ".hpp", ".cs", ".sh", ".bash", ".zsh",
   ".fish", ".ps1", ".psm1", ".bat", ".cmd", ".sql", ".graphql", ".gql", ".proto", ".diff", ".patch",
   ".gitignore", ".gitattributes", ".editorconfig"]

def previewableTextBasenames : List String :=
  ["dockerfile", "makefile", "readme", "license", "changelog", "notice"]

/-- `filepath.Ext` of a name. -/
def ext (name : Name) : List Char :=
  if name.contains '.' then '.' :: (name.reverse.takeWhile (· ≠ '.')).reverse else []

def isTextFile (p : Path) : Bool :=
  (previewableTextExtensions.any fun e => Text.toLower (ext (base p)) = e.toList) ||
    previewableTextBasenames.any fun b => Text.toLower (base p) = b.toList

/-! ### Answers -/

structure FileMoveResult where
  src : List Char
  newAbs : List Char := []
  error : List Char := []
  deriving DecidableEq, Repr

/-- With the fields of every handler's answer. -/
structure Resp where
  status : ℕ := 200
  ok : Bool
  error : List Char := []
  detail : List Char := []
  newAbs : List Char := []
  results : List FileMoveResult := []
  deriving DecidableEq, Repr

/-- An answer that is not OK. -/
structure Refusal where
  status : ℕ
  error : List Char
  detail : List Char
  deriving DecidableEq, Repr

def Refusal.resp (r : Refusal) : Resp := { status := r.status, ok := false, error := r.error, detail := r.detail }

/-- `writeRenameErr`, `writeDeleteDirErr`, `writeMoveErr` and `writeCreateErr`. -/
def writeErr (status : ℕ) (code : String) (detail : List Char) : Refusal := ⟨status, code.toList, detail⟩

def errnoText : Errno → List Char
  | .notExist => "no such file or directory".toList
  | .notDir => "not a directory".toList
  | .exist => "file exists".toList
  | .busy => "device or resource busy".toList
  | .invalid => "invalid argument".toList

/-- `fs.PathError`. -/
def pathError (op : String) (p : Path) (e : Errno) : List Char :=
  op.toList ++ ' ' :: pathText p ++ ": ".toList ++ errnoText e

def errorDetail (detail : String) (err : List Char) : List Char := detail.toList ++ ": ".toList ++ err

def targetExists (p : Path) : List Char := "target already exists: ".toList ++ pathText p

/-- The search is in the whole message, with the paths in it. -/
def fileOperationErrorStatus (msg : List Char) : ℕ × String :=
  let low := Text.toLower msg
  if Text.contains low "forbidden".toList then (403, "forbidden")
  else if Text.contains low "not found".toList then (404, "not_found")
  else if ["already exists", "already in", "duplicate", "overwrite", "descendant"].any
    fun sub => Text.contains low sub.toList then (409, "conflict")
  else if Text.contains low "failed".toList then (500, "operation_failed")
  else (400, "bad_request")

/-- `renameat2` with `RENAME_NOREPLACE`, or a look at the target before the rename. -/
def atomicRenameNoReplace (s : Tree) (src dst : Path) : Except Errno Tree :=
  if s.get src ≠ none ∧ s.get dst ≠ none then .error .exist else s.rename src dst

/-! ### Rename, delete and create -/

def handleFilesRename (s : Tree) (cwd src newName : List Char) : Except Refusal (Tree × Path) :=
  if src = [] ∨ newName = [] then .error (writeErr 400 "bad_request" "src and newName are required".toList)
  else if isAbs src = false then .error (writeErr 400 "bad_request" "src must be an absolute path".toList)
  else if isSafeBasename newName = false then
    .error (writeErr 400 "bad_request" "newName must be a plain file name without path separators".toList)
  else
    let gitRoot := findGitRoot s cwd
    let srcClean := clean src
    if isPathUnderAllowedRoots lower s.toFileSystem (pathText srcClean) [cwd, gitRoot] = false then
      .error (writeErr 403 "forbidden" "src is outside allowed roots".toList)
    else match s.stat srcClean with
      | .error e => .error (writeErr 404 "not_found" (errorDetail "src not found" (pathError "lstat" srcClean e)))
      | .ok _ =>
        if newName = base srcClean then
          .error (writeErr 409 "conflict" "newName is identical to current name".toList)
        else
          let newPath := join srcClean.dropLast newName
          if s.get newPath ≠ none then .error (writeErr 409 "conflict" (targetExists newPath))
          else match atomicRenameNoReplace s srcClean newPath with
            | .error .exist => .error (writeErr 409 "conflict" (targetExists newPath))
            | .error e => .error (writeErr 500 "rename_failed" (errorDetail "rename failed" (errnoText e)))
            | .ok t => .ok (t, newPath)

def handleFilesDeleteDir (s : Tree) (cwd src : List Char) : Except Refusal Tree :=
  if src = [] then .error (writeErr 400 "bad_request" "src is required".toList)
  else if isAbs src = false then .error (writeErr 400 "bad_request" "src must be an absolute path".toList)
  else
    let gitRoot := findGitRoot s cwd
    let srcClean := clean src
    if isPathUnderAllowedRoots lower s.toFileSystem (pathText srcClean) [cwd, gitRoot] = false then
      .error (writeErr 403 "forbidden" "src is outside allowed roots".toList)
    else if pathsEqual fold srcClean (clean cwd) || pathsEqual fold srcClean (clean gitRoot) then
      .error (writeErr 409 "conflict" "refusing to delete an allowed root directory".toList)
    else match s.stat srcClean with
      | .error e => .error (writeErr 404 "not_found" (errorDetail "src not found" (pathError "lstat" srcClean e)))
      | .ok node =>
        if node ≠ .dir then .error (writeErr 400 "bad_request" "src must be a directory".toList)
        else match s.removeAll srcClean with
          | .error e =>
            .error (writeErr 500 "delete_failed" (errorDetail "delete failed" (pathError "unlinkat" srcClean e)))
          | .ok t => .ok t

def handleFilesCreate (s : Tree) (cwd dir name : List Char) : Except Refusal (Tree × Path) :=
  if dir = [] ∨ name = [] then .error (writeErr 400 "bad_request" "dir and name are required".toList)
  else if isAbs dir = false then .error (writeErr 400 "bad_request" "dir must be an absolute path".toList)
  else if isSafeBasename name = false then
    .error (writeErr 400 "bad_request" "name must be a plain file name without path separators".toList)
  else
    let gitRoot := findGitRoot s cwd
    let dirClean := clean dir
    if isPathUnderAllowedRoots lower s.toFileSystem (pathText dirClean) [cwd, gitRoot] = false then
      .error (writeErr 403 "forbidden" "dir is outside allowed roots".toList)
    else match s.stat dirClean with
      | .error e =>
        .error (writeErr 400 "bad_request" (errorDetail "parent directory not found" (pathError "stat" dirClean e)))
      | .ok node =>
        if node ≠ .dir then .error (writeErr 400 "bad_request" "dir must be a directory".toList)
        else
          let newPath := join dirClean name
          if isPathUnderAllowedRoots lower s.toFileSystem (pathText newPath) [cwd, gitRoot] = false then
            .error (writeErr 403 "forbidden" "target is outside allowed roots".toList)
          else if isTextFile newPath = false then
            .error (writeErr 403 "not_previewable" "not a previewable text file".toList)
          else if s.get newPath ≠ none then .error (writeErr 409 "already_exists" (targetExists newPath))
          else match s.create newPath with
            | .error .exist => .error (writeErr 409 "already_exists" (targetExists newPath))
            | .error .notExist => .error (writeErr 400 "bad_request"
                (errorDetail "parent directory not found" (pathError "open" newPath .notExist)))
            | .error e => .error (writeErr 500 "create_failed" (errorDetail "create failed" (pathError "open" newPath e)))
            | .ok t => .ok (t, newPath)

/-! ### Moves -/

structure FileMovePlan where
  srcClean : Path
  newPath : Path
  /-- `SrcInfo.IsDir()`. -/
  isDir : Bool
  deriving DecidableEq, Repr

def planSingleMove (s : Tree) (src : List Char) (dstDirClean : Path) (cwd gitRoot : List Char) :
    Except (List Char) FileMovePlan :=
  if src = [] then .error "src is required".toList
  else if isAbs src = false then .error "src must be an absolute path".toList
  else if isPathUnderAllowedRoots lower s.toFileSystem src [cwd, gitRoot] = false then
    .error "forbidden: src is outside allowed roots".toList
  else
    let srcClean := clean src
    match s.stat srcClean with
    | .error e => .error (errorDetail "src not found" (pathError "lstat" srcClean e))
    | .ok node =>
      if pathsEqual fold srcClean.dropLast dstDirClean then .error "src is already in dstDir".toList
      else if node = .dir ∧ (pathsEqual fold srcClean dstDirClean || isUnder lower dstDirClean srcClean) then
        .error "cannot move a directory into itself or its descendant".toList
      else
        let newPath := join dstDirClean (base srcClean)
        match s.stat newPath with
        | .ok _ => .error (targetExists newPath)
        | .error .notExist => .ok { srcClean := srcClean, newPath := newPath, isDir := decide (node = .dir) }
        | .error e => .error (errorDetail "target check failed" (pathError "lstat" newPath e))

def processSingleMove (s : Tree) (src dstDir cwd gitRoot : List Char) : Except (List Char) (Tree × Path) :=
  match planSingleMove lower fold s src (clean dstDir) cwd gitRoot with
  | .error msg => .error msg
  | .ok plan =>
    match atomicRenameNoReplace s plan.srcClean plan.newPath with
    | .error .exist => .error (targetExists plan.newPath)
    | .error e => .error (errorDetail "rename failed" (errnoText e))
    | .ok t => .ok (t, plan.newPath)

/-- The loop state before the first rename. -/
structure Preflight where
  results : List FileMoveResult := []
  plans : List (Option FileMovePlan) := []
  allOK : Bool := true
  srcSeen : List (Path × ℕ) := []
  targetSeen : List (Path × ℕ) := []

def setError (results : List FileMoveResult) (i : ℕ) (error : List Char) : List FileMoveResult :=
  results.modify i fun r => { r with error := error }

def setErrorIfNone (results : List FileMoveResult) (i : ℕ) (error : List Char) : List FileMoveResult :=
  results.modify i fun r => if r.error = [] then { r with error := error } else r

/-- A key that an entry before has taken is an error of both. -/
def takeKey (results : List FileMoveResult) (seen : List (Path × ℕ)) (key : Path) (i : ℕ) (error : List Char) :
    List FileMoveResult × List (Path × ℕ) × Bool :=
  match seen.lookup key with
  | some prev => (setErrorIfNone (setError results i error) prev error, seen, false)
  | none => (results, (key, i) :: seen, true)

/-- What is kept of a source with the answer of `planSingleMove`. -/
def gatherPlan (pf : Preflight) (src : List Char) : Except (List Char) FileMovePlan → Preflight
  | .error msg =>
    { pf with
      results := pf.results ++ [{ src := src, error := msg }]
      plans := pf.plans ++ [none]
      allOK := false }
  | .ok plan =>
    let i := pf.plans.length
    let bySrc := takeKey (pf.results ++ [{ src := src }]) pf.srcSeen plan.srcClean i "duplicate source path".toList
    let byTarget := takeKey bySrc.1 pf.targetSeen plan.newPath i
      ("multiple sources would overwrite the same target: ".toList ++ pathText plan.newPath)
    { results := byTarget.1
      plans := pf.plans ++ [some plan]
      allOK := pf.allOK && bySrc.2.2 && byTarget.2.2
      srcSeen := bySrc.2.1
      targetSeen := byTarget.2.1 }

def preflightOne (s : Tree) (dstDirClean : Path) (cwd gitRoot : List Char) (pf : Preflight) (src : List Char) :
    Preflight :=
  match planSingleMove lower fold s src dstDirClean cwd gitRoot with
  | .error msg =>
    { pf with
      results := pf.results ++ [{ src := src, error := msg }]
      plans := pf.plans ++ [none]
      allOK := false }
  | .ok plan =>
    let i := pf.plans.length
    let bySrc := takeKey (pf.results ++ [{ src := src }]) pf.srcSeen plan.srcClean i "duplicate source path".toList
    let byTarget := takeKey bySrc.1 pf.targetSeen plan.newPath i
      ("multiple sources would overwrite the same target: ".toList ++ pathText plan.newPath)
    { results := byTarget.1
      plans := pf.plans ++ [some plan]
      allOK := pf.allOK && bySrc.2.2 && byTarget.2.2
      srcSeen := bySrc.2.1
      targetSeen := byTarget.2.1 }

/-- The first is a directory with the second below it. -/
def isAncestor (p q : FileMovePlan) : Bool :=
  p.isDir && !pathsEqual fold p.srcClean q.srcClean && isUnder lower q.srcClean p.srcClean

def preflightPair (pf : Preflight) (ij : ℕ × ℕ) : Preflight :=
  match pf.plans[ij.1]?.join, pf.plans[ij.2]?.join with
  | some p, some q =>
    if ij.1 ≠ ij.2 ∧ isAncestor lower fold p q then
      { pf with
        results := setErrorIfNone
          (setErrorIfNone pf.results ij.1 "cannot move a directory together with one of its descendants".toList)
          ij.2 "cannot move a path together with its ancestor directory".toList
        allOK := false }
    else pf
  | _, _ => pf

def preflight (s : Tree) (srcs : List (List Char)) (dstDirClean : Path) (cwd gitRoot : List Char) : Preflight :=
  let pf := srcs.foldl (preflightOne lower fold s dstDirClean cwd gitRoot) {}
  ((List.range srcs.length).product (List.range srcs.length)).foldl (preflightPair lower fold) pf

/-- `os.LinkError`. -/
def rollbackMoves (s : Tree) (plans : List FileMovePlan) : Tree × List (List Char) :=
  plans.reverse.foldl (fun (t, errs) plan =>
    match t.rename plan.newPath plan.srcClean with
    | .ok t' => (t', errs)
    | .error e =>
      let err := "rename ".toList ++ pathText plan.newPath ++ ' ' :: pathText plan.srcClean ++ ": ".toList ++ errnoText e
      (t, errs ++ [pathText plan.newPath ++ " -> ".toList ++ pathText plan.srcClean ++ ": ".toList ++ err])) (s, [])

/-- The renames one after the other; with the first that fails, its message and that of the
rollback. -/
def runMoves (completed : List FileMovePlan) : Tree → List FileMovePlan → Tree × Option (ℕ × List Char × List (List Char))
  | s, [] => (s, none)
  | s, plan :: plans =>
    match atomicRenameNoReplace s plan.srcClean plan.newPath with
    | .ok t => runMoves (completed ++ [plan]) t plans
    | .error e =>
      let msg := if e = .exist then targetExists plan.newPath else errorDetail "rename failed" (errnoText e)
      let (t, rollbackErrs) := rollbackMoves s completed
      (t, some (completed.length, msg, rollbackErrs))

def processMultiMove (s : Tree) (srcs : List (List Char)) (dstDirClean : Path) (cwd gitRoot : List Char) :
    Tree × Resp :=
  let pf := preflight lower fold s srcs dstDirClean cwd gitRoot
  if pf.allOK = false then
    (s, { (writeErr 400 "move_preflight_failed" "move preflight failed".toList).resp with results := pf.results })
  else match runMoves [] s (pf.plans.filterMap id) with
    | (t, some (i, msg, rollbackErrs)) =>
      let errMsg := if rollbackErrs = [] then msg
        else msg ++ "; rollback failed: ".toList ++ "; ".toList.intercalate rollbackErrs
      (t, { (writeErr 400 "rename_failed" errMsg).resp with results := setError pf.results i msg })
    | (t, none) =>
      let results := pf.results.zipWith
        (fun r plan => { r with newAbs := (plan.map fun p : FileMovePlan => pathText p.newPath).getD [] }) pf.plans
      (t, { ok := true, results := results })

/-- The checks that a move of one and of many begin with. -/
def checkDstDir (s : Tree) (cwd dstDir : List Char) : Except Refusal Path :=
  if dstDir = [] then .error (writeErr 400 "bad_request" "dstDir is required".toList)
  else if isAbs dstDir = false then .error (writeErr 400 "bad_request" "dstDir must be an absolute path".toList)
  else if isPathUnderAllowedRoots lower s.toFileSystem dstDir [cwd, findGitRoot s cwd] = false then
    .error (writeErr 403 "forbidden" "dstDir is outside allowed roots".toList)
  else match s.stat (clean dstDir) with
    | .error e =>
      .error (writeErr 404 "not_found" (errorDetail "dstDir not found" (pathError "stat" (clean dstDir) e)))
    | .ok node =>
      if node ≠ .dir then .error (writeErr 400 "bad_request" "dstDir is not a directory".toList)
      else .ok (clean dstDir)

def handleFilesMove (s : Tree) (cwd src dstDir : List Char) (srcs : List (List Char)) : Tree × Resp :=
  let gitRoot := findGitRoot s cwd
  match checkDstDir lower s cwd dstDir with
  | .error refusal => (s, refusal.resp)
  | .ok dstDirClean =>
    if srcs ≠ [] then processMultiMove lower fold s srcs dstDirClean cwd gitRoot
    else if src = [] then (s, (writeErr 400 "bad_request" "src or srcs is required".toList).resp)
    else match processSingleMove lower fold s src dstDir cwd gitRoot with
      | .error msg => (s, (writeErr (fileOperationErrorStatus msg).1 (fileOperationErrorStatus msg).2 msg).resp)
      | .ok (t, newPath) => (t, { ok := true, newAbs := pathText newPath })

/-! ### Requests -/

inductive Request
  | rename (src newName : List Char)
  | deleteDir (src : List Char)
  | move (src dstDir : List Char) (srcs : List (List Char))
  | create (dir name : List Char)

def handle (s : Tree) (cwd : List Char) : Request → Tree × Resp
  | .rename src newName =>
    match handleFilesRename lower s cwd src newName with
    | .error refusal => (s, refusal.resp)
    | .ok (t, newPath) => (t, { ok := true, newAbs := pathText newPath })
  | .deleteDir src =>
    match handleFilesDeleteDir lower fold s cwd src with
    | .error refusal => (s, refusal.resp)
    | .ok t => (t, { ok := true })
  | .move src dstDir srcs => handleFilesMove lower fold s cwd src dstDir srcs
  | .create dir name =>
    match handleFilesCreate lower s cwd dir name with
    | .error refusal => (s, refusal.resp)
    | .ok (t, newPath) => (t, { ok := true, newAbs := pathText newPath })

end ManyAiCli.Hub.FileHandlers
