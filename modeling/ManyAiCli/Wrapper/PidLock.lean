import ManyAiCli.Runs.Machine
import ManyAiCli.Runs.Ownership

/-! The PID lock files of the wrappers, beside `opencode.json` and Codex's `config.toml`.
Every call of the file system is a step of its own, and processes end between any two of
them. The calls succeed, other than where a file exists or is missing; the write of the
PID may fail. -/

namespace ManyAiCli.Wrapper.PidLock

open Runs

/-- `prepareOpenCodeConfig` and `withCodexConfigFileLock`. -/
inductive Mode
  | openCode
  | codex
  deriving DecidableEq, Repr

/-- How many times the lock is tried. -/
def attempts : Mode → ℕ
  | .openCode => 2
  | .codex => 50

/-- In nanoseconds. -/
def lockStaleAfter : ℕ := 1800000000000

/-- The lock file: who created it, unless that was before the run, and the PID in it if it
has one. -/
structure LockFile where
  creator : Option ℕ
  pid : Option ℕ
  modTime : ℕ
  deriving DecidableEq, Repr

/-- The process that created the file writes its PID. -/
def LockFile.written (f : LockFile) (i pid now : ℕ) : LockFile :=
  if f.creator = some i then { f with pid := some pid, modTime := now } else f

@[simp] theorem LockFile.written_creator (f : LockFile) (i pid now : ℕ) :
    (f.written i pid now).creator = f.creator := by
  unfold LockFile.written
  split_ifs <;> rfl

/-- The next step of a process; `C` are the contents of the config file. -/
inductive Pc (C : Type*)
  | idle
  | opening (left : ℕ)
  | reading (left : ℕ)
  | checking (left pid : ℕ)
  | statting (left : ℕ)
  | stealing (left : ℕ)
  /-- The lock file has been created. -/
  | writingPid
  | locked
  | merged (orig : Option C) (data : C)
  /-- The session runs, and its cleanup comes after. -/
  | running (orig : Option C)
  | releasing
  deriving DecidableEq, Repr

/-- Between acquiring the lock and releasing it. -/
def Pc.holds {C : Type*} : Pc C → Bool
  | .writingPid | .locked | .merged _ _ | .running _ | .releasing => true
  | _ => false

structure Proc (C : Type*) where
  pid : ℕ
  permission : String
  alive : Bool
  pc : Pc C
  deriving DecidableEq, Repr

structure State (C : Type*) where
  procs : List (Proc C)
  lock : Option LockFile
  config : Option C
  now : ℕ
  deriving DecidableEq, Repr

inductive Action (C : Type*)
  | launch (pid : ℕ) (permission : String)
  /-- A process ends, wherever it is. -/
  | crash (i : ℕ)
  | tick (d : ℕ)
  | start (i : ℕ)
  | openLock (i : ℕ)
  | readLock (i : ℕ)
  /-- `foreign`: the PID is that of a process outside. -/
  | processAlive (i : ℕ) (foreign : Bool)
  | statLock (i : ℕ)
  | stealRemove (i : ℕ)
  | writePid (i : ℕ) (ok : Bool)
  | readConfig (i : ℕ)
  | writeConfig (i : ℕ)
  | restore (i : ℕ)
  /-- What `fn` writes, and its end. -/
  | fnWrite (i : ℕ) (content : C)
  | fnReturn (i : ℕ)
  | release (i : ℕ)
  deriving DecidableEq, Repr

namespace State

variable {C : Type*} (mode : Mode) (s : State C)

/-- Before the run there may be a lock file of a process that is gone. -/
def initial (leftover : Option (Option ℕ × ℕ)) (config : Option C) (now : ℕ) : State C :=
  ⟨[], leftover.map fun f => ⟨none, f.1, f.2⟩, config, now⟩

def setPc (i : ℕ) (pc : Pc C) : State C := { s with procs := s.procs.modify i ({ · with pc := pc }) }

/-- The step of a live process, by the place it is at. -/
def ifLive (i : ℕ) (f : Proc C → Pc C → Option (State C)) : Option (State C) :=
  match s.procs[i]? with
  | some p => if p.alive then f p p.pc else none
  | none => none

/-! ### `tryStealOpenCodeLock` and `tryStealCodexConfigLock` -/

/-- Without a steal Codex sleeps and goes on, OpenCode gives up. -/
def notStolen (left : ℕ) : Pc C :=
  match mode with
  | .openCode => .idle
  | .codex => .opening left

def readLock (i : ℕ) : Option (State C) :=
  s.ifLive i fun _ pc => match pc with
    | .reading left =>
      match s.lock.bind (·.pid) with
      | some pid => some (s.setPc i (.checking left pid))
      | none => some (s.setPc i (.statting left))
    | _ => none

def isAlive (pid : ℕ) : Bool := s.procs.any fun p => p.alive && p.pid = pid

def processAlive (i : ℕ) (foreign : Bool) : Option (State C) :=
  s.ifLive i fun _ pc => match pc with
    | .checking left pid =>
      some (s.setPc i (if foreign || s.isAlive pid then notStolen mode left else .stealing left))
    | _ => none

def statLock (i : ℕ) : Option (State C) :=
  s.ifLive i fun _ pc => match pc with
    | .statting left =>
      match s.lock with
      | none => some (s.setPc i (notStolen mode left))
      | some f =>
        some (s.setPc i (if s.now - f.modTime ≤ lockStaleAfter then notStolen mode left else .stealing left))
    | _ => none

/-- The file is removed by its path. -/
def stealRemove (i : ℕ) : Option (State C) :=
  s.ifLive i fun _ pc => match pc with
    | .stealing left => some { s.setPc i (.opening left) with lock := none }
    | _ => none

/-! ### The lock -/

def start (i : ℕ) : Option (State C) :=
  s.ifLive i fun _ pc => match pc with
    | .idle => some (s.setPc i (.opening (attempts mode)))
    | _ => none

/-- `O_CREATE|O_EXCL`. OpenCode steals after its first try only. -/
def openLock (i : ℕ) : Option (State C) :=
  s.ifLive i fun _ pc => match pc with
    | .opening 0 => some (s.setPc i .idle)
    | .opening (left + 1) =>
      match s.lock with
      | none => some { s.setPc i .writingPid with lock := some ⟨some i, none, s.now⟩ }
      | some _ => some (s.setPc i (if mode = .openCode ∧ left = 0 then .idle else .reading left))
    | _ => none

/-- The PID goes to the file that was opened, which may be gone from the path. OpenCode
gives up when the write fails, Codex does not look. -/
def writePid (i : ℕ) (ok : Bool) : Option (State C) :=
  s.ifLive i fun p pc => match pc with
    | .writingPid =>
      if ok then
        some { s.setPc i .locked with lock := s.lock.map fun f => f.written i p.pid s.now }
      else some (s.setPc i (if mode = .openCode then .releasing else .locked))
    | _ => none

/-- The file is removed by its path. -/
def release (i : ℕ) : Option (State C) :=
  s.ifLive i fun _ pc => match pc with
    | .releasing => some { s.setPc i .idle with lock := none }
    | _ => none

/-! ### The config file -/

/-- `merge` is the content with the permission set, `none` if it is not a JSON object. -/
def readConfig (merge : String → Option C → Option C) (i : ℕ) : Option (State C) :=
  s.ifLive i fun p pc => match pc with
    | .locked =>
      if mode = .openCode then
        match merge p.permission s.config with
        | some data => some (s.setPc i (.merged s.config data))
        | none => some (s.setPc i .releasing)
      else none
    | _ => none

def writeConfig (i : ℕ) : Option (State C) :=
  s.ifLive i fun _ pc => match pc with
    | .merged orig data => some { s.setPc i (.running orig) with config := some data }
    | _ => none

/-- A file that was not there is removed. -/
def restore (i : ℕ) : Option (State C) :=
  s.ifLive i fun _ pc => match pc with
    | .running orig => some { s.setPc i .releasing with config := orig }
    | _ => none

def fnWrite (i : ℕ) (content : C) : Option (State C) :=
  s.ifLive i fun _ pc => match pc with
    | .locked => if mode = .codex then some { s with config := some content } else none
    | _ => none

def fnReturn (i : ℕ) : Option (State C) :=
  s.ifLive i fun _ pc => match pc with
    | .locked => if mode = .codex then some (s.setPc i .releasing) else none
    | _ => none

/-! ### Processes -/

/-- No two live processes have one PID. -/
def launch (pid : ℕ) (permission : String) : Option (State C) :=
  if 0 < pid ∧ s.isAlive pid = false then some { s with procs := s.procs ++ [⟨pid, permission, true, .idle⟩] }
  else none

def crash (i : ℕ) : Option (State C) :=
  s.ifLive i fun _ _ => some { s with procs := s.procs.modify i ({ · with alive := false }) }

end State

variable {C : Type*}

def move (mode : Mode) (merge : String → Option C → Option C) (s : State C) : Action C → Option (State C)
  | .launch pid permission => s.launch pid permission
  | .crash i => s.crash i
  | .tick d => some { s with now := s.now + d }
  | .start i => s.start mode i
  | .openLock i => s.openLock mode i
  | .readLock i => s.readLock i
  | .processAlive i foreign => s.processAlive mode i foreign
  | .statLock i => s.statLock mode i
  | .stealRemove i => s.stealRemove i
  | .writePid i ok => s.writePid mode i ok
  | .readConfig i => s.readConfig mode merge i
  | .writeConfig i => s.writeConfig i
  | .restore i => s.restore i
  | .fnWrite i content => s.fnWrite mode i content
  | .fnReturn i => s.fnReturn mode i
  | .release i => s.release i

/-- There are no events. -/
def step (mode : Mode) (merge : String → Option C → Option C) (s : State C) (a : Action C) :
    Option (State C × List Empty) := (move mode merge s a).map fun t => (t, [])

end ManyAiCli.Wrapper.PidLock
