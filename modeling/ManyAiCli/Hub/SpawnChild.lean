import ManyAiCli.Hub.Board
import ManyAiCli.Runs.Machine

/-! Spawning child sessions. A request takes a snapshot of the parent and of the
counts, waits for a confirmation, checks the limits on the snapshot and starts a
wrapper; the child is in the session map only when that wrapper has registered. A
child that timed out is started again without these checks. Each step below is one
stretch of a goroutine under a lock, so requests, registrations and the ends of
wrappers interleave at every place where the locks are free. -/

namespace ManyAiCli.Hub.Spawn

structure OrchestrationConfig where
  maxDepth : ℕ
  maxChildrenPerParent : ℕ
  maxTotalSessions : ℕ
  maxTimeoutRespawns : ℕ
  deriving DecidableEq, Repr

inductive SessionState
  | standby
  | running
  | waiting
  | completed
  | error
  | disconnected
  | done
  | timeout
  | dismissed
  deriving DecidableEq, Repr

def isTerminalSessionState : SessionState → Bool
  | .completed | .error | .disconnected | .done | .timeout | .dismissed => true
  | .standby | .running | .waiting => false

/-- What a spawn leaves for the wrapper with its label; the zero value for other
wrappers. The Hub itself forgets `force`. -/
structure PendingChild where
  parentSessionID : ℕ
  role : List Char
  depth : ℕ
  force : Bool
  deriving DecidableEq, Repr

def PendingChild.none : PendingChild := ⟨0, [], 0, false⟩

structure Session where
  id : ℕ
  label : String
  parentSessionID : ℕ
  role : List Char
  depth : ℕ
  force : Bool
  state : SessionState
  deriving DecidableEq, Repr

/-- A child in the books of a board. -/
structure OrchestrationChild where
  board : String
  id : ℕ
  parentID : ℕ
  role : List Char
  timeoutRetries : ℕ
  deriving DecidableEq, Repr

inductive Phase
  /-- With the snapshot of the request: the parent's depth and the counts. -/
  | confirming (depth childCount totalSessions : ℕ)
  | prepared (board : String)
  /-- The wrapper has been started; it should register with the label. -/
  | waiting (board label : String)
  | done
  deriving DecidableEq, Repr

/-- A request for a child, or the restart of a child that timed out. -/
structure Job where
  parentID : ℕ
  role : List Char
  force : Bool
  childDepth : ℕ
  retries : ℕ
  phase : Phase
  deriving DecidableEq, Repr

/-- A wrapper that has its session ID but is not in the session map yet. -/
structure Arriving where
  id : ℕ
  label : String
  child : Option PendingChild
  reattached : Bool
  deriving DecidableEq, Repr

structure State where
  sessions : List Session
  /-- The sessions with a wrapper connected. -/
  wrappers : List ℕ
  nextID : ℕ
  pending : List (String × PendingChild)
  arriving : List Arriving
  jobs : List Job
  children : List OrchestrationChild
  deriving DecidableEq, Repr

def State.empty : State := ⟨[], [], 0, [], [], [], []⟩

structure HttpErrorResp where
  status : ℕ
  error : String
  detail : String
  deriving DecidableEq, Repr

inductive SpawnError
  | role
  | parent
  | refused
  | depth
  | childrenPerParent
  | totalSessions
  | duplicateRole (live : ℕ) (role : String)
  deriving DecidableEq, Repr

def SpawnError.resp : SpawnError → HttpErrorResp
  | role => ⟨400, "bad_request", "role is required"⟩
  | parent => ⟨404, "not_found", "parent session not found"⟩
  | refused => ⟨403, "spawn_refused", "child spawn was refused by the user"⟩
  | depth => ⟨429, "orchestration_limit", "max orchestration depth reached"⟩
  | childrenPerParent => ⟨429, "orchestration_limit", "max children per parent reached"⟩
  | totalSessions => ⟨429, "orchestration_limit", "max total sessions reached"⟩
  | duplicateRole live name => ⟨409, "duplicate_role_child",
      "live child #" ++ toString live ++ " already exists for role \"" ++ name ++
        "\"; use `many-ai-cli orchestrate send --role " ++ name ++
        " \"<text>\"` to instruct it, or pass --force to spawn another"⟩

inductive Action
  | spawnChild (parentID : ℕ) (role : List Char) (force : Bool)
  | decide (j : ℕ) (board : String) (approved : Bool)
  /-- The preparation of a request's board and worktree fails. -/
  | abort (j : ℕ)
  | dispatch (j : ℕ) (label : String)
  /-- The wrapper could not be started, or did not register in time. -/
  | fail (j : ℕ)
  | finish (j : ℕ)
  | respawn (board : String) (sessionID : ℕ)
  /-- Another kind of spawn takes a label, or gives it back. -/
  | reserve (label : String)
  | unreserve (label : String)
  | connect (label : String)
  | lookup (i : ℕ)
  | reattach (sessionID : ℕ) (label : String)
  | register (i : ℕ)
  /-- Output, idleness or an approval on the screen. -/
  | activity (sessionID : ℕ) (state : SessionState)
  /-- The process ends, its work is done or it times out. -/
  | markState (sessionID : ℕ) (state : SessionState)
  | rename (sessionID : ℕ) (label : String)
  /-- A connection ends; `own` when it is still the session's wrapper. -/
  | disconnect (sessionID : ℕ) (own : Bool)
  | dismiss (sessionID : ℕ)
  deriving DecidableEq, Repr

inductive Event
  /-- A child spawned here is in the session map, which holds `total` sessions now. -/
  | spawned (total : ℕ)
  | failed (err : SpawnError)
  deriving DecidableEq, Repr

/-! ### Reading the session map -/

namespace State

variable (cfg : OrchestrationConfig) (s : State)

def childCount (parentID : ℕ) : ℕ := s.sessions.countP fun ses => ses.parentSessionID = parentID

def orchestrationParentState (parentID : ℕ) : Option Session × ℕ × ℕ :=
  (s.sessions.find? fun ses => ses.id = parentID, s.childCount parentID, s.sessions.length)

/-- The session is not at its end and its wrapper is connected. -/
def live (ses : Session) : Bool := !isTerminalSessionState ses.state && s.wrappers.contains ses.id

def laterChild (found : Option Session) (ses : Session) : Option Session :=
  match found with
  | none => some ses
  | some f => if ses.id > f.id then some ses else some f

/-- The live child of the role with the largest ID. -/
def liveChildForRole (parentID : ℕ) (role : List Char) : Option Session :=
  (s.sessions.filter fun ses => ses.parentSessionID = parentID && ses.role = role && s.live ses).foldl
    laterChild none

def putPending (label : String) (child : PendingChild) : State :=
  { s with pending := (label, child) :: s.pending.filter fun p => p.1 ≠ label }

def dropPending (label : String) : State :=
  { s with pending := s.pending.filter fun p => p.1 ≠ label }

def setPhase (j : ℕ) (phase : Phase) : State :=
  { s with jobs := s.jobs.modify j fun job => { job with phase := phase } }

def setSession (sessionID : ℕ) (f : Session → Session) : State :=
  { s with sessions := s.sessions.map fun ses => if ses.id = sessionID then f ses else ses }

/-! ### Requests -/

def resolveChildRole (role : List Char) : Option (List Char) :=
  if Text.trimSpace role = [] then none
  else if sanitizeRole role = [] then none
  else some (sanitizeRole role)

def spawnChild (parentID : ℕ) (role : List Char) (force : Bool) : State × List Event :=
  match resolveChildRole role with
  | none => (s, [.failed .role])
  | some role =>
    match s.orchestrationParentState parentID with
    | (none, _, _) => (s, [.failed .parent])
    | (some parent, childCount, totalSessions) =>
      let phase := .confirming parent.depth childCount totalSessions
      ({ s with jobs := s.jobs ++ [⟨parentID, role, force, parent.depth + 1, 0, phase⟩] }, [])

/-- The checks after the confirmation: the limits on the snapshot, the live child
in the state at hand. -/
def checkSpawn (job : Job) (depth childCount totalSessions : ℕ) (approved : Bool) : Option SpawnError :=
  if !approved then some .refused
  else if depth ≥ cfg.maxDepth then some .depth
  else if childCount ≥ cfg.maxChildrenPerParent then some .childrenPerParent
  else if totalSessions ≥ cfg.maxTotalSessions then some .totalSessions
  else if job.force then none
  else (s.liveChildForRole job.parentID job.role).map fun live =>
    .duplicateRole live.id (String.ofList job.role)

def decide (j : ℕ) (board : String) (approved : Bool) : Option (State × List Event) :=
  match s.jobs[j]? with
  | some job =>
    match job.phase with
    | .confirming depth childCount totalSessions =>
      match s.checkSpawn cfg job depth childCount totalSessions approved with
      | some err => some (s.setPhase j .done, [.failed err])
      | none => some (s.setPhase j (.prepared board), [])
    | _ => none
  | none => none

def abort (j : ℕ) : Option (State × List Event) :=
  match s.jobs[j]? with
  | some job =>
    match job.phase with
    | .prepared _ => if job.retries = 0 then some (s.setPhase j .done, []) else none
    | _ => none
  | none => none

def dispatch (j : ℕ) (label : String) : Option (State × List Event) :=
  match s.jobs[j]? with
  | some job =>
    match job.phase with
    | .prepared board =>
      some ((s.putPending label ⟨job.parentID, job.role, job.childDepth, job.force⟩).setPhase j
        (.waiting board label), [])
    | _ => none
  | none => none

def fail (j : ℕ) : Option (State × List Event) :=
  match s.jobs[j]? with
  | some job =>
    match job.phase with
    | .waiting _ label => some ((s.dropPending label).setPhase j .done, [])
    | _ => none
  | none => none

/-- The wait for the label has found a session: the child enters the board's books. -/
def finish (j : ℕ) : Option (State × List Event) :=
  match s.jobs[j]? with
  | some job =>
    match job.phase with
    | .waiting board label =>
      match s.sessions.find? fun ses => ses.label = label with
      | some ses =>
        let child := ⟨board, ses.id, job.parentID, job.role, job.retries⟩
        let others := s.children.filter fun c => !(c.board = board && c.id = ses.id)
        some ({ s with children := child :: others }.setPhase j .done, [])
      | none => none
    | _ => none
  | none => none

/-- The retries are used up at once, so that the child is not started twice; no
limit is checked. -/
def respawnTimedOutChild (board : String) (sessionID : ℕ) : State × List Event :=
  match s.children.find? fun c => c.board = board && c.id = sessionID with
  | none => (s, [])
  | some child =>
    if cfg.maxTimeoutRespawns = 0 ∨ child.timeoutRetries ≥ cfg.maxTimeoutRespawns then (s, [])
    else
      let job := ⟨child.parentID, child.role, false, 1, child.timeoutRetries + 1, .prepared board⟩
      let latched := s.children.map fun c =>
        if c.board = board && c.id = sessionID then { c with timeoutRetries := cfg.maxTimeoutRespawns }
        else c
      ({ s with children := latched, jobs := s.jobs ++ [job] }, [])

/-! ### Wrappers -/

def connect (label : String) : State × List Event :=
  ({ s with nextID := s.nextID + 1, arriving := s.arriving ++ [⟨s.nextID + 1, label, none, false⟩] }, [])

def lookup (i : ℕ) : Option (State × List Event) :=
  match s.arriving[i]? with
  | some ⟨id, label, none, reattached⟩ =>
    let child := if label = "" then PendingChild.none
      else (s.pending.lookup label).getD PendingChild.none
    some ({ s.dropPending label with arriving := s.arriving.set i ⟨id, label, some child, reattached⟩ }, [])
  | _ => none

/-- A wrapper comes back with the ID it had, or gets a new one if that is in use. -/
def reattach (sessionID : ℕ) (label : String) : State × List Event :=
  if sessionID = 0 then (s, []) else
  let acceptedID := if s.wrappers.contains sessionID then s.nextID + 1 else sessionID
  ({ s with
    nextID := max s.nextID acceptedID
    arriving := s.arriving ++ [⟨acceptedID, label, some PendingChild.none, true⟩] }, [])

/-- The session map without an ID. -/
def without (sessionID : ℕ) : State :=
  { s with sessions := s.sessions.filter fun ses => ses.id ≠ sessionID }

def register (i : ℕ) : Option (State × List Event) :=
  match s.arriving[i]? with
  | some ⟨id, label, some child, reattached⟩ =>
    let state := if reattached then .running else .standby
    let ses := ⟨id, label, child.parentSessionID, child.role, child.depth, child.force, state⟩
    let sessions := (s.without id).sessions ++ [ses]
    some (
      { s with
        sessions := sessions
        wrappers := id :: s.wrappers
        nextID := if reattached then max s.nextID id else s.nextID
        arriving := s.arriving.eraseIdx i },
      if child.parentSessionID = 0 then [] else [.spawned sessions.length])
  | _ => none

def activity (sessionID : ℕ) (state : SessionState) : Option (State × List Event) :=
  if isTerminalSessionState state then none else
  some (s.setSession sessionID fun ses =>
    if isTerminalSessionState ses.state then ses else { ses with state := state }, [])

def markState (sessionID : ℕ) (state : SessionState) : Option (State × List Event) :=
  if isTerminalSessionState state then
    some (s.setSession sessionID fun ses => { ses with state := state }, [])
  else none

def rename (sessionID : ℕ) (label : String) : State × List Event :=
  (s.setSession sessionID fun ses => { ses with label := label }, [])

def disconnect (sessionID : ℕ) (own : Bool) : State × List Event :=
  let s := if own then { s with wrappers := s.wrappers.filter (· ≠ sessionID) } else s
  (s.setSession sessionID fun ses =>
    if isTerminalSessionState ses.state then ses else { ses with state := .disconnected }, [])

def dismiss (sessionID : ℕ) : State × List Event :=
  if s.sessions.any fun ses => ses.id = sessionID then
    ({ s.without sessionID with wrappers := s.wrappers.filter (· ≠ sessionID) }, [])
  else (s, [])

def step (s : State) : Action → Option (State × List Event)
  | .spawnChild parentID role force => some (s.spawnChild parentID role force)
  | .decide j board approved => s.decide cfg j board approved
  | .abort j => s.abort j
  | .dispatch j label => s.dispatch j label
  | .fail j => s.fail j
  | .finish j => s.finish j
  | .respawn board sessionID => some (s.respawnTimedOutChild cfg board sessionID)
  | .reserve label => some (s.putPending label PendingChild.none, [])
  | .unreserve label => some (s.dropPending label, [])
  | .connect label => some (s.connect label)
  | .lookup i => s.lookup i
  | .reattach sessionID label => some (s.reattach sessionID label)
  | .register i => s.register i
  | .activity sessionID state => s.activity sessionID state
  | .markState sessionID state => s.markState sessionID state
  | .rename sessionID label => some (s.rename sessionID label)
  | .disconnect sessionID own => some (s.disconnect sessionID own)
  | .dismiss sessionID => some (s.dismiss sessionID)

end State

end ManyAiCli.Hub.Spawn
