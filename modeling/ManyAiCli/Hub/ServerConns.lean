import ManyAiCli.Launcher.ActiveConnections
import ManyAiCli.Runs.Machine
import Mathlib.Data.List.AList

/-! `serverConnManager`: the connections to remote Hubs that the Hub keeps, and their
entries in `launcher-active.json`. A stretch under `mu` is one step, and so is an operation
of the file; the connect handler holds `mu` while it unregisters the connection it replaces.
The operations of the file succeed, and requests that the handlers refuse before they touch
the manager are left out. -/

namespace ManyAiCli.Hub.ServerConns

open Launcher Runs

/-- Where the goroutine of a connection is. -/
inductive Pc
  /-- `runConnection` waits for its connector. -/
  | waiting
  | promoting (hubURL : String)
  /-- In `conns`, and not in the file yet. -/
  | registering
  | watching
  /-- The connection has terminated. -/
  | closing
  | unregistering
  | failing (errMsg : String)
  | done
  deriving DecidableEq, Repr

/-- `serverLiveConn` with its goroutine; `cancelled` is that of its context. -/
structure LiveConn where
  name : String
  hubURL : String
  cancelled : Bool
  pc : Pc
  deriving DecidableEq, Repr

inductive Mode
  | all
  | web
  | disconnect
  deriving DecidableEq, Repr

/-- A disconnect handler or `closeAll` on its way. -/
inductive Task
  /-- What the file has after it has been pruned. -/
  | pruned (name : String) (mode : Mode) (active : List ActiveConnection)
  | cleaning (name : String)
  | cancelling (name : String) (lc : ℕ)
  | unregistering (name : String)
  | closing (lcs : List ℕ)
  | unregisteringAll
  | done
  deriving DecidableEq, Repr

/-- `connecting` is the profile whose old connection the connect handler unregisters while
it holds `mu`, and `closed` that `closeAll` has had `mu`. -/
structure State where
  lcs : List LiveConn
  tasks : List Task
  connectReq : Option String
  connectRes : Option (Except String String)
  inflight : Option ℕ
  conns : AList fun _ : String => ℕ
  connecting : Option String
  closed : Bool
  file : List ActiveConnection

inductive Action
  | connect (name : String)
  | connectUnregister
  /-- The connector of a connection, or its timer or context, comes first. -/
  | arrive (i : ℕ) (hubURL : String)
  | fail (i : ℕ) (errMsg : String)
  | failConnection (i : ℕ)
  | promoteConnection (i : ℕ)
  | register (i : ℕ)
  | terminate (i : ℕ)
  | removeCurrent (i : ℕ)
  | unregister (i : ℕ)
  /-- `alive` and `probe` answer the first step of the disconnect handler. -/
  | disconnect (name : String) (mode : Mode) (alive : ℕ → Bool) (probe : String → Bool)
  | select (k : ℕ)
  | take (k : ℕ)
  | cancelTaken (k : ℕ)
  | unregisterTaken (k : ℕ)
  | closeAll
  | cancelAll (k : ℕ)
  | unregisterAll (k : ℕ)
  /-- The list of profiles is asked for, here or in another process. -/
  | prune (alive : ℕ → Bool) (probe : String → Bool)
  | otherRegisters (pid : ℕ) (profile hubURL : String)
  | otherRemoves (pid : ℕ) (wanted : ActiveConnection → Bool)

namespace State

variable (pid : ℕ) (s : State)

/-- Another process may have entries in the file, this one has none yet. -/
def initial (file : List ActiveConnection) : State := ⟨[], [], none, none, none, ∅, none, false, file⟩

def cancel (i : ℕ) : State := { s with lcs := s.lcs.modify i ({ · with cancelled := true }) }

def setPc (i : ℕ) (pc : Pc) : State := { s with lcs := s.lcs.modify i ({ · with pc }) }

def setTask (k : ℕ) (task : Task) : State := { s with tasks := s.tasks.set k task }

/-! ### `handleServerConnect` -/

/-- What the section of the connect handler ends with. -/
def startConnecting (name : String) : State :=
  { s with
    connectReq := some name
    connectRes := none
    lcs := s.lcs ++ [⟨name, "", false, .waiting⟩]
    inflight := some s.lcs.length
    connecting := none }

def cancelInflight : State :=
  match s.inflight with
  | some i => { s.cancel i with inflight := none }
  | none => s

def connect (name : String) : State :=
  match s.conns.lookup name with
  | some old => { s.cancelInflight.cancel old with conns := s.conns.erase name, connecting := some name }
  | none => s.cancelInflight.startConnecting name

def connectUnregister (name : String) : State :=
  { s with file := unregisterActiveConnection s.file pid name }.startConnecting name

/-! ### `runConnection` and `watchConnection` -/

def arrive (i : ℕ) (hubURL : String) : Pc → Option State
  | .waiting => if hubURL = "" then none else some (s.setPc i (.promoting hubURL))
  | _ => none

/-- `failConnection` begins with the cancellation. -/
def fail (i : ℕ) (errMsg : String) : Pc → Option State
  | .waiting => some ((s.cancel i).setPc i (.failing errMsg))
  | _ => none

def failConnection (i : ℕ) : Pc → Option State
  | .failing errMsg =>
    if s.inflight = some i then
      some { s.setPc i .done with inflight := none, connectRes := some (.error errMsg) }
    else some (s.setPc i .done)
  | _ => none

def promoteConnection (i : ℕ) (name : String) : Pc → Option State
  | .promoting hubURL =>
    if s.inflight = some i then
      some { s with
        lcs := s.lcs.modify i ({ · with hubURL, pc := .registering })
        inflight := none
        conns := s.conns.insert name i
        connectRes := some (.ok hubURL) }
    else some (s.setPc i .done)
  | _ => none

def register (i : ℕ) (name hubURL : String) : Pc → Option State
  | .registering => some { s.setPc i .watching with file := registerActiveConnection s.file pid name hubURL }
  | _ => none

def terminate (i : ℕ) : Pc → Option State
  | .watching => some ((s.cancel i).setPc i .closing)
  | _ => none

def removeCurrent (i : ℕ) (name : String) : Pc → Option State
  | .closing =>
    if s.conns.lookup name = some i then
      some { s.setPc i .unregistering with conns := s.conns.erase name }
    else some (s.setPc i .done)
  | _ => none

def unregister (i : ℕ) (name : String) : Pc → Option State
  | .unregistering => some { s.setPc i .done with file := unregisterActiveConnection s.file pid name }
  | _ => none

/-! ### `handleServerDisconnect` and `closeAll` -/

def disconnect (name : String) (mode : Mode) (alive : ℕ → Bool) (probe : String → Bool) : State :=
  let active := collectActive s.file alive probe
  { s with file := active, tasks := s.tasks ++ [.pruned name mode active] }

/-- `selectActiveConnection`: the entry of this process if the connection is owned, else
the first one. -/
def selectActiveConnection (active : List ActiveConnection) (name : String) (owned : Bool) :
    Option ActiveConnection :=
  let entries := active.filter (·.profile = name)
  (entries.find? fun c => owned && c.pid = pid).or entries.head?

/-- What is posted to the remote Hub only decides the answer. -/
def select (k : ℕ) : Task → Option State
  | .pruned name mode active =>
    let owned := (s.conns.lookup name).isSome
    match selectActiveConnection pid active name owned with
    | none => some (s.setTask k .done)
    | some _ =>
      if mode = .disconnect ∧ owned = false then some (s.setTask k .done)
      else some (s.setTask k (if owned then .cleaning name else .done))
  | _ => none

/-- `cancelOwnedConnection`. -/
def take (k : ℕ) : Task → Option State
  | .cleaning name =>
    match s.conns.lookup name with
    | some lc => some { s.setTask k (.cancelling name lc) with conns := s.conns.erase name }
    | none => some (s.setTask k .done)
  | _ => none

def cancelTaken (k : ℕ) : Task → Option State
  | .cancelling name lc => some ((s.cancel lc).setTask k (.unregistering name))
  | _ => none

def unregisterTaken (k : ℕ) : Task → Option State
  | .unregistering name =>
    some { s.setTask k .done with file := unregisterActiveConnection s.file pid name }
  | _ => none

def closeAll : State :=
  { s with
    tasks := s.tasks ++ [.closing (s.inflight.toList ++ s.conns.entries.map (·.2))]
    conns := ∅
    inflight := none
    closed := true }

def cancelAll (k : ℕ) : Task → Option State
  | .closing lcs => some ((lcs.foldl cancel s).setTask k .unregisteringAll)
  | _ => none

def unregisterAll (k : ℕ) : Task → Option State
  | .unregisteringAll => some { s.setTask k .done with file := unregisterAllForPID s.file pid }
  | _ => none

end State

/-- One step; what takes `mu` waits for a connect handler that holds it. -/
def move (pid : ℕ) (s : State) : Action → Option State
  | .connect name => if s.connecting = none then some (s.connect name) else none
  | .connectUnregister => s.connecting.map (s.connectUnregister pid)
  | .arrive i hubURL => s.lcs[i]?.bind fun c => s.arrive i hubURL c.pc
  | .fail i errMsg => s.lcs[i]?.bind fun c => s.fail i errMsg c.pc
  | .failConnection i => if s.connecting = none then s.lcs[i]?.bind fun c => s.failConnection i c.pc else none
  | .promoteConnection i =>
    if s.connecting = none then s.lcs[i]?.bind fun c => s.promoteConnection i c.name c.pc else none
  | .register i => s.lcs[i]?.bind fun c => s.register pid i c.name c.hubURL c.pc
  | .terminate i => s.lcs[i]?.bind fun c => s.terminate i c.pc
  | .removeCurrent i =>
    if s.connecting = none then s.lcs[i]?.bind fun c => s.removeCurrent i c.name c.pc else none
  | .unregister i => s.lcs[i]?.bind fun c => s.unregister pid i c.name c.pc
  | .disconnect name mode alive probe => some (s.disconnect name mode alive probe)
  | .select k => if s.connecting = none then s.tasks[k]?.bind (s.select pid k) else none
  | .take k => if s.connecting = none then s.tasks[k]?.bind (s.take k) else none
  | .cancelTaken k => s.tasks[k]?.bind (s.cancelTaken k)
  | .unregisterTaken k => s.tasks[k]?.bind (s.unregisterTaken pid k)
  | .closeAll => if s.connecting = none then some s.closeAll else none
  | .cancelAll k => s.tasks[k]?.bind (s.cancelAll k)
  | .unregisterAll k => s.tasks[k]?.bind (s.unregisterAll pid k)
  | .prune alive probe => some { s with file := collectActive s.file alive probe }
  | .otherRegisters other profile hubURL =>
    if other = pid then none else some { s with file := registerActiveConnection s.file other profile hubURL }
  | .otherRemoves other wanted =>
    if other = pid then none else some { s with file := removeOwnEntries s.file other wanted }

/-- Nothing is emitted. -/
def step (pid : ℕ) (s : State) (a : Action) : Option (State × List Empty) := (move pid s a).map fun t =>
    (t, [])

end ManyAiCli.Hub.ServerConns
