import ManyAiCli.Hub.BoardCredit
import ManyAiCli.Runs.Machine
import Mathlib.Data.List.Chain
import Mathlib.Logic.Function.Basic

/-! The timers of orchestration children. A poll of a board times children out and warns about silent
ones; its notices are handled after the lock is released, and a child that timed out may be started
again. The restart and every spawn run on their own, so a wrapper registers, gets its restart data or
fails at any time. -/

namespace ManyAiCli.Hub.ChildTimers

open Runs Function

/-- A setting that is not positive switches its check off; it is 0 here. -/
structure TimerConfig where
  childTimeoutSeconds : ℕ
  idleDoneThresholdSec : ℕ
  timeoutRespawn : Bool
  maxTimeoutRespawns : ℕ
  deriving DecidableEq, Repr

/-- What a restart uses again. -/
structure Restart where
  provider : String
  initialPrompt : String
  worktreeBranch : String
  deriving DecidableEq, Repr

/-- A child that nobody told how to start again. -/
def Restart.none : Restart := ⟨"", "", ""⟩

/-- The rest of an `orchestrationChild`. Times are in nanoseconds. -/
structure ChildInfo where
  parentID : ℕ
  spawnedAt : ℕ
  restart : Restart
  timeoutRetries : ℕ
  deriving DecidableEq, Repr

inductive NoticeKind
  | timeout (respawn : Bool) (maxRetries : ℕ)
  | idle
  deriving DecidableEq, Repr

structure Notice where
  parentID : ℕ
  childID : ℕ
  role : List Char
  kind : NoticeKind
  threshold : ℕ
  deriving DecidableEq, Repr

inductive Phase
  | spawning
  /-- On the board, without restart data. -/
  | registered (id : ℕ)
  | done
  deriving DecidableEq, Repr

/-- A child on its way: a request, or the restart of the child `replaces`. -/
structure Job where
  replaces : Option ℕ
  parentID : ℕ
  role : List Char
  restart : Restart
  retries : ℕ
  phase : Phase
  deriving DecidableEq, Repr

structure State where
  board : OrchestrationBoard
  info : ℕ → ChildInfo
  timedOut : ℕ → Bool
  idleWarned : ℕ → Bool
  /-- The last session ID that was given out. -/
  nextID : ℕ
  /-- The notices the poll has still to handle. -/
  notices : List Notice
  jobs : List Job

inductive Event
  | timedOut (childID : ℕ)
  | idleWarned (childID : ℕ)
  /-- The warning is taken back. -/
  | resumed (childID : ℕ)
  | orchestrationError (parentID : ℕ) (limit detail : List Char)
  | markChildState (childID : ℕ) (state : List Char)
  | injectText (parentID : ℕ) (text : List Char)
  | respawning (childID : ℕ)
  | registered (replaces : Option ℕ) (childID : ℕ)
  deriving DecidableEq, Repr

def second : ℕ := 1000000000

def decimal (n : ℕ) : List Char := (toString n).toList

def newOrchestrationBoard (path : List Char) (now : ℕ) : OrchestrationBoard :=
  ⟨path, [], [], [], 0, 0, now⟩

/-- A board without children. -/
def start (path : List Char) (now : ℕ) : State where
  board := newOrchestrationBoard path now
  info := fun _ => ⟨0, 0, .none, 0⟩
  timedOut := fun _ => false
  idleWarned := fun _ => false
  nextID := 0
  notices := []
  jobs := []

/-- Neither the board nor the terminal has seen the child for longer than the threshold. -/
def silent (cfg : TimerConfig) (now : ℕ) (lastOutput : Option ℕ) (child : OrchestrationChild) : Bool :=
  child.lastBoardWrite + cfg.idleDoneThresholdSec * second < now &&
    lastOutput.all fun last => last + cfg.idleDoneThresholdSec * second < now

namespace State

variable (s : State)

/-- The child needs no timers. -/
def isDone (child : OrchestrationChild) : Bool :=
  child.done || s.board.done.contains child.id || s.timedOut child.id

/-! ### The poll -/

def notice (child : OrchestrationChild) (kind : NoticeKind) (threshold : ℕ) : Notice :=
  ⟨(s.info child.id).parentID, child.id, child.role, kind, threshold⟩

/-- One turn of the loop of `checkOrchestrationChildTimers`. -/
def checkChild (cfg : TimerConfig) (now : ℕ) (lastOutputs : ℕ → Option ℕ) (child : OrchestrationChild) :
    State × List Event :=
  let id := child.id
  if s.isDone child then (s, [])
  else if 0 < cfg.childTimeoutSeconds ∧ (s.info id).spawnedAt + cfg.childTimeoutSeconds * second < now then
    ({ s with
        timedOut := update s.timedOut id true
        notices := s.notices ++
          [s.notice child (.timeout cfg.timeoutRespawn cfg.maxTimeoutRespawns) cfg.childTimeoutSeconds] },
      [.timedOut id])
  else if cfg.idleDoneThresholdSec = 0 then (s, [])
  else if silent cfg now (lastOutputs id) child then
    if s.idleWarned id then (s, [])
    else
      ({ s with
          idleWarned := update s.idleWarned id true
          notices := s.notices ++ [s.notice child .idle cfg.idleDoneThresholdSec] },
        [.idleWarned id])
  else if s.idleWarned id then ({ s with idleWarned := update s.idleWarned id false }, [.resumed id])
  else (s, [])

def checkChildren (cfg : TimerConfig) (now : ℕ) (lastOutputs : ℕ → Option ℕ) :
    State → List OrchestrationChild → State × List Event
  | s, [] => (s, [])
  | s, child :: rest =>
    let (t, es) := s.checkChild cfg now lastOutputs child
    let (u, fs) := checkChildren cfg now lastOutputs t rest
    (u, es ++ fs)

def checkOrchestrationChildTimers (cfg : TimerConfig) (now : ℕ) (lastOutputs : ℕ → Option ℕ) :
    State × List Event :=
  checkChildren cfg now lastOutputs s s.board.children

/-! ### The notices -/

def timeoutDetail (n : Notice) : List Char :=
  "role=".toList ++ n.role ++ " id=".toList ++ decimal n.childID ++ " threshold=".toList ++
    decimal n.threshold ++ ['s']

def idleText (n : Notice) : List Char :=
  "\n[orchestration] idle warning role=".toList ++ n.role ++ " id=".toList ++ decimal n.childID ++
    " no board update and no PTY output for ".toList ++ decimal n.threshold ++ "s\n".toList

/-- The retries of a child that is started again are used up before its restart is on its way. -/
def respawnTimedOutChild (sessionID maxRetries : ℕ) : State × List Event :=
  match s.board.children.find? (·.id = sessionID) with
  | none => (s, [])
  | some child =>
    let info := s.info sessionID
    if maxRetries = 0 ∨ info.timeoutRetries ≥ maxRetries ∨ info.restart.provider = "" then (s, [])
    else
      ({ s with
          info := update s.info sessionID { info with timeoutRetries := maxRetries }
          jobs := s.jobs ++
            [⟨some sessionID, info.parentID, child.role, info.restart, info.timeoutRetries + 1, .spawning⟩] },
        [.respawning sessionID])

def handleNotice (n : Notice) : State × List Event :=
  match n.kind with
  | .idle => (s, [.injectText n.parentID (idleText n)])
  | .timeout respawn maxRetries =>
    let told : List Event := [.orchestrationError n.parentID "timeout".toList (timeoutDetail n),
      .markChildState n.childID "timeout".toList]
    if respawn then
      let (t, es) := s.respawnTimedOutChild n.childID maxRetries
      (t, told ++ es)
    else (s, told)

/-! ### Children -/

/-- A child takes its place on the board. -/
def registerBoardChild (sessionID parentID : ℕ) (role : List Char) (spawnedAt : ℕ) : State :=
  { s with
    board := { s.board with
      sessions := sessionID :: s.board.sessions.filter (· ≠ sessionID)
      children := s.board.children.filter (·.id ≠ sessionID) ++ [⟨sessionID, role, spawnedAt, false⟩] }
    info := update s.info sessionID ⟨parentID, spawnedAt, .none, 0⟩ }

def setChildRestartData (sessionID : ℕ) (restart : Restart) (retries : ℕ) : State :=
  if s.board.children.any (·.id = sessionID) then
    let info := { s.info sessionID with restart := restart, timeoutRetries := retries }
    { s with info := update s.info sessionID info }
  else s

/-- The progress file of a child changed: any marker in it that does not name another session is its own. -/
def childFile (sessionID : ℕ) (text : List Char) (now : ℕ) : State :=
  if s.board.children.any (·.id = sessionID) then
    let touched := { s.board with
      children := s.board.children.map fun child =>
        if child.id = sessionID then { child with lastBoardWrite := now } else child }
    if (detectBoardDoneEvents text).any fun ev => ev.sessionID = 0 ∨ ev.sessionID = sessionID then
      { s with board := touched.markDone sessionID now }
    else { s with board := touched }
  else s

def completeOrchestrationChildOnSessionEnd (sessionID : ℕ) : State :=
  if s.board.children.any (·.id = sessionID) then
    let board := { s.board with
      done := sessionID :: s.board.done
      children := s.board.children.map fun child =>
        if child.id = sessionID then { child with done := true } else child }
    { s with board := board }
  else s

def setPhase (j : ℕ) (phase : Phase) : State :=
  { s with jobs := s.jobs.modify j fun job => { job with phase := phase } }

end State

/-! ### Steps -/

inductive Action
  | boardChange (size mod : ℕ) (text : List Char) (now : ℕ)
  | childFile (sessionID : ℕ) (text : List Char) (now : ℕ)
  | sessionEnd (sessionID : ℕ)
  | poll (cfg : TimerConfig) (now : ℕ) (lastOutputs : ℕ → Option ℕ)
  /-- The next notice of the poll. -/
  | deliver
  | dispatch (parentID : ℕ) (role : List Char) (restart : Restart)
  /-- The wrapper of job `j` has registered under a session ID that is new. -/
  | register (j id now : ℕ)
  | restartData (j : ℕ)
  /-- No wrapper came for job `j`. -/
  | fail (j : ℕ)

def step (s : State) : Action → Option (State × List Event)
  | .boardChange size mod text now =>
    some ({ s with board := (handleBoardChange s.board size mod text now).1 }, [])
  | .childFile sessionID text now => some (s.childFile sessionID text now, [])
  | .sessionEnd sessionID => some (s.completeOrchestrationChildOnSessionEnd sessionID, [])
  | .poll cfg now lastOutputs =>
    if s.notices = [] then some (s.checkOrchestrationChildTimers cfg now lastOutputs) else none
  | .deliver =>
    match s.notices with
    | [] => none
    | n :: rest => some (({ s with notices := rest } : State).handleNotice n)
  | .dispatch parentID role restart =>
    some ({ s with jobs := s.jobs ++ [⟨none, parentID, role, restart, 0, .spawning⟩] }, [])
  | .register j id now =>
    match s.jobs[j]? with
    | some job =>
      if job.phase = .spawning ∧ s.nextID < id then
        some ({ (s.registerBoardChild id job.parentID job.role now).setPhase j (.registered id) with
            nextID := id }, [.registered job.replaces id])
      else none
    | none => none
  | .restartData j =>
    match s.jobs[j]? with
    | some job =>
      match job.phase with
      | .registered id => some ((s.setChildRestartData id job.restart job.retries).setPhase j .done, [])
      | _ => none
    | none => none
  | .fail j =>
    match s.jobs[j]? with
    | some job => if job.phase = .spawning then some (s.setPhase j .done, []) else none
    | none => none

/-! ### What a turn of the poll does -/

variable {s t u : State} {es fs : List Event} {cfg : TimerConfig} {now : ℕ} {lastOutputs : ℕ → Option ℕ}
  {path : List Char}

/-- A turn leaves a child alone, or changes one latch of it and says so. -/
inductive Turn (cfg : TimerConfig) (s : State) (child : OrchestrationChild) : State → List Event → Prop
  | rest : Turn cfg s child s []
  | timeout (n : Notice) (hlive : s.isDone child = false) (hid : n.childID = child.id)
      (hn : ∃ respawn, n.kind = .timeout respawn cfg.maxTimeoutRespawns) :
      Turn cfg s child { s with
        timedOut := update s.timedOut child.id true
        notices := s.notices ++ [n] } [.timedOut child.id]
  | idle (n : Notice) (hlive : s.isDone child = false) (hid : n.childID = child.id) (hn : n.kind = .idle)
      (hw : s.idleWarned child.id = false) :
      Turn cfg s child { s with
        idleWarned := update s.idleWarned child.id true
        notices := s.notices ++ [n] } [.idleWarned child.id]
  | resume (hlive : s.isDone child = false) (hw : s.idleWarned child.id = true) :
      Turn cfg s child { s with idleWarned := update s.idleWarned child.id false } [.resumed child.id]

theorem checkChild_turn (cfg : TimerConfig) (now : ℕ) (lastOutputs : ℕ → Option ℕ) (s : State)
    (child : OrchestrationChild) : Turn cfg s child (s.checkChild cfg now lastOutputs child).1
      (s.checkChild cfg now lastOutputs child).2 := by
  unfold State.checkChild
  by_cases hlive : s.isDone child = true
  · rw [if_pos hlive]
    exact .rest
  · rw [if_neg hlive]
    replace hlive := Bool.eq_false_iff.2 hlive
    split_ifs with htimeout hoff hsilent hw hw
    · exact .timeout _ hlive rfl ⟨_, rfl⟩
    · exact .rest
    · exact .rest
    · exact .idle _ hlive rfl rfl (Bool.eq_false_iff.2 hw)
    · exact .resume hlive hw
    · exact .rest

/-- What every turn keeps, a poll keeps. -/
theorem poll_keeps (now : ℕ) (lastOutputs : ℕ → Option ℕ) {I : List Event → State → Prop}
    (hturn : ∀ h s child t es, I h s → Turn cfg s child t es → I (h ++ es) t) {h : List Event}
    (hI : I h s) (children : List OrchestrationChild) :
    I (h ++ (State.checkChildren cfg now lastOutputs s children).2)
      (State.checkChildren cfg now lastOutputs s children).1 := by
  induction children generalizing s h with
  | nil => simpa [State.checkChildren] using hI
  | cons child children ih =>
    have ht := hturn h s child _ _ hI (checkChild_turn cfg now lastOutputs s child)
    simpa [State.checkChildren] using ih ht

/-! ### The board only marks children done -/

/-- What the timers say about one child. -/
inductive Mark
  | idle
  | resumed
  | timedOut
  deriving DecidableEq, Repr

inductive Stage
  | quiet
  | warned
  | over
  deriving DecidableEq, Repr

/-- A warning, then the child is back; a timeout is the end. -/
def Stage.next : Stage → Mark → Option Stage
  | .quiet, .idle => some .warned
  | .warned, .resumed => some .quiet
  | .quiet, .timedOut => some .over
  | .warned, .timedOut => some .over
  | _, _ => none

def Event.mark (id : ℕ) : Event → Option Mark
  | .idleWarned childID => if childID = id then some .idle else none
  | .resumed childID => if childID = id then some .resumed else none
  | .timedOut childID => if childID = id then some .timedOut else none
  | _ => none

def story (id : ℕ) (es : List Event) : List Mark := es.filterMap (Event.mark id)

/-- The story can be told so, and ends at the stage. -/
def Tells (id : ℕ) (es : List Event) (stage : Stage) : Prop :=
  (story id es).foldlM Stage.next .quiet = some stage

def State.stage (s : State) (id : ℕ) : Stage :=
  if s.timedOut id then .over else if s.idleWarned id then .warned else .quiet

/-- Nothing more is expected of the child. -/
def State.Settled (s : State) (id : ℕ) : Prop := id ∈ s.board.done ∨ s.timedOut id = true

@[simp] theorem story_append (id : ℕ) (es fs : List Event) : story id (es ++ fs) = story id es ++ story id fs :=
  List.filterMap_append

theorem Tells.append_nil {id : ℕ} {stage : Stage} (h : Tells id es stage) (hfs : story id fs = []) :
    Tells id (es ++ fs) stage := by
  rw [Tells, story_append, hfs, List.append_nil]
  exact h

theorem live {child : OrchestrationChild} (h : s.isDone child = false) :
    child.id ∉ s.board.done ∧ s.timedOut child.id = false := by
  simp only [State.isDone, Bool.or_eq_false_iff] at h
  exact ⟨by simpa using h.1.2, h.2⟩

theorem not_settled_of_live {child : OrchestrationChild} (h : s.isDone child = false) :
    ¬ s.Settled child.id := by
  rintro (hd | ht)
  · exact (live h).1 hd
  · exact Bool.false_ne_true ((live h).2.symm.trans ht)

/-- A settled child is left alone, and no turn unsettles one. -/
theorem Turn.settled {child : OrchestrationChild} (h : Turn cfg s child t fs) {id : ℕ}
    (hs : s.Settled id) : t.Settled id ∧ story id fs = [] := by
  have hne (hlive : s.isDone child = false) : child.id ≠ id := by
    rintro rfl
    exact not_settled_of_live hlive hs
  cases h with
  | rest => exact ⟨hs, rfl⟩
  | timeout n hlive hid hn =>
    have hne := hne hlive
    refine ⟨hs.imp_right fun ht => ?_, by simp [story, Event.mark, hne]⟩
    simpa [update_of_ne (Ne.symm hne)] using ht
  | idle n hlive hid hn hw =>
    exact ⟨hs, by simp [story, Event.mark, hne hlive]⟩
  | resume hlive hw =>
    exact ⟨hs, by simp [story, Event.mark, hne hlive]⟩

/-! ### The other steps -/

/-- Ten seconds of silence, a hundred for everything. -/
def patient : TimerConfig := ⟨100, 10, true, 1⟩

def claude : Restart := ⟨"claude", "go", "b"⟩

/-- Session 10 is a child of session 9. -/
def startsChild : List Action :=
  [.dispatch 9 ['x'] claude, .register 0 10 0, .restartData 0]

end ManyAiCli.Hub.ChildTimers
