import ManyAiCli.Runs.Machine
import ManyAiCli.Text.Strings

/-! Typed input on its way to a session's wrapper. A call takes the session's
input lock, then either queues its text, when the session waits for its initial
prompt or older text is queued, or sends it, in two parts when it is a submitted
paste; what could not be sent is queued. A flush sends the queue. Calls are cut
at each place where the server's lock is free, so any two may interleave, and
calls on two session objects of one ID hold different locks. -/

namespace ManyAiCli.Hub

/-- A text typed or injected. -/
abbrev Input := List Char

def bracketedPasteStart : Input := ['\x1b', '[', '2', '0', '0', '~']

def bracketedPasteEnd : Input := ['\x1b', '[', '2', '0', '1', '~']

/-- A submitted paste is sent in two parts, the last of which is the enter key. -/
def splitBracketedPasteSubmit (text : Input) : Input × Input :=
  if bracketedPasteEnd ++ ['\r'] <:+ text then (text.dropLast, ['\r']) else (text, [])

/-- The text of `injectInitialPrompt`: a paste with the line ends at its end cut off. -/
def initialPromptText (prompt : Input) : Input :=
  bracketedPasteStart ++ Text.trimRight (fun c => c = '\r' || c = '\n') prompt ++ bracketedPasteEnd ++ ['\r']

def maxPendingInputPerSession : ℕ := 100

/-- Items dropped from the front of an overlong queue. -/
def overflow (q : List Input) : List Input := q.take (q.length - maxPendingInputPerSession)

def trimPending (q : List Input) : List Input := q.drop (q.length - maxPendingInputPerSession)

def appendPendingInput (q : List Input) (item : Input) : List Input := trimPending (q ++ [item])

/-- In milliseconds. -/
def initialInjectGateMaxAge : ℕ := 90000

def orchestrationInjectMaxAttempts : ℕ := 4

/-- A session object: its gate for the initial prompt. Its input lock is held by
the call that is in one of the phases that hold it. -/
structure Session where
  initialInjectPending : Bool
  initialInjectGateAt : ℕ
  deriving DecidableEq, Repr

def sessionInjectGated (ses : Session) (now : ℕ) : Bool :=
  ses.initialInjectPending && now - ses.initialInjectGateAt < initialInjectGateMaxAge

/-- What a goroutine was started for. A wrapper connection is named by the number
of the session object registered with it. -/
inductive Call
  | submit (wc : Option ℕ) (combined : Input)
  | inject (wc : Option ℕ) (text : Input) (attempt : ℕ)
  | flush
  deriving DecidableEq, Repr

inductive Phase
  /-- An injection waits for the CLI to be ready. -/
  | ready
  /-- Before the session is looked up. -/
  | called
  | waiting (ses : ℕ)
  /-- The input lock is held, nothing is decided yet. -/
  | locked (ses : ℕ)
  /-- The head item is being sent; only its enter key is left when `delayed`. -/
  | sending (ses : ℕ) (wc : Option ℕ) (items : List Input) (delayed : Bool)
  /-- Unsent items are to be put back. -/
  | storing (ses : ℕ) (items : List Input)
  /-- An injection looks for its echo on the screen. -/
  | echoWait
  | clearing
  | done
  deriving DecidableEq, Repr

structure Job where
  call : Call
  phase : Phase
  deriving DecidableEq, Repr

/-- The session object whose input lock a call holds. -/
def Phase.holds : Phase → Option ℕ
  | locked o => some o
  | sending o _ _ _ => some o
  | storing o _ => some o
  | _ => none

/-- The state of one session ID. -/
structure InputState where
  now : ℕ
  objects : List Session
  /-- The entry of the session map. -/
  session : Option ℕ
  /-- The entry of the wrapper map. -/
  wrapper : Option ℕ
  pendingInput : List Input
  jobs : List Job
  /-- Connections on which a send has failed. -/
  failed : List ℕ
  deriving DecidableEq, Repr

inductive InputAction
  | tick (ms : ℕ)
  | submit (combined : Input)
  | inject (prompt : Input)
  | flush
  /-- The injection of job `j` goes on to its next attempt, unless the echo of an
  earlier one is on the screen. -/
  | attempt (j : ℕ) (echoed : Bool)
  | lookup (j : ℕ)
  | lock (j : ℕ)
  | enter (j : ℕ)
  | send (j : ℕ) (ok : Bool)
  | store (j : ℕ)
  | echo (j : ℕ) (echoed : Bool)
  | clear (j : ℕ)
  | disconnect (wc : ℕ)
  | reattach
  | dismiss
  deriving DecidableEq, Repr

inductive InputEvent
  /-- A call got the input lock for its text. -/
  | accepted (bypassGate : Bool) (text : Input)
  | sent (chunk : Input)
  /-- The queue was written: what it lost and what it is now. -/
  | queued (dropped kept : List Input)
  /-- The echo of the initial prompt was seen. -/
  | observed
  deriving DecidableEq, Repr

def Call.accepted : Call → List InputEvent
  | submit _ combined => [.accepted false combined]
  | inject _ text _ => [.accepted true text]
  | flush => []

/-- Where a call goes on without the lock. -/
def Call.after : Call → Phase
  | inject .. => .echoWait
  | _ => .done

namespace InputState

def object (s : InputState) (o : ℕ) : Session := s.objects[o]?.getD ⟨false, 0⟩

def setJob (s : InputState) (j : ℕ) (job : Job) : InputState := { s with jobs := s.jobs.set j job }

def setPhase (s : InputState) (j : ℕ) (c : Call) (p : Phase) : InputState := s.setJob j ⟨c, p⟩

def start (s : InputState) (c : Call) (p : Phase) : InputState := { s with jobs := s.jobs ++ [⟨c, p⟩] }

def locked (s : InputState) (o : ℕ) : Bool := s.jobs.any fun job => job.phase.holds = some o

/-- No submit or flush is under way or to come. -/
def quiet (s : InputState) : Bool := s.jobs.all fun job => job.phase = .done

/-- The lock is released. An injection then looks for its echo. -/
def finish (s : InputState) (j : ℕ) (c : Call) : InputState :=
  s.setPhase j c c.after

/-- Write the queue, less what is over the limit. -/
def putPending (s : InputState) (q : List Input) : InputState × List InputEvent :=
  ({ s with pendingInput := trimPending q }, [.queued (overflow q) (trimPending q)])

/-- The section of `submitInputWithGate` under the server's lock. -/
def enterSubmit (s : InputState) (j o : ℕ) (c : Call) (wc : Option ℕ) (combined : Input)
    (bypassGate : Bool) : InputState × List InputEvent :=
  let gated := !bypassGate && sessionInjectGated (s.object o) s.now
  let hasPending := s.pendingInput ≠ []
  if gated ∨ hasPending then (s.finish j c).putPending (s.pendingInput ++ [combined])
  else (s.setPhase j c (.sending o wc [combined] false), [])

/-- The section of `flushPendingInput` under the server's lock. -/
def enterFlush (s : InputState) (j o : ℕ) (c : Call) : InputState × List InputEvent :=
  if sessionInjectGated (s.object o) s.now then (s.finish j c, [])
  else
    let pending := s.pendingInput
    let s' := { s with pendingInput := [] }
    if pending = [] then (s'.finish j c, [])
    else match s.wrapper with
      | none => (s'.setPhase j c (.storing o pending), [])
      | some wc => (s'.setPhase j c (.sending o (some wc) pending false), [])

/-- The head item is done with; go on to the rest. -/
def sendNext (s : InputState) (j o : ℕ) (c : Call) (wc : Option ℕ) (rest : List Input) : InputState :=
  if rest = [] then s.finish j c else s.setPhase j c (.sending o wc rest false)

/-- `rem` is what `trySendInput` returns; an empty rest counts as sent. -/
def sendFailed (s : InputState) (j o : ℕ) (c : Call) (wc : Option ℕ) (rem : Input)
    (rest : List Input) : InputState :=
  let s := { s with failed := wc.toList ++ s.failed }
  if rem = [] then s.sendNext j o c wc rest else s.setPhase j c (.storing o (rem :: rest))

/-- One write of `trySendInput` to the wrapper. -/
def trySend (s : InputState) (j o : ℕ) (c : Call) (wc : Option ℕ) (item : Input) (rest : List Input)
    (delayed ok : Bool) : InputState × List InputEvent :=
  let parts := splitBracketedPasteSubmit item
  if delayed then
    if ok then (s.sendNext j o c wc rest, [.sent parts.2])
    else (s.sendFailed j o c wc parts.2 rest, [])
  else if wc = none then (s.sendFailed j o c wc item rest, [])
  else if ok then
    (if parts.2 = [] then s.sendNext j o c wc rest
      else s.setPhase j c (.sending o wc (item :: rest) true), [.sent parts.1])
  else (s.sendFailed j o c wc item rest, [])

/-- Put unsent items back: a submit at the end of the queue, a flush before it. -/
def storeUnsent (s : InputState) (j : ℕ) (c : Call) (items : List Input) :
    InputState × List InputEvent :=
  match c with
  | .flush => (s.finish j c).putPending (items ++ s.pendingInput)
  | _ => (s.finish j c).putPending (s.pendingInput ++ items)

/-- `clearInitialInjectGate`, up to its call of `flushPendingInput`. -/
def clearInitialInjectGate (s : InputState) (j : ℕ) (c : Call) : InputState :=
  match s.session with
  | none => s.setPhase j c .done
  | some o =>
    let objects := s.objects.modify o fun ses : Session => { ses with initialInjectPending := false }
    setPhase { s with objects := objects } j .flush .called

/-- `reattachLoop`: a new session object and wrapper, and a flush. -/
def reattach (s : InputState) : InputState :=
  start { s with
    objects := s.objects ++ [⟨false, 0⟩]
    session := some s.objects.length
    wrapper := some s.objects.length } .flush .called

/-- `handleDismiss`. -/
def dismiss (s : InputState) : InputState :=
  { s with session := none, wrapper := none, pendingInput := [] }

/-- A step of job `j`. -/
def jobStep (s : InputState) (j : ℕ) (job : Job) (a : InputAction) :
    Option (InputState × List InputEvent) :=
  match a, job.phase, job.call with
  | .attempt _ echoed, .ready, .inject _ text n =>
    if n > 1 ∧ echoed then some (s.setPhase j job.call .clearing, [.observed])
    else some (s.setPhase j (.inject s.wrapper text n) .called, [])
  | .lookup _, .called, c =>
    match s.session with
    | none => some (s.finish j c, [])
    | some o => some (s.setPhase j c (.waiting o), [])
  | .lock _, .waiting o, c =>
    if s.locked o then none
    else some (s.setPhase j c (.locked o), c.accepted)
  | .enter _, .locked o, .submit wc combined => some (s.enterSubmit j o job.call wc combined false)
  | .enter _, .locked o, .inject wc text _ => some (s.enterSubmit j o job.call wc text true)
  | .enter _, .locked o, .flush => some (s.enterFlush j o job.call)
  | .send _ ok, .sending o wc (item :: rest) delayed, c => some (s.trySend j o c wc item rest delayed ok)
  | .store _, .storing _ items, c => some (s.storeUnsent j c items)
  | .echo _ echoed, .echoWait, .inject wc text n =>
    if echoed then some (s.setPhase j job.call .clearing, [.observed])
    else if n < orchestrationInjectMaxAttempts then
      some (s.setPhase j (.inject wc text (n + 1)) .ready, [])
    else some (s.setPhase j job.call .clearing, [])
  | .clear _, .clearing, .inject .. => some (s.clearInitialInjectGate j job.call, [])
  | _, _, _ => none

/-- The steps of `jobStep` by name. -/
inductive JobStep (s : InputState) (j : ℕ) :
    Call → Phase → InputAction → InputState → List InputEvent → Prop
  | echoLate (i wc text n) (hn : 1 < n) : JobStep s j (.inject wc text n) .ready (.attempt i true)
      (s.setPhase j (.inject wc text n) .clearing) [.observed]
  | attempt (i wc text n) (echoed : Bool) (hn : ¬ (1 < n ∧ echoed = true)) :
      JobStep s j (.inject wc text n) .ready (.attempt i echoed)
        (s.setPhase j (.inject s.wrapper text n) .called) []
  | lookupGone (i c) (hs : s.session = none) :
      JobStep s j c .called (.lookup i) (s.finish j c) []
  | lookup (i c o) (hs : s.session = some o) :
      JobStep s j c .called (.lookup i) (s.setPhase j c (.waiting o)) []
  | lock (i c o) (ho : s.locked o = false) :
      JobStep s j c (.waiting o) (.lock i) (s.setPhase j c (.locked o)) c.accepted
  | enterSubmit (i o wc combined) : JobStep s j (.submit wc combined) (.locked o) (.enter i)
      (s.enterSubmit j o (.submit wc combined) wc combined false).1
      (s.enterSubmit j o (.submit wc combined) wc combined false).2
  | enterInject (i o wc text n) : JobStep s j (.inject wc text n) (.locked o) (.enter i)
      (s.enterSubmit j o (.inject wc text n) wc text true).1
      (s.enterSubmit j o (.inject wc text n) wc text true).2
  | enterFlush (i o) : JobStep s j .flush (.locked o) (.enter i)
      (s.enterFlush j o .flush).1 (s.enterFlush j o .flush).2
  | send (i c o wc item rest delayed ok) :
      JobStep s j c (.sending o wc (item :: rest) delayed) (.send i ok)
        (s.trySend j o c wc item rest delayed ok).1 (s.trySend j o c wc item rest delayed ok).2
  | store (i c o items) : JobStep s j c (.storing o items) (.store i)
      (s.storeUnsent j c items).1 (s.storeUnsent j c items).2
  | echo (i wc text n) : JobStep s j (.inject wc text n) .echoWait (.echo i true)
      (s.setPhase j (.inject wc text n) .clearing) [.observed]
  | retry (i wc text n) (hn : n < orchestrationInjectMaxAttempts) :
      JobStep s j (.inject wc text n) .echoWait (.echo i false)
        (s.setPhase j (.inject wc text (n + 1)) .ready) []
  | gaveUp (i wc text n) (hn : ¬ n < orchestrationInjectMaxAttempts) :
      JobStep s j (.inject wc text n) .echoWait (.echo i false)
        (s.setPhase j (.inject wc text n) .clearing) []
  | clear (i wc text n) : JobStep s j (.inject wc text n) .clearing (.clear i)
      (s.clearInitialInjectGate j (.inject wc text n)) []

theorem jobStep_cases {s s' : InputState} {j : ℕ} {c : Call} {p : Phase} {a : InputAction}
    {es : List InputEvent} (h : s.jobStep j ⟨c, p⟩ a = some (s', es)) : JobStep s j c p a s' es := by
  unfold jobStep at h
  dsimp only at h
  split at h
  · split_ifs at h with hn <;> obtain ⟨rfl, rfl⟩ := by simpa using h
    · obtain ⟨hn, rfl⟩ := hn
      exact .echoLate _ _ _ _ hn
    · exact .attempt _ _ _ _ _ hn
  · split at h <;> obtain ⟨rfl, rfl⟩ := by simpa using h
    · exact .lookupGone _ _ ‹_›
    · exact .lookup _ _ _ ‹_›
  · split_ifs at h with ho
    obtain ⟨rfl, rfl⟩ := by simpa using h
    exact .lock _ _ _ (by simpa using ho)
  · obtain ⟨rfl, rfl⟩ := by simpa [Prod.ext_iff] using h
    exact .enterSubmit _ _ _ _
  · obtain ⟨rfl, rfl⟩ := by simpa [Prod.ext_iff] using h
    exact .enterInject _ _ _ _ _
  · obtain ⟨rfl, rfl⟩ := by simpa [Prod.ext_iff] using h
    exact .enterFlush _ _
  · obtain ⟨rfl, rfl⟩ := by simpa [Prod.ext_iff] using h
    exact .send _ _ _ _ _ _ _ _
  · obtain ⟨rfl, rfl⟩ := by simpa [Prod.ext_iff] using h
    exact .store _ _ _ _
  · split_ifs at h with he hn <;> obtain ⟨rfl, rfl⟩ := by simpa using h
    · subst he
      exact .echo _ _ _ _
    · rw [Bool.not_eq_true] at he
      subst he
      exact .retry _ _ _ _ hn
    · rw [Bool.not_eq_true] at he
      subst he
      exact .gaveUp _ _ _ _ hn
  · obtain ⟨rfl, rfl⟩ := by simpa using h
    exact .clear _ _ _ _
  · simp at h

end InputState

/-- The job an action belongs to. -/
def InputAction.job? : InputAction → Option ℕ
  | attempt j _ => some j
  | lookup j => some j
  | lock j => some j
  | enter j => some j
  | send j _ => some j
  | store j => some j
  | echo j _ => some j
  | clear j => some j
  | _ => none

def inputStep (s : InputState) (a : InputAction) : Option (InputState × List InputEvent) :=
  match a with
  | .tick ms => some ({ s with now := s.now + ms }, [])
  | .submit combined => some (s.start (.submit s.wrapper combined) .called, [])
  | .inject prompt => some (s.start (.inject none (initialPromptText prompt) 1) .ready, [])
  | .flush => some (s.start .flush .called, [])
  | .disconnect wc => some (if s.wrapper = some wc then { s with wrapper := none } else s, [])
  | .reattach => some (s.reattach, [])
  | .dismiss => some (s.dismiss, [])
  | a => do
    let j ← a.job?
    let job ← s.jobs[j]?
    s.jobStep j job a

/-- A step is one of a call, or leaves the calls there are as they are. -/
theorem inputStep_cases {s s' : InputState} {a : InputAction} {es : List InputEvent}
    (h : inputStep s a = some (s', es)) :
    (∃ j c p, a.job? = some j ∧ s.jobs[j]? = some ⟨c, p⟩ ∧ s.JobStep j c p a s' es) ∨
      a.job? = none ∧ es = [] := by
  cases a
  case tick | submit | inject | flush | disconnect | reattach | dismiss =>
    obtain ⟨-, rfl⟩ : _ ∧ [] = es := by simpa [inputStep] using h
    exact .inr ⟨rfl, rfl⟩
  all_goals
    obtain ⟨j, hj, ⟨c, p⟩, hjob, hs⟩ : ∃ j, _ ∧ ∃ job, s.jobs[j]? = some job ∧
      s.jobStep j job _ = some (s', es) := by simpa [inputStep, Option.bind_eq_some_iff] using h
    exact .inl ⟨j, c, p, hj, hjob, InputState.jobStep_cases hs⟩

/-- No call is under way and nothing is queued. -/
def InputState.fresh (now : ℕ) (objects : List Session) (session : ℕ) (wrapper : Option ℕ)
    (failed : List ℕ) : InputState :=
  ⟨now, objects, some session, wrapper, [], [], failed⟩

/-- A session just registered, gated when it belongs to an orchestration. -/
def registered (gated : Bool) (now : ℕ) : InputState := .fresh now [⟨gated, now⟩] 0 (some 0) []

end ManyAiCli.Hub
