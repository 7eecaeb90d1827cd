import ManyAiCli.Hub.InputGate
import ManyAiCli.Hub.SpawnChild

/-! The states of sessions. The activity of a session says what it is doing, and its
state is the label derived from it, until the session comes to an end. Handlers find
a session in the map and write its object in one stretch under the lock; an object
that has been replaced or removed is not written again. -/

namespace ManyAiCli.Hub.Sessions

open Runs
open Spawn (SessionState isTerminalSessionState)

structure SessionActivity where
  outputIdle : Bool
  workflowActive : Bool
  awaitingUser : Bool
  awaitingApproval : Bool
  deriving DecidableEq, Repr

namespace SessionActivity

def isIdle (a : SessionActivity) : Bool := a.outputIdle && !a.workflowActive

def displayState (a : SessionActivity) : SessionState :=
  if a.awaitingUser then .waiting
  else if a.workflowActive || !a.outputIdle then .running
  else .standby

/-- An approval is a kind of user wait. -/
def normalize (a : SessionActivity) : SessionActivity :=
  if a.awaitingApproval then { a with awaitingUser := true } else a

end SessionActivity

/-- A session object. Times are in nanoseconds, `none` is the zero time. -/
structure Session where
  activity : SessionActivity
  state : SessionState
  approvalVisible : Bool
  approvalVisibleAt : Option ℤ
  nativeApprovalSig : String
  lastOutputAt : Option ℤ
  branchCheckedAt : Option ℤ
  firstMessage : Input
  lastMessage : Input
  deriving DecidableEq, Repr

def idleAfter : ℤ := 3000000000

def branchRefreshAfter : ℤ := 2000000000

def approvalVisibleLease : ℤ := 15000000000

/-- So much time is over; since the zero time, any. -/
def hasPassed (d now : ℤ) (since : Option ℤ) : Bool := since.all fun t => d ≤ now - t

/-- A `session_update` for the UIs, and what else a change sets off. -/
inductive Event
  | sessionUpdate (id : ℕ) (state : SessionState) (activity : Option SessionActivity)
  | approvalWait (id : ℕ)
  | fallbackDone (id : ℕ)
  | branchCheck (id : ℕ)
  deriving DecidableEq, Repr

namespace Session

def registered (now : ℤ) : Session :=
  ⟨⟨true, false, false, false⟩, .standby, false, none, "", none, some now, [], []⟩

/-- `replayed`: the wrapper has brought output along. -/
def reattached (now : ℤ) (replayed : Bool) : Session :=
  ⟨⟨!replayed, replayed, false, false⟩, .running, false, none, "", if replayed then some now else none,
    some now, [], []⟩

def markRunning (now : ℤ) (ses : Session) : Session :=
  let ses := { ses with lastOutputAt := some now }
  -- what is left of the output of a finished session does not revive it
  if isTerminalSessionState ses.state then ses else
  let activity := SessionActivity.normalize
    ⟨false, !ses.approvalVisible, ses.approvalVisible, ses.approvalVisible⟩
  { ses with activity := activity, state := activity.displayState }

def runningChanged (before after : Session) : Bool :=
  !isTerminalSessionState before.state && (before.activity ≠ after.activity || after.state ≠ .running)

/-- The lease of an approval on a UI's screen runs out unless the Hub sees it too. -/
def expireApproval (now : ℤ) (ses : Session) : Session :=
  if ses.approvalVisible && ses.nativeApprovalSig = "" &&
      hasPassed approvalVisibleLease now ses.approvalVisibleAt then
    { ses with approvalVisible := false, approvalVisibleAt := none }
  else ses

def checkBranch (now : ℤ) (ses : Session) : Session :=
  if hasPassed branchRefreshAfter now ses.branchCheckedAt then { ses with branchCheckedAt := some now }
  else ses

/-- The activity at a tick. -/
def idleActivity (now : ℤ) (ses : Session) : SessionActivity :=
  let outputIdle := ses.activity.outputIdle || hasPassed idleAfter now ses.lastOutputAt
  SessionActivity.normalize
    ⟨outputIdle, !outputIdle && !ses.approvalVisible, ses.approvalVisible, ses.approvalVisible⟩

def evaluateIdle (now : ℤ) (ses : Session) : Session :=
  let ses := (ses.checkBranch now).expireApproval now
  if isTerminalSessionState ses.state then ses else
  let activity := ses.idleActivity now
  if ses.activity ≠ activity || activity.displayState ≠ ses.state then
    { ses with activity := activity, state := activity.displayState }
  else { ses with activity := activity }

/-- What the tick sends after the change from `before` to `after`. -/
def idleEvents (now : ℤ) (id : ℕ) (before after : Session) : List Event :=
  (if hasPassed branchRefreshAfter now before.branchCheckedAt then [.branchCheck id] else []) ++
  if isTerminalSessionState before.state || (before.activity = after.activity && before.state = after.state)
  then []
  else [.sessionUpdate id after.state (some after.activity)] ++
    (if after.state = .waiting && after.activity.awaitingApproval then [.approvalWait id] else []) ++
    if after.state = .standby then [.fallbackDone id] else []

def handleHint (visible : Bool) (now : ℤ) (ses : Session) : Session :=
  let ses := { ses with
    approvalVisible := visible
    approvalVisibleAt := if visible then some now else none }
  if isTerminalSessionState ses.state then ses else
  let activity := SessionActivity.normalize
    { ses.activity with awaitingApproval := visible, awaitingUser := visible }
  { ses with activity := activity, state := activity.displayState }

/-- Only these two ends are taken from a wrapper. -/
def sessionEnd (state : String) (ses : Session) : Session :=
  if state = "completed" then { ses with state := .completed }
  else if state = "error" then { ses with state := .error }
  else ses

def disconnect (ses : Session) : Session :=
  if isTerminalSessionState ses.state then ses else { ses with state := .disconnected }

def historyReset (ses : Session) : Session :=
  { ses with firstMessage := [], lastMessage := [], nativeApprovalSig := "" }

def isDigitsOnly (text : Input) : Bool := text ≠ [] && text.all fun c => '0' ≤ c && c ≤ '9'

/-- The text of an input that submits something, without paste markers. -/
def submitted (text : Input) : Option Input :=
  if Text.hasSuffix text ['\r'] || Text.hasSuffix text bracketedPasteEnd then
    let text := Text.trimRight (fun c => c = '\r' || c = '\n') text
    some (Text.removeAll bracketedPasteEnd 0 (Text.removeAll bracketedPasteStart 0 text))
  else none

/-- An input changes the messages on a session's card; `maskSecrets` hides secrets in
them. Whether the card has changed. -/
def handleInput (maskSecrets : Input → Input) (text : Input) (ses : Session) : Session × Bool :=
  match submitted text with
  | none => (ses, false)
  | some text =>
    if text = "/clear".toList then ({ ses with firstMessage := [], lastMessage := [] }, true)
    else if text = [] then (ses, false)
    else
      ({ ses with
        firstMessage := if ses.firstMessage = [] then maskSecrets text else ses.firstMessage
        lastMessage := if isDigitsOnly text then ses.lastMessage else maskSecrets text }, true)

end Session

/-- The session map gives the object of an ID. -/
structure State where
  objects : List Session
  sessions : List (ℕ × ℕ)
  deriving DecidableEq, Repr

def State.empty : State := ⟨[], []⟩

inductive Action
  | register (id : ℕ) (now : ℤ)
  | reattach (id : ℕ) (now : ℤ) (replayed : Bool)
  | markRunning (id : ℕ) (now : ℤ)
  | evaluateIdle (now : ℤ)
  | handleHint (id : ℕ) (visible : Bool) (now : ℤ)
  | sessionEnd (id : ℕ) (state : String)
  | disconnect (id : ℕ)
  | markChildState (id : ℕ) (state : SessionState)
  | handleHistoryReset (id : ℕ)
  | handleInput (id : ℕ) (text : Input)
  /-- A prompt is detected, cleared or answered. -/
  | nativeApproval (id : ℕ) (sig : String)
  | dismiss (id : ℕ)
  deriving DecidableEq, Repr

namespace State

variable (s : State)

def object (id : ℕ) : Option Session := s.sessions.lookup id >>= fun o => s.objects[o]?

def without (id : ℕ) : State := { s with sessions := s.sessions.filter fun x => x.1 ≠ id }

/-- A new object under the ID. -/
def put (id : ℕ) (ses : Session) : State :=
  ⟨s.objects ++ [ses], (id, s.objects.length) :: (s.without id).sessions⟩

/-- Write the object of the ID; `events` sees it before and after. -/
def update (id : ℕ) (f : Session → Session) (events : Session → Session → List Event) : State × List Event :=
  match s.sessions.lookup id with
  | none => (s, [])
  | some o =>
    ({ s with objects := s.objects.modify o f }, (s.objects[o]?.map fun ses => events ses (f ses)).getD [])

/-- Write all objects in the map. -/
def updateAll (f : Session → Session) (events : ℕ → Session → Session → List Event) : State × List Event :=
  ({ s with objects := s.objects.mapIdx fun o ses => if s.sessions.any (·.2 = o) then f ses else ses },
    s.sessions.flatMap fun (id, o) => (s.objects[o]?.map fun ses => events id ses (f ses)).getD [])

def markRunning (id : ℕ) (now : ℤ) : State × List Event :=
  s.update id (Session.markRunning now) fun before after =>
    if before.runningChanged after then [.sessionUpdate id after.state (some after.activity)] else []

def evaluateIdle (now : ℤ) : State × List Event :=
  s.updateAll (Session.evaluateIdle now) (Session.idleEvents now)

def handleHint (id : ℕ) (visible : Bool) (now : ℤ) : State × List Event :=
  s.update id (Session.handleHint visible now) fun before after =>
    if isTerminalSessionState before.state then []
    else [.sessionUpdate id after.state (some after.activity)]

def markChildState (id : ℕ) (state : SessionState) : State × List Event :=
  s.update id (fun ses => { ses with state := state }) fun before after =>
    if before.state = state then [] else [.sessionUpdate id after.state (some after.activity)]

/-- Of one session, or of all when no ID is given. -/
def handleHistoryReset (id : ℕ) : State × List Event :=
  let events (id : ℕ) (_ after : Session) : List Event := [.sessionUpdate id after.state none]
  if id > 0 then s.update id Session.historyReset (events id) else s.updateAll Session.historyReset events

def handleInput (maskSecrets : Input → Input) (id : ℕ) (text : Input) : State × List Event :=
  s.update id (fun ses => (ses.handleInput maskSecrets text).1) fun before after =>
    if (before.handleInput maskSecrets text).2 then [.sessionUpdate id after.state none] else []

def step (maskSecrets : Input → Input) (s : State) : Action → Option (State × List Event)
  | .register id now => some (s.put id (.registered now), [])
  | .reattach id now replayed => some (s.put id (.reattached now replayed), [])
  | .markRunning id now => some (s.markRunning id now)
  | .evaluateIdle now => some (s.evaluateIdle now)
  | .handleHint id visible now => some (s.handleHint id visible now)
  | .sessionEnd id state => some (s.update id (Session.sessionEnd state) fun _ _ => [])
  | .disconnect id => some (s.update id Session.disconnect fun _ _ => [])
  | .markChildState id state =>
    -- the board's poller knows these two
    if state = .done ∨ state = .timeout then some (s.markChildState id state) else none
  | .handleHistoryReset id => some (s.handleHistoryReset id)
  | .handleInput id text => some (s.handleInput maskSecrets id text)
  | .nativeApproval id sig => some (s.update id ({ · with nativeApprovalSig := sig }) fun _ _ => [])
  | .dismiss id => some (s.without id, [])

end State

/-! ### Sessions at their end, and the others -/

/-- The label is the one of the activity, and an approval is a user wait. -/
def Session.Settled (ses : Session) : Prop :=
  ¬ isTerminalSessionState ses.state →
    ses.state = ses.activity.displayState ∧ (ses.activity.awaitingApproval → ses.activity.awaitingUser)

/-- What every handler does to a session object. -/
structure Session.Evolves (ses ses' : Session) : Prop where
  terminal : isTerminalSessionState ses.state → isTerminalSessionState ses'.state
  settled : ses.Settled → ses'.Settled

namespace Session

variable {ses ses' ses'' : Session}

theorem Evolves.refl (ses : Session) : ses.Evolves ses := ⟨id, id⟩

theorem Evolves.trans (h : ses.Evolves ses') (h' : ses'.Evolves ses'') : ses.Evolves ses'' :=
  ⟨h'.terminal ∘ h.terminal, h'.settled ∘ h.settled⟩

theorem evolves_of_eq (hs : ses'.state = ses.state) (ha : ses'.activity = ses.activity) : ses.Evolves ses' := by
  refine ⟨fun h => by rwa [hs], fun h ht => ?_⟩
  rw [hs] at ht ⊢
  rw [ha]
  exact h ht

theorem settled_of_terminal (h : isTerminalSessionState ses.state) : ses.Settled := fun ht => absurd h ht

/-- At its end a session has nothing left to go wrong. -/
theorem evolves_of_terminal (h : isTerminalSessionState ses'.state) : ses.Evolves ses' :=
  ⟨fun _ => h, fun _ => settled_of_terminal h⟩

/-- A state that is set from the activity. -/
theorem settled_derived {a : SessionActivity} (h : ses.activity = a.normalize)
    (hs : ses.state = ses.activity.displayState) : ses.Settled := by
  refine fun _ => ⟨hs, fun ha => ?_⟩
  rw [h, SessionActivity.normalize] at ha ⊢
  split_ifs at ha ⊢ with hap
  · rfl
  · exact absurd ha hap

theorem markRunning_settled (now : ℤ) (ses : Session) : (ses.markRunning now).Settled := by
  rw [markRunning]
  split_ifs with ht
  · exact settled_of_terminal ht
  · exact settled_derived rfl rfl

theorem expireApproval_state (now : ℤ) (ses : Session) : (ses.expireApproval now).state = ses.state := by
  rw [expireApproval]
  split_ifs <;> rfl

theorem checkBranch_state (now : ℤ) (ses : Session) : (ses.checkBranch now).state = ses.state := by
  rw [checkBranch]
  split_ifs <;> rfl

theorem evaluateIdle_settled (now : ℤ) (ses : Session) : (ses.evaluateIdle now).Settled := by
  simp only [evaluateIdle]
  split_ifs with ht hc
  · exact settled_of_terminal ht
  · exact settled_derived rfl rfl
  · -- nothing is written when the label is right
    simp only [Bool.or_eq_true, decide_eq_true_eq, not_or, not_not] at hc
    exact settled_derived rfl hc.2.symm

theorem handleHint_settled (visible : Bool) (now : ℤ) (ses : Session) :
    (ses.handleHint visible now).Settled := by
  by_cases ht : isTerminalSessionState ses.state
  · rw [handleHint, if_pos ht]
    exact settled_of_terminal ht
  · rw [handleHint, if_neg ht]
    exact settled_derived rfl rfl

theorem markRunning_evolves (now : ℤ) (ses : Session) : ses.Evolves (ses.markRunning now) := by
  refine ⟨fun ht => ?_, fun _ => ses.markRunning_settled now⟩
  rw [markRunning, if_pos ht]
  exact ht

theorem evaluateIdle_evolves (now : ℤ) (ses : Session) : ses.Evolves (ses.evaluateIdle now) := by
  refine ⟨fun ht => ?_, fun _ => ses.evaluateIdle_settled now⟩
  have ht' : isTerminalSessionState ((ses.checkBranch now).expireApproval now).state := by
    rwa [expireApproval_state, checkBranch_state]
  simp only [evaluateIdle]
  rwa [if_pos ht']

theorem handleHint_evolves (visible : Bool) (now : ℤ) (ses : Session) :
    ses.Evolves (ses.handleHint visible now) := by
  refine ⟨fun ht => ?_, fun _ => ses.handleHint_settled visible now⟩
  rw [handleHint, if_pos ht]
  exact ht

theorem sessionEnd_evolves (state : String) (ses : Session) : ses.Evolves (ses.sessionEnd state) := by
  rw [sessionEnd]
  split_ifs
  · exact evolves_of_terminal rfl
  · exact evolves_of_terminal rfl
  · exact Evolves.refl ses

theorem disconnect_evolves (ses : Session) : ses.Evolves ses.disconnect := by
  rw [disconnect]
  split_ifs
  · exact Evolves.refl ses
  · exact evolves_of_terminal rfl

theorem handleInput_evolves (maskSecrets : Input → Input) (text : Input) (ses : Session) :
    ses.Evolves (ses.handleInput maskSecrets text).1 := by
  rw [handleInput]
  split
  · exact Evolves.refl ses
  · split_ifs <;> exact evolves_of_eq rfl rfl

end Session

/-! ### Steps and runs -/

namespace State

variable {maskSecrets : Input → Input} {s t u : State}

/-- Every object of `s` is still there, and has evolved. -/
def Evolves (s t : State) : Prop :=
  ∀ (o : ℕ) (ses : Session), s.objects[o]? = some ses →
    ∃ ses', t.objects[o]? = some ses' ∧ ses.Evolves ses'

theorem Evolves.refl (s : State) : s.Evolves s := fun _ ses h => ⟨ses, h, .refl ses⟩

theorem Evolves.trans (h : s.Evolves t) (h' : t.Evolves u) : s.Evolves u := by
  intro o ses ho
  obtain ⟨ses', ho', he⟩ := h o ses ho
  obtain ⟨ses'', ho'', he'⟩ := h' o ses' ho'
  exact ⟨ses'', ho'', he.trans he'⟩

theorem put_evolves (s : State) (id : ℕ) (ses : Session) : s.Evolves (s.put id ses) := by
  intro o ses' ho
  have hlt := (List.getElem?_eq_some_iff.1 ho).1
  exact ⟨ses', by rw [put, List.getElem?_append_left hlt, ho], .refl ses'⟩

theorem update_evolves {f : Session → Session} {events : Session → Session → List Event} (s : State) (id : ℕ)
    (hf : ∀ ses : Session, ses.Evolves (f ses)) : s.Evolves (s.update id f events).1 := by
  rw [update]
  split
  · exact .refl s
  · rename_i o' _
    intro o ses ho
    rw [List.getElem?_modify, ho]
    refine ⟨_, rfl, ?_⟩
    split_ifs
    · exact hf ses
    · exact .refl ses

theorem updateAll_evolves {f : Session → Session} {events : ℕ → Session → Session → List Event} (s : State)
    (hf : ∀ ses : Session, ses.Evolves (f ses)) : s.Evolves (s.updateAll f events).1 := by
  intro o ses ho
  rw [updateAll, List.getElem?_mapIdx, ho]
  refine ⟨_, rfl, ?_⟩
  split_ifs
  · exact hf ses
  · exact .refl ses

theorem fst_of_step {r : State × List Event} {es : List Event} (h : some r = some (t, es)) : r.1 = t :=
  congrArg Prod.fst (Option.some.inj h)

theorem step_evolves {a : Action} {es : List Event} (h : s.step maskSecrets a = some (t, es)) :
    s.Evolves t := by
  cases a with
  | register id now => exact fst_of_step h ▸ s.put_evolves id _
  | reattach id now replayed => exact fst_of_step h ▸ s.put_evolves id _
  | markRunning id now => exact fst_of_step h ▸ s.update_evolves id (Session.markRunning_evolves now)
  | evaluateIdle now => exact fst_of_step h ▸ s.updateAll_evolves (Session.evaluateIdle_evolves now)
  | handleHint id visible now =>
    exact fst_of_step h ▸ s.update_evolves id (Session.handleHint_evolves visible now)
  | sessionEnd id state => exact fst_of_step h ▸ s.update_evolves id (Session.sessionEnd_evolves state)
  | disconnect id => exact fst_of_step h ▸ s.update_evolves id Session.disconnect_evolves
  | markChildState id state =>
    simp only [step] at h
    split_ifs at h with hst
    have hf (ses : Session) : ses.Evolves { ses with state := state } :=
      Session.evolves_of_terminal (by rcases hst with rfl | rfl <;> rfl)
    exact fst_of_step h ▸ s.update_evolves id hf
  | handleHistoryReset id =>
    simp only [step, handleHistoryReset] at h
    split_ifs at h
    · exact fst_of_step h ▸ s.update_evolves id fun ses => Session.evolves_of_eq rfl rfl
    · exact fst_of_step h ▸ s.updateAll_evolves fun ses => Session.evolves_of_eq rfl rfl
  | handleInput id text =>
    exact fst_of_step h ▸ s.update_evolves id (Session.handleInput_evolves maskSecrets text)
  | nativeApproval id sig =>
    exact fst_of_step h ▸ s.update_evolves id fun ses => Session.evolves_of_eq rfl rfl
  | dismiss id => exact fst_of_step h ▸ Evolves.refl s

theorem exec_evolves {as : List Action} {es : List Event}
    (hx : exec (step maskSecrets) s as = some (t, es)) : s.Evolves t := by
  induction as generalizing s es with
  | nil =>
    cases hx
    exact Evolves.refl t
  | cons a as ih =>
    obtain ⟨u, e₁, e₂, hs, hu, -⟩ := exec_cons_eq_some.1 hx
    exact (step_evolves hs).trans (ih hu)

/-- The objects in the map whose state a step derives from their activity. -/
def evaluates (s : State) : Action → ℕ → Prop
  | .markRunning id _, o => s.sessions.lookup id = some o
  | .handleHint id _ _, o => s.sessions.lookup id = some o
  | .evaluateIdle _, o => ∃ id, (id, o) ∈ s.sessions
  | _, _ => False

theorem update_settled {f : Session → Session} {events : Session → Session → List Event} {id o : ℕ}
    {ses : Session} (hid : s.sessions.lookup id = some o) (hf : ∀ ses, (f ses).Settled)
    (ho : (s.update id f events).1.objects[o]? = some ses) : ses.Settled := by
  simp only [update, hid, List.getElem?_modify, if_true] at ho
  obtain ⟨ses', -, rfl⟩ := Option.map_eq_some_iff.1 ho
  exact hf ses'

theorem evaluates_settled {a : Action} {es : List Event} {o : ℕ} {ses : Session}
    (h : s.step maskSecrets a = some (t, es)) (ha : s.evaluates a o) (ho : t.objects[o]? = some ses) :
    ses.Settled := by
  cases a with
  | markRunning id now =>
    rw [← fst_of_step h] at ho
    exact update_settled ha (Session.markRunning_settled now) ho
  | handleHint id visible now =>
    rw [← fst_of_step h] at ho
    exact update_settled ha (Session.handleHint_settled visible now) ho
  | evaluateIdle now =>
    rw [← fst_of_step h] at ho
    obtain ⟨id, hm⟩ := ha
    have hin : s.sessions.any (·.2 = o) := List.any_eq_true.2 ⟨_, hm, by simp⟩
    simp only [State.evaluateIdle, updateAll, List.getElem?_mapIdx, hin, if_true] at ho
    obtain ⟨ses', -, rfl⟩ := Option.map_eq_some_iff.1 ho
    exact Session.evaluateIdle_settled now ses'
  | _ => exact absurd ha id

/-- From any state on, a session object that has come to its end stays there, and one
that has been evaluated has the state of its activity whenever it is not at its end. -/
theorem session_states {a : Action} {as : List Action} {es es' : List Event}
    (ht : s.step maskSecrets a = some (t, es)) (hu : exec (step maskSecrets) t as = some (u, es'))
    (o : ℕ) (ses : Session) (ho : s.objects[o]? = some ses) :
    ∃ ses', u.objects[o]? = some ses' ∧
      (isTerminalSessionState ses.state → isTerminalSessionState ses'.state) ∧
      (s.evaluates a o → ¬ isTerminalSessionState ses'.state →
        ses'.state = ses'.activity.displayState ∧
          (ses'.activity.awaitingApproval → ses'.activity.awaitingUser)) := by
  obtain ⟨ses₁, ho₁, he₁⟩ := step_evolves ht o ses ho
  obtain ⟨ses', ho', he⟩ := exec_evolves hu o ses₁ ho₁
  refine ⟨ses', ho', (he₁.trans he).terminal, fun ha => ?_⟩
  exact he.settled (evaluates_settled ht ha ho₁)

/-- An approval shows up, and the process ends with its last output still to come. -/
theorem session_states_finished :
    ∃ ses, (exec (step id) empty [.register 1 0, .handleHint 1 true 7, .sessionEnd 1 "completed",
        .markRunning 1 8, .evaluateIdle 9]).bind (fun r => r.1.objects[0]?) = some ses ∧
      ses.activity.awaitingUser ∧ isTerminalSessionState ses.state := by
  let shown := Session.handleHint true 7 (.registered 0)
  obtain ⟨ses, ho, hterm, -⟩ := session_states
    (rfl : State.step id ⟨[{ shown with state := .completed }], [(1, 0)]⟩ (.markRunning 1 8) = some (_, _))
    (rfl : exec (step id) _ [.evaluateIdle 9] = some (_, _)) 0 _ rfl
  refine ⟨ses, ho, ?_, hterm rfl⟩
  obtain rfl := Option.some.inj ho
  rfl

end State

end ManyAiCli.Hub.Sessions
