import ManyAiCli.Runs.Machine
import Mathlib.Order.Nat
import Mathlib.Data.List.Basic

/-! Bodies that are sent to a session's terminal (`sendSubmittedBody`, `doSend`): a pasted one is
confirmed by an Enter of its own, once the output has settled. One slot holds what is still to be
sent. Is each body sent, and confirmed before the next one? -/

namespace ManyAiCli.Web.DeferredEnter

open Runs

abbrev Str := List Char

/-! ### Bodies -/

/-- `replace(/\r\n?/g, '\n')`. -/
def normalizeNewlines : Str → Str
  | '\r' :: '\n' :: s => '\n' :: normalizeNewlines s
  | '\r' :: s => '\n' :: normalizeNewlines s
  | c :: s => c :: normalizeNewlines s
  | [] => []

/-- A bracketed paste. -/
def wrap (text : Str) : Str := "\x1b[200~".toList ++ text ++ "\x1b[201~".toList

/-- `length`, in code units: some characters take two. -/
def units (s : Str) : ℕ := s.length + s.countP fun c => 0x10000 ≤ c.toNat

/-- Sent as typed: an answer to a menu, or a command. -/
def keyLike (text : Str) : Bool :=
  text = [] || units text = 1 || text.all Char.isDigit || text.head? = some '/'

/-- `deferEnter` of `buildBodySubmitPart`: the body is pasted, and its Enter comes after it. -/
def defersEnter (provider : String) (text : Str) : Bool :=
  text.contains '\n' || !(provider = "shell" || keyLike text)

structure Body where
  inject : Str
  text : Str
  pasted : Bool
  deriving DecidableEq

/-! ### The session -/

inductive Action
  | enter
  | paste (body : ℕ) (text : Str) (enterWait : ℕ)
  deriving DecidableEq

/-- What is still to be sent, and when its two timers are due. -/
structure Pending where
  startedAt : ℕ
  idleDue : ℕ
  maxDue : ℕ
  minWait : ℕ
  action : Action
  deriving DecidableEq

structure State where
  now : ℕ
  provider : String
  overrideMs : ℕ := 0
  lastDoSendAt : ℕ := 0
  inFlight : Bool := false
  /-- How many calls of `doSend` wait for the answer to a question. -/
  asking : ℕ := 0
  /-- How many wait for their images. -/
  flushing : ℕ := 0
  /-- The bodies whose input is cleared or that were handed over, in order. -/
  accepted : List Body := []
  pending : Option Pending := none
  deriving DecidableEq

/-- What is written to the terminal: bytes of a body by its number, or an Enter, with the time its
wait began and the least wait if it was deferred. -/
inductive Sent
  | bytes (body : ℕ) (text : Str)
  | enter (deferred : Option (ℕ × ℕ)) (time : ℕ)
  deriving DecidableEq

def idleSettleMs : ℕ := 120
def minWaitMs : ℕ := 120
def slowPasteMinWaitMs : ℕ := 700
def maxWaitMs : ℕ := 30000
def injectSettleMaxWaitMs : ℕ := 4000
def doubleSendGuardMs : ℕ := 100

namespace State

variable (s : State)

/-- `effectiveDeferredEnterWait`. -/
def enterWait : ℕ :=
  if 0 < s.overrideMs then s.overrideMs
  else if s.provider = "codex" ∨ s.provider = "opencode" then slowPasteMinWaitMs
  else minWaitMs

/-- The delay `setTimeout` takes: 32 bits, and none below 0. -/
def delay (ms : ℕ) : ℕ := if ms % 0x100000000 < 0x80000000 then ms % 0x100000000 else 0

def cancelDeferredEnter : State := { s with pending := none }

def schedule (action : Action) (maxWait minWait : ℕ) : State :=
  let idleDue := s.now + delay (max idleSettleMs minWait)
  { s with pending := some ⟨s.now, idleDue, s.now + delay maxWait, minWait, action⟩ }

def scheduleDeferredEnter (minWait : ℕ) : State := s.schedule .enter maxWaitMs minWait

def scheduleAfterOutputSettle (action : Action) : State := s.schedule action injectSettleMaxWaitMs minWaitMs

/-- `notifyDeferredEnterOutput`. -/
def notifyOutput : State :=
  { s with pending := s.pending.map fun p =>
      { p with idleDue := s.now + delay (max idleSettleMs (p.minWait - (s.now - p.startedAt))) } }

def fire (p : Pending) : State × List Sent :=
  match p.action with
  | .enter => (s.cancelDeferredEnter, [.enter (some (p.startedAt, p.minWait)) s.now])
  | .paste body text wait => (s.cancelDeferredEnter.scheduleDeferredEnter wait, [.bytes body text])

def accept (b : Body) : State := { s with accepted := s.accepted ++ [b] }

/-- The number of the next body. -/
def next : ℕ := s.accepted.length

def sendSubmittedBody (text : Str) : State × List Sent :=
  let s := s.cancelDeferredEnter
  if defersEnter s.provider text then
    ((s.accept ⟨[], text, true⟩).scheduleDeferredEnter s.enterWait, [.bytes s.next (wrap text)])
  else (s.accept ⟨[], text, false⟩, [.bytes s.next text, .enter none s.now])

/-- A call of `doSend` that one of its first two guards refuses. -/
def refused : Bool := s.now < s.lastDoSendAt + doubleSendGuardMs || s.inFlight

/-- `doSend` as far as its question: the model is blocked, or a menu is open, or it goes on. -/
def doSend (blocked menu : Bool) : State :=
  if s.refused then s
  else if blocked || menu then s.cancelDeferredEnter
  else { s.cancelDeferredEnter with asking := s.asking + 1 }

/-- After the question: another session is opened instead, or the images are awaited. -/
def answered (opened : Bool) : State :=
  if opened then { s with asking := s.asking - 1 }
  else { s with asking := s.asking - 1, inFlight := true, lastDoSendAt := s.now, flushing := s.flushing + 1 }

/-- The rest of `doSend`, with the images and the input as they are then. -/
def send (injects : List Str) (text : Str) : State × List Sent :=
  let rawText := normalizeNewlines text
  let inject := injects.flatten
  let t := { s with flushing := s.flushing - 1, inFlight := false }
  if rawText = [] ∧ inject ≠ [] then
    (t.accept ⟨inject, [], false⟩, [.bytes s.next inject, .enter none s.now])
  else if defersEnter s.provider rawText then
    if inject ≠ [] then
      ((t.accept ⟨inject, rawText, true⟩).scheduleAfterOutputSettle
          (.paste s.next (wrap rawText) s.enterWait), [.bytes s.next inject])
    else ((t.accept ⟨[], rawText, true⟩).scheduleDeferredEnter s.enterWait, [.bytes s.next (wrap rawText)])
  else (t.accept ⟨inject, rawText, false⟩, [.bytes s.next (inject ++ rawText), .enter none s.now])

end State

inductive Input
  | submit (text : Str)
  | doSend (blocked menu : Bool)
  | answer (opened : Bool)
  | flushed (injects : List Str) (text : Str)
  | output
  | idleTimer
  | maxTimer
  | clock (ms : ℕ)
  | configure (ms : ℕ)
  deriving DecidableEq

def step (s : State) : Input → Option (State × List Sent)
  | .submit text => some (s.sendSubmittedBody text)
  | .doSend blocked menu => some (s.doSend blocked menu, [])
  | .answer opened => if 0 < s.asking then some (s.answered opened, []) else none
  | .flushed injects text => if 0 < s.flushing then some (s.send injects text) else none
  | .output => some (s.notifyOutput, [])
  | .idleTimer =>
    match s.pending with
    | some p => if p.idleDue ≤ s.now then some (s.fire p) else none
    | none => none
  | .maxTimer =>
    match s.pending with
    | some p => if p.maxDue ≤ s.now then some (s.fire p) else none
    | none => none
  | .clock ms => some ({ s with now := s.now + ms }, [])
  | .configure ms => some ({ s with overrideMs := ms }, [])

/-- A session from its start. -/
def started (provider : String) (now : ℕ) : State := { now, provider }

/-! ### What is to be sent -/

/-- Without the times. -/
inductive Piece
  | bytes (body : ℕ) (text : Str)
  | enter
  deriving DecidableEq

def Sent.piece : Sent → Piece
  | .bytes body text => .bytes body text
  | .enter _ _ => .enter

/-- The bytes of a body, and its Enter. -/
def Body.pieces (b : Body) (body : ℕ) : List Piece :=
  if b.pasted ∧ b.inject ≠ [] then [.bytes body b.inject, .bytes body (wrap b.text), .enter]
  else [.bytes body (b.inject ++ if b.pasted then wrap b.text else b.text), .enter]

/-- Each body once, and its Enter before the next one. -/
def inTurn (bodies : List Body) : List Piece := bodies.zipIdx.flatMap fun b => b.1.pieces b.2

/-- What the slot will still send. -/
def State.remaining (s : State) : List Piece :=
  match s.pending with
  | none => []
  | some p =>
    match p.action with
    | .enter => [.enter]
    | .paste body text _ => [.bytes body text, .enter]

/-- A deferred Enter is not sent before its wait is over. -/
def Sent.Waited : Sent → Prop
  | .enter (some (startedAt, minWait)) time => startedAt + minWait ≤ time
  | _ => True

/-- The clock, and the timer that output puts off. -/
def Input.isTimer : Input → Bool
  | .clock _ | .idleTimer => true
  | _ => false

/-- Time alone sends what the slot holds. -/
def Finishes (s : State) : Prop :=
  ∃ as t es, (∀ a ∈ as, a.isTimer = true) ∧ exec step s as = some (t, es) ∧
    es.map Sent.piece = s.remaining ∧ t.pending = none ∧ t.accepted = s.accepted

/-- The bodies have been sent in turn but for what the slot holds, which time alone will send; no
deferred Enter was early. -/
structure Whole (sent : List Sent) (s : State) : Prop where
  inTurn : sent.map Sent.piece ++ s.remaining = inTurn s.accepted
  waited : ∀ e ∈ sent, e.Waited
  finishes : Finishes s

/-- No send, also one that a later guard refuses, comes while the slot holds something. -/
def calmSend (s : State) : Input → Bool
  | .submit _ | .flushed _ _ => s.pending = none
  | .doSend _ _ => s.refused || s.pending = none
  | _ => true

/-- No timer cuts the wait of an Enter short. -/
def calmTimer (s : State) : Input → Bool
  | .idleTimer | .maxTimer => s.pending.all fun p => p.action ≠ .enter || p.startedAt + p.minWait ≤ s.now
  | _ => true

def calm (s : State) (a : Input) : Bool := calmSend s a && calmTimer s a

/-! ### What one send does -/

theorem inTurn_append (bodies : List Body) (b : Body) :
    inTurn (bodies ++ [b]) = inTurn bodies ++ b.pieces bodies.length := by
  simp [inTurn, List.zipIdx_append]

@[simp] theorem remaining_of_none {s : State} (h : s.pending = none) : s.remaining = [] := by
  simp [State.remaining, h]

theorem remaining_of_enter {s : State} {p : Pending} (hp : s.pending = some p) (ha : p.action = .enter) :
    s.remaining = [.enter] := by
  simp only [State.remaining, hp, ha]

theorem remaining_of_paste {s : State} {p : Pending} {n w : ℕ} {x : Str} (hp : s.pending = some p)
    (ha : p.action = .paste n x w) : s.remaining = [.bytes n x, .enter] := by
  simp only [State.remaining, hp, ha]

theorem remaining_eq_nil {s : State} : s.remaining = [] ↔ s.pending = none := by
  refine ⟨fun h => ?_, remaining_of_none⟩
  rcases hp : s.pending with _ | p
  · rfl
  · rcases ha : p.action with _ | ⟨n, x, w⟩
    · simp [remaining_of_enter hp ha] at h
    · simp [remaining_of_paste hp ha] at h

/-- A waiting paste belongs to a body that was handed over. -/
def State.PasteBelow (s : State) : Prop :=
  ∀ p, s.pending = some p → ∀ n x w, p.action = .paste n x w → n < s.accepted.length

/-- One more body is handed over: its pieces are sent or wait in place of what waited before, or they
are all sent and what waited before still waits. -/
structure HandsOver (s t : State) (es : List Sent) : Prop where
  waited : ∀ e ∈ es, e.Waited
  below : s.PasteBelow → t.PasteBelow
  sent : ∃ b, t.accepted = s.accepted ++ [b] ∧
    (es.map Sent.piece ++ t.remaining = b.pieces s.next ∨
      t.pending = s.pending ∧ es.map Sent.piece = b.pieces s.next ∧
        ∃ x, b.pieces s.next = [.bytes s.next x, .enter])

theorem sendSubmittedBody_handsOver (s : State) (text : Str) :
    HandsOver s (s.sendSubmittedBody text).1 (s.sendSubmittedBody text).2 := by
  unfold State.sendSubmittedBody
  simp only
  split
  case isTrue h =>
    refine ⟨by simp [Sent.Waited], fun _ p hp n x w hx => ?_, ⟨[], text, true⟩, rfl, .inl ?_⟩
    · obtain rfl := Option.some.inj hp
      simp at hx
    · simp [State.remaining, State.scheduleDeferredEnter, State.schedule, Sent.piece, Body.pieces,
        State.next, State.cancelDeferredEnter]
  case isFalse h =>
    refine ⟨by simp [Sent.Waited], fun _ p hp => absurd hp.symm (Option.some_ne_none p),
      ⟨[], text, false⟩, rfl, .inl ?_⟩
    simp [State.remaining, Sent.piece, Body.pieces, State.next, State.cancelDeferredEnter, State.accept]

theorem send_handsOver (s : State) (injects : List Str) (text : Str) :
    HandsOver s (s.send injects text).1 (s.send injects text).2 := by
  have hlast (b : Body) (n : ℕ) (hn : n < s.accepted.length) : n < (s.accepted ++ [b]).length := by
    simp only [List.length_append]
    omega
  unfold State.send
  simp only
  split
  case isTrue h =>
    refine ⟨by simp [Sent.Waited], fun hb p hp n x w hx => hlast _ n (hb p hp n x w hx),
      ⟨injects.flatten, [], false⟩, rfl, .inr ⟨rfl, ?_, injects.flatten, ?_⟩⟩
    · simp [Sent.piece, Body.pieces]
    · simp [Body.pieces]
  case isFalse h =>
    split
    case isTrue hd =>
      split
      case isTrue hi =>
        refine ⟨by simp [Sent.Waited], fun _ p hp n x w hx => ?_,
          ⟨injects.flatten, normalizeNewlines text, true⟩, rfl, .inl ?_⟩
        · obtain rfl := Option.some.inj hp
          obtain ⟨rfl, -, -⟩ : s.next = n ∧ _ ∧ _ := by simpa using hx
          simp [State.scheduleAfterOutputSettle, State.schedule, State.accept, State.next]
        · simp [State.remaining, State.scheduleAfterOutputSettle, State.schedule, Sent.piece, Body.pieces, hi]
      case isFalse hi =>
        refine ⟨by simp [Sent.Waited], fun _ p hp n x w hx => ?_,
          ⟨[], normalizeNewlines text, true⟩, rfl, .inl ?_⟩
        · obtain rfl := Option.some.inj hp
          simp at hx
        · simp [State.remaining, State.scheduleDeferredEnter, State.schedule, Sent.piece, Body.pieces]
    case isFalse hd =>
      refine ⟨by simp [Sent.Waited], fun hb p hp n x w hx => hlast _ n (hb p hp n x w hx),
        ⟨injects.flatten, normalizeNewlines text, false⟩, rfl,
        .inr ⟨rfl, ?_, injects.flatten ++ normalizeNewlines text, ?_⟩⟩
      · simp [Sent.piece, Body.pieces]
      · simp [Body.pieces]

/-- A body handed over while nothing waits comes in its turn. -/
theorem HandsOver.inTurn {s t : State} {es sent : List Sent} (h : HandsOver s t es)
    (hs : sent.map Sent.piece ++ s.remaining = inTurn s.accepted) (hp : s.pending = none) :
    (sent ++ es).map Sent.piece ++ t.remaining = DeferredEnter.inTurn t.accepted := by
  obtain ⟨b, hb, hsent⟩ := h.sent
  rw [remaining_of_none hp, List.append_nil] at hs
  rw [hb, inTurn_append, ← hs, List.map_append, List.append_assoc]
  rcases hsent with hsent | ⟨ht, hsent, -⟩
  · rw [hsent, State.next]
  · rw [remaining_of_none (ht.trans hp), List.append_nil, hsent, State.next]

/-- If something waits, what waits is lost, or the body comes before it. -/
theorem HandsOver.pending_eq_none {s t : State} {es sent : List Sent} (h : HandsOver s t es)
    (hs : sent.map Sent.piece ++ s.remaining = DeferredEnter.inTurn s.accepted) (hb : s.PasteBelow)
    (ht : (sent ++ es).map Sent.piece ++ t.remaining = DeferredEnter.inTurn t.accepted) :
    s.pending = none := by
  obtain ⟨b, hacc, hsent⟩ := h.sent
  rw [hacc, inTurn_append, ← hs, List.map_append, List.append_assoc, List.append_assoc,
    List.append_cancel_left_eq] at ht
  rcases hsent with hsent | ⟨hp, hsent, x, hx⟩
  · -- What waited is gone.
    rw [hsent, State.next, List.self_eq_append_left] at ht
    exact remaining_eq_nil.1 ht
  · -- It still waits, behind the next body.
    rw [hsent, State.next] at ht
    rw [State.next] at hx
    rw [hx] at ht
    have hr : t.remaining = s.remaining := by simp only [State.remaining, hp]
    rw [hr] at ht
    rcases hq : s.pending with _ | p
    · rfl
    · rcases ha : p.action with _ | ⟨n, y, w⟩
      · simp [remaining_of_enter hq ha] at ht
      · have hn := hb p hq n y w ha
        simp only [remaining_of_paste hq ha, List.cons_append, List.nil_append, List.cons.injEq,
          Piece.bytes.injEq] at ht
        omega

/-! ### The timers -/

theorem fire_of_enter {p : Pending} (s : State) (ha : p.action = .enter) :
    s.fire p = (s.cancelDeferredEnter, [.enter (some (p.startedAt, p.minWait)) s.now]) := by
  simp only [State.fire, ha]

theorem fire_of_paste {p : Pending} {n w : ℕ} {x : Str} (s : State) (ha : p.action = .paste n x w) :
    s.fire p = (s.cancelDeferredEnter.scheduleDeferredEnter w, [.bytes n x]) := by
  simp only [State.fire, ha]

@[simp] theorem remaining_cancelDeferredEnter (s : State) : s.cancelDeferredEnter.remaining = [] := rfl

@[simp] theorem remaining_scheduleDeferredEnter (s : State) (w : ℕ) :
    (s.scheduleDeferredEnter w).remaining = [.enter] := rfl

theorem fire_pieces {s : State} {p : Pending} (hp : s.pending = some p) :
    (s.fire p).2.map Sent.piece ++ (s.fire p).1.remaining = s.remaining := by
  rcases ha : p.action with _ | ⟨n, x, w⟩
  · simp [fire_of_enter s ha, remaining_of_enter hp ha, Sent.piece]
  · simp [fire_of_paste s ha, remaining_of_paste hp ha, Sent.piece]

@[simp] theorem fire_accepted (s : State) (p : Pending) : (s.fire p).1.accepted = s.accepted := by
  rcases ha : p.action with _ | ⟨n, x, w⟩
  · rw [fire_of_enter s ha]
    rfl
  · rw [fire_of_paste s ha]
    rfl

theorem fire_below (s : State) (p : Pending) : (s.fire p).1.PasteBelow := by
  intro q hq n x w hx
  rcases ha : p.action with _ | ⟨m, y, v⟩
  · rw [fire_of_enter s ha] at hq
    exact absurd hq.symm (Option.some_ne_none q)
  · rw [fire_of_paste s ha] at hq
    obtain rfl := Option.some.inj hq
    simp at hx

/-- An Enter is in time exactly if its wait is over. -/
theorem fire_waited_iff (s : State) (p : Pending) :
    (∀ e ∈ (s.fire p).2, e.Waited) ↔ (p.action = .enter → p.startedAt + p.minWait ≤ s.now) := by
  rcases ha : p.action with _ | ⟨n, x, w⟩
  · simp [fire_of_enter s ha, Sent.Waited]
  · simp [fire_of_paste s ha, Sent.Waited]

/-- The wait for silence ends in a silence. -/
theorem exec_idleTimer {s : State} {p : Pending} (hp : s.pending = some p) :
    exec step s [.clock (p.idleDue - s.now), .idleTimer] =
      some (State.fire { s with now := s.now + (p.idleDue - s.now) } p) := by
  have h : p.idleDue ≤ s.now + (p.idleDue - s.now) := by omega
  simp [exec, step, hp, h]

/-- A pasted body and its Enter need two such waits. -/
theorem finishes (s : State) : Finishes s := by
  rcases hp : s.pending with _ | p
  · exact ⟨[], s, [], by simp, rfl, by simp [remaining_of_none hp], hp, rfl⟩
  · have hfirst := exec_idleTimer hp
    rcases ha : p.action with _ | ⟨n, x, w⟩
    · rw [fire_of_enter _ ha] at hfirst
      refine ⟨_, _, _, by simp [Input.isTimer], hfirst, ?_, rfl, rfl⟩
      simp [remaining_of_enter hp ha, Sent.piece]
    · rw [fire_of_paste _ ha] at hfirst
      have hsecond := exec_idleTimer
        (s := (State.cancelDeferredEnter { s with now := s.now + (p.idleDue - s.now) }).scheduleDeferredEnter w)
        rfl
      rw [fire_of_enter _ rfl] at hsecond
      refine ⟨_, _, _, by simp [Input.isTimer], exec_append hfirst hsecond, ?_, rfl, rfl⟩
      simp [remaining_of_paste hp ha, Sent.piece]

/-! ### Runs -/

/-- What a step must keep, that time will finish apart. -/
structure Sound (sent : List Sent) (s : State) : Prop where
  inTurn : sent.map Sent.piece ++ s.remaining = inTurn s.accepted
  waited : ∀ e ∈ sent, e.Waited
  below : s.PasteBelow

theorem Sound.whole {sent : List Sent} {s : State} (h : Sound sent s) : Whole sent s :=
  ⟨h.inTurn, h.waited, finishes s⟩

theorem sound_started (provider : String) (now : ℕ) : Sound [] (started provider now) :=
  ⟨rfl, by simp, fun p hp => absurd hp.symm (Option.some_ne_none p)⟩

/-- A step that writes nothing and leaves the slot's action and the bodies as they are. -/
theorem Sound.of_same {sent : List Sent} {s t : State} (h : Sound sent s) (hr : t.remaining = s.remaining)
    (ha : t.accepted = s.accepted) (hb : s.PasteBelow → t.PasteBelow) : Sound (sent ++ []) t := by
  rw [List.append_nil]
  exact ⟨by rw [hr, ha, h.inTurn], h.waited, hb h.below⟩

/-- A send is sound exactly if nothing waits. -/
theorem HandsOver.sound_iff_free {s t : State} {es sent : List Sent} (h : HandsOver s t es) (hs : Sound sent s) :
    (s.pending = none → Sound (sent ++ es) t) ∧ (Whole (sent ++ es) t → s.pending = none) := by
  refine ⟨fun hp => ⟨h.inTurn hs.inTurn hp, ?_, h.below hs.below⟩, fun ht =>
    h.pending_eq_none hs.inTurn hs.below ht.inTurn⟩
  exact List.forall_mem_append.2 ⟨hs.waited, h.waited⟩

/-- A timer is sound exactly if it cuts no wait short. -/
theorem Sound.fire_iff {sent : List Sent} {s : State} {p : Pending} (hs : Sound sent s)
    (hp : s.pending = some p) :
    ((p.action = .enter → p.startedAt + p.minWait ≤ s.now) →
        Sound (sent ++ (s.fire p).2) (s.fire p).1) ∧
      (Whole (sent ++ (s.fire p).2) (s.fire p).1 →
        p.action = .enter → p.startedAt + p.minWait ≤ s.now) := by
  rw [← fire_waited_iff]
  refine ⟨fun hw => ⟨?_, List.forall_mem_append.2 ⟨hs.waited, hw⟩, fire_below s p⟩, fun ht =>
    (List.forall_mem_append.1 ht.waited).2⟩
  rw [List.map_append, List.append_assoc, fire_pieces hp, fire_accepted, hs.inTurn]

/-- Clearing the slot is sound exactly if it is empty. -/
theorem Sound.cancel_iff {sent : List Sent} {s t : State} (hs : Sound sent s) (hp : t.pending = none)
    (ha : t.accepted = s.accepted) :
    (s.pending = none → Sound (sent ++ []) t) ∧ (Whole (sent ++ []) t → s.pending = none) := by
  refine ⟨fun h => hs.of_same ?_ ha ?_, fun ht => ?_⟩
  · rw [remaining_of_none h, remaining_of_none hp]
  · exact fun _ p hq => absurd (hq.symm.trans hp) (Option.some_ne_none p)
  · have hturn := ht.inTurn
    rw [List.append_nil, remaining_of_none hp, List.append_nil, ha, ← hs.inTurn, List.self_eq_append_right]
      at hturn
    exact remaining_eq_nil.1 hturn

theorem notifyOutput_remaining (s : State) : s.notifyOutput.remaining = s.remaining := by
  rcases hp : s.pending with _ | p <;> simp [State.notifyOutput, State.remaining, hp]

theorem notifyOutput_below {s : State} (h : s.PasteBelow) : s.notifyOutput.PasteBelow := by
  intro p hp n x w hx
  obtain ⟨q, hq, rfl⟩ := Option.map_eq_some_iff.1 hp
  exact h q hq n x w hx

theorem doSend_of_refused {s : State} (h : s.refused = true) (blocked menu : Bool) :
    s.doSend blocked menu = s := if_pos h

/-- Any other call clears the slot, whatever it does next. -/
theorem doSend_pending {s : State} (h : s.refused = false) (blocked menu : Bool) :
    (s.doSend blocked menu).pending = none := by
  unfold State.doSend
  rw [if_neg (by simp [h])]
  split <;> rfl

theorem doSend_accepted (s : State) (blocked menu : Bool) :
    (s.doSend blocked menu).accepted = s.accepted := by
  unfold State.doSend
  split
  · rfl
  · split <;> rfl

theorem idleTimer_fires {s t : State} {es : List Sent} (h : step s .idleTimer = some (t, es)) :
    ∃ p, s.pending = some p ∧ p.idleDue ≤ s.now ∧ s.fire p = (t, es) := by
  rcases hp : s.pending with _ | p
  · simp [step, hp] at h
  · simp only [step, hp, Option.ite_none_right_eq_some, Option.some.injEq] at h
    exact ⟨p, rfl, h⟩

theorem maxTimer_fires {s t : State} {es : List Sent} (h : step s .maxTimer = some (t, es)) :
    ∃ p, s.pending = some p ∧ p.maxDue ≤ s.now ∧ s.fire p = (t, es) := by
  rcases hp : s.pending with _ | p
  · simp [step, hp] at h
  · simp only [step, hp, Option.ite_none_right_eq_some, Option.some.injEq] at h
    exact ⟨p, rfl, h⟩

/-- Each step of a calm run is sound, and no other step leaves the bodies whole. -/
theorem step_sound {sent : List Sent} {s t : State} {a : Input} {es : List Sent} (hs : Sound sent s)
    (h : step s a = some (t, es)) :
    (calm s a = true → Sound (sent ++ es) t) ∧ (Whole (sent ++ es) t → calm s a = true) := by
  cases a with
  | submit text =>
    have hover := (sendSubmittedBody_handsOver s text).sound_iff_free hs
    rw [Option.some.inj h] at hover
    simpa [calm, calmSend, calmTimer] using hover
  | doSend blocked menu =>
    obtain ⟨rfl, rfl⟩ := Prod.mk.inj (Option.some.inj h)
    rcases hr : s.refused with _ | _
    · simpa [calm, calmSend, calmTimer, hr] using
        hs.cancel_iff (doSend_pending hr blocked menu) (doSend_accepted s blocked menu)
    · rw [doSend_of_refused hr]
      exact ⟨fun _ => hs.of_same rfl rfl id, fun _ => by simp [calm, calmSend, calmTimer, hr]⟩
  | answer opened =>
    simp only [step, Option.ite_none_right_eq_some, Option.some.injEq, Prod.mk.injEq] at h
    obtain ⟨-, rfl, rfl⟩ := h
    cases opened with
    | false => exact ⟨fun _ => hs.of_same rfl rfl id, fun _ => rfl⟩
    | true => exact ⟨fun _ => hs.of_same rfl rfl id, fun _ => rfl⟩
  | flushed injects text =>
    simp only [step, Option.ite_none_right_eq_some, Option.some.injEq] at h
    have hover := (send_handsOver s injects text).sound_iff_free hs
    rw [h.2] at hover
    simpa [calm, calmSend, calmTimer] using hover
  | output =>
    obtain ⟨rfl, rfl⟩ := Prod.mk.inj (Option.some.inj h)
    exact ⟨fun _ => hs.of_same (notifyOutput_remaining s) rfl notifyOutput_below, fun _ => rfl⟩
  | idleTimer =>
    obtain ⟨p, hp, -, hf⟩ := idleTimer_fires h
    have hfire := hs.fire_iff hp
    rw [hf] at hfire
    simpa [calm, calmSend, calmTimer, hp, or_iff_not_imp_left] using hfire
  | maxTimer =>
    obtain ⟨p, hp, -, hf⟩ := maxTimer_fires h
    have hfire := hs.fire_iff hp
    rw [hf] at hfire
    simpa [calm, calmSend, calmTimer, hp, or_iff_not_imp_left] using hfire
  | clock ms =>
    obtain ⟨rfl, rfl⟩ := Prod.mk.inj (Option.some.inj h)
    exact ⟨fun _ => hs.of_same rfl rfl id, fun _ => rfl⟩
  | configure ms =>
    obtain ⟨rfl, rfl⟩ := Prod.mk.inj (Option.some.inj h)
    exact ⟨fun _ => hs.of_same rfl rfl id, fun _ => rfl⟩

/-- In every run whose steps are all calm, and in no other, each body is sent once with an Enter of
its own before the next one, at every moment but for what is still to come. -/
theorem sent_in_turn_iff {provider : String} {now : ℕ} {as : List Input} {t : State} {es : List Sent}
    (h : exec step (started provider now) as = some (t, es)) :
    (∀ bs, bs <+: as → ∀ u fs, exec step (started provider now) bs = some (u, fs) → Whole fs u) ↔
      Meets step (fun s a => calm s a = true) (started provider now) as :=
  forall_prefix_iff_meets_of (fun _ _ hs => hs.whole) (fun _ _ _ _ _ hs hx => step_sound hs hx)
    (sound_started provider now) h

/-- A session with an image before a pasted body. -/
def calmRun : List Input :=
  [.clock 1000, .submit "run it".toList, .output, .clock 130, .idleTimer, .doSend false false,
    .answer false, .doSend false true, .flushed ["@/a.png ".toList] "look at it".toList, .output,
    .clock 150, .idleTimer, .clock 200, .idleTimer]

theorem calmRun_whole : ∃ t es, exec step (started "claude" 0) calmRun = some (t, es) ∧ Whole es t := by
  have hcalm : Meets step (fun s a => calm s a = true) (started "claude" 0) calmRun := by decide
  exact ⟨_, _, rfl, (sent_in_turn_iff rfl).2 hcalm calmRun List.prefix_rfl _ _ rfl⟩

/-- A quick reply while an image settles. -/
def quickReply : List Input :=
  [.clock 1000, .doSend false false, .answer false, .flushed ["@/a.png ".toList] "look at it".toList,
    .submit "run it".toList]

/-- The text that was to follow the image is never sent, though its input was cleared. -/
theorem pasted_text_lost : ¬ ∀ (provider : String) (now : ℕ) (as : List Input) (t : State)
    (es : List Sent), exec step (started provider now) as = some (t, es) → Whole es t := by
  intro h
  have hrun : (exec step (started "claude" 0) quickReply).isSome = true := by decide
  have hlost : (exec step (started "claude" 0) quickReply).all
      (fun r => decide (r.2.map Sent.piece ++ r.1.remaining ≠ inTurn r.1.accepted)) = true := by decide
  obtain ⟨⟨t, es⟩, hx⟩ := Option.isSome_iff_exists.1 hrun
  rw [hx, Option.all_some] at hlost
  exact of_decide_eq_true hlost (h _ _ _ _ _ hx).inTurn

/-! ### Waits that the limit allows -/

/-- The waits are within the slot's limit, and no timer is due before they are over. -/
structure InTime (s : State) : Prop where
  override : s.overrideMs ≤ maxWaitMs
  paste : ∀ p, s.pending = some p → ∀ n x w, p.action = .paste n x w → w ≤ maxWaitMs
  started : ∀ p, s.pending = some p → p.startedAt ≤ s.now
  wait : ∀ p, s.pending = some p → p.minWait ≤ maxWaitMs
  idle : ∀ p, s.pending = some p → p.startedAt + p.minWait ≤ p.idleDue
  max : ∀ p, s.pending = some p → p.action = .enter → p.startedAt + p.minWait ≤ p.maxDue

theorem delay_eq {ms : ℕ} (h : ms ≤ maxWaitMs) : State.delay ms = ms := by
  simp only [maxWaitMs] at h
  have hlt : ms < 0x80000000 := by omega
  have hmod : ms % 0x100000000 = ms := Nat.mod_eq_of_lt (by omega)
  rw [State.delay, hmod, if_pos hlt]

theorem enterWait_le {s : State} (h : s.overrideMs ≤ maxWaitMs) : s.enterWait ≤ maxWaitMs := by
  unfold State.enterWait
  split
  · exact h
  · split <;> decide

theorem le_delay_max {ms : ℕ} (h : ms ≤ maxWaitMs) : ms ≤ State.delay (max idleSettleMs ms) := by
  rw [delay_eq (max_le (by decide) h)]
  exact le_max_right idleSettleMs ms

theorem InTime.of_none {s : State} (h : s.overrideMs ≤ maxWaitMs) (hp : s.pending = none) : InTime s := by
  have hne (p : Pending) : s.pending ≠ some p := by simp [hp]
  exact ⟨h, fun p hs => absurd hs (hne p), fun p hs => absurd hs (hne p), fun p hs => absurd hs (hne p),
    fun p hs => absurd hs (hne p), fun p hs => absurd hs (hne p)⟩

theorem inTime_schedule {s : State} {action : Action} {maxWait minWait : ℕ} (h : s.overrideMs ≤ maxWaitMs)
    (hmin : minWait ≤ maxWaitMs) (hmax : action = .enter → maxWait = maxWaitMs)
    (hw : ∀ n x w, action = .paste n x w → w ≤ maxWaitMs) :
    InTime (s.schedule action maxWait minWait) := by
  refine ⟨h, ?_, ?_, ?_, ?_, ?_⟩ <;> intro p hp <;> obtain rfl := Option.some.inj hp
  · exact hw
  · exact le_rfl
  · exact hmin
  · exact Nat.add_le_add_left (le_delay_max hmin) s.now
  · intro ha
    rw [hmax ha, delay_eq le_rfl]
    exact Nat.add_le_add_left hmin s.now

/-- A step that leaves the slot alone and takes no time back. -/
theorem InTime.of_same {s t : State} (h : InTime s) (ho : t.overrideMs ≤ maxWaitMs)
    (hp : t.pending = s.pending) (hn : s.now ≤ t.now) : InTime t :=
  ⟨ho, hp ▸ h.paste, fun p hs => (h.started p (hp ▸ hs)).trans hn, hp ▸ h.wait, hp ▸ h.idle,
    hp ▸ h.max⟩

theorem InTime.notifyOutput {s : State} (h : InTime s) : InTime s.notifyOutput := by
  refine ⟨h.override, ?_, ?_, ?_, ?_, ?_⟩ <;> intro p hp <;>
    obtain ⟨q, hq, rfl⟩ := Option.map_eq_some_iff.1 hp
  · exact h.paste q hq
  · exact h.started q hq
  · exact h.wait q hq
  · have hs := h.started q hq
    have hle : q.minWait - (s.now - q.startedAt) ≤ maxWaitMs := (Nat.sub_le ..).trans (h.wait q hq)
    have hd := le_delay_max hle
    simp only
    omega
  · exact h.max q hq

theorem InTime.fire {s : State} (h : InTime s) {p : Pending} (hp : s.pending = some p) :
    InTime (s.fire p).1 := by
  rcases ha : p.action with _ | ⟨n, x, w⟩
  · rw [fire_of_enter s ha]
    exact .of_none h.override rfl
  · rw [fire_of_paste s ha]
    exact inTime_schedule h.override (h.paste p hp n x w ha) (fun _ => rfl) fun _ _ _ hx => by simp at hx

theorem InTime.sendSubmittedBody {s : State} (h : InTime s) (text : Str) :
    InTime (s.sendSubmittedBody text).1 := by
  unfold State.sendSubmittedBody
  simp only
  split
  · exact inTime_schedule h.override (enterWait_le h.override) (fun _ => rfl) fun _ _ _ hx => by simp at hx
  · exact .of_none h.override rfl

theorem InTime.send {s : State} (h : InTime s) (injects : List Str) (text : Str) :
    InTime (s.send injects text).1 := by
  unfold State.send
  simp only
  split
  · exact h.of_same h.override rfl le_rfl
  · split
    · split
      · refine inTime_schedule h.override (by decide) (fun hx => by simp at hx) fun n x w hx => ?_
        obtain ⟨-, -, rfl⟩ := Action.paste.inj hx
        exact enterWait_le h.override
      · exact inTime_schedule h.override (enterWait_le h.override) (fun _ => rfl) fun _ _ _ hx => by simp at hx
    · exact h.of_same h.override rfl le_rfl

theorem InTime.doSend {s : State} (h : InTime s) (blocked menu : Bool) : InTime (s.doSend blocked menu) := by
  unfold State.doSend
  split
  · exact h
  · split
    · exact .of_none h.override rfl
    · exact .of_none h.override rfl

/-- With such settings the waits stay within the limit, and no timer is early. -/
theorem InTime.step {s t : State} {a : Input} {es : List Sent} (h : InTime s)
    (hc : ∀ ms, a = .configure ms → ms ≤ maxWaitMs) (hx : step s a = some (t, es)) :
    InTime t ∧ calmTimer s a = true := by
  cases a with
  | submit text =>
    have hs := h.sendSubmittedBody text
    rw [Option.some.inj hx] at hs
    exact ⟨hs, rfl⟩
  | doSend blocked menu =>
    obtain ⟨rfl, -⟩ := Prod.mk.inj (Option.some.inj hx)
    exact ⟨h.doSend blocked menu, rfl⟩
  | answer opened =>
    simp only [DeferredEnter.step, Option.ite_none_right_eq_some, Option.some.injEq, Prod.mk.injEq] at hx
    obtain ⟨-, rfl, -⟩ := hx
    cases opened with
    | false => exact ⟨h.of_same h.override rfl le_rfl, rfl⟩
    | true => exact ⟨h.of_same h.override rfl le_rfl, rfl⟩
  | flushed injects text =>
    simp only [DeferredEnter.step, Option.ite_none_right_eq_some, Option.some.injEq] at hx
    have hs := h.send injects text
    rw [hx.2] at hs
    exact ⟨hs, rfl⟩
  | output =>
    obtain ⟨rfl, -⟩ := Prod.mk.inj (Option.some.inj hx)
    exact ⟨h.notifyOutput, rfl⟩
  | idleTimer =>
    obtain ⟨p, hp, hdue, hf⟩ := idleTimer_fires hx
    have hs := h.fire hp
    rw [hf] at hs
    have hwait := (h.idle p hp).trans hdue
    exact ⟨hs, by simp [calmTimer, hp, hwait]⟩
  | maxTimer =>
    obtain ⟨p, hp, hdue, hf⟩ := maxTimer_fires hx
    have hs := h.fire hp
    rw [hf] at hs
    have hwait (ha : p.action = .enter) := (h.max p hp ha).trans hdue
    exact ⟨hs, by simpa [calmTimer, hp, or_iff_not_imp_left] using hwait⟩
  | clock ms =>
    obtain ⟨rfl, -⟩ := Prod.mk.inj (Option.some.inj hx)
    exact ⟨h.of_same h.override rfl (Nat.le_add_right s.now ms), rfl⟩
  | configure ms =>
    obtain ⟨rfl, -⟩ := Prod.mk.inj (Option.some.inj hx)
    exact ⟨h.of_same (hc ms rfl) rfl le_rfl, rfl⟩

/-- With settings of at most 30 s only the sends decide. -/
theorem meets_calm_iff {s t : State} {as : List Input} {es : List Sent} (hs : InTime s)
    (hc : ∀ ms, .configure ms ∈ as → ms ≤ maxWaitMs) (hx : exec step s as = some (t, es)) :
    Meets step (fun s a => calm s a = true) s as ↔ Meets step (fun s a => calmSend s a = true) s as := by
  induction as generalizing s es with
  | nil => exact Iff.rfl
  | cons a as ih =>
    obtain ⟨u, es₁, es₂, hstep, hrun, rfl⟩ := exec_cons_eq_some.1 hx
    obtain ⟨hu, htimer⟩ := hs.step (fun ms ha => hc ms (ha ▸ List.mem_cons_self)) hstep
    have htail := ih hu (fun ms hm => hc ms (List.mem_cons_of_mem a hm)) hrun
    have hok : calm s a = calmSend s a := by rw [calm, htimer, Bool.and_true]
    simp only [Meets, hstep, hok, htail]

/-- A session's first settings are in time. -/
theorem inTime_started (provider : String) (now : ℕ) : InTime (started provider now) :=
  .of_none (Nat.zero_le maxWaitMs) rfl

/-- So in every run with such settings the bodies stay whole exactly if no send meets a full slot. -/
theorem whole_iff_calmSend {provider : String} {now : ℕ} {as : List Input} {t : State} {es : List Sent}
    (hc : ∀ ms, .configure ms ∈ as → ms ≤ maxWaitMs)
    (h : exec step (started provider now) as = some (t, es)) :
    (∀ bs, bs <+: as → ∀ u fs, exec step (started provider now) bs = some (u, fs) → Whole fs u) ↔
      Meets step (fun s a => calmSend s a = true) (started provider now) as := by
  rw [← meets_calm_iff (inTime_started provider now) hc h]
  exact forall_prefix_iff_meets_of (fun _ _ hs => hs.whole) (fun _ _ _ _ _ hs hx => step_sound hs hx)
    (sound_started provider now) h

end ManyAiCli.Web.DeferredEnter
