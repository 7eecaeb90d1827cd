import ManyAiCli.Runs.Machine
import Mathlib.Data.List.DropRight

/-! The wrapper's connection to the Hub. The pump sends the output of the process on the
current connection and keeps its end for a replay; each connection has a receive loop,
which takes the connection away when it is lost or the Hub shuts down; the supervisor
then connects again and hands over the replay. Each step is one stretch of a goroutine
under its locks, so these interleave in any order. -/

namespace ManyAiCli.Wrapper

open Runs

def replayBufferLimit : ℕ := 65536

def appendReplay (replayBuf chunk : List UInt8) : List UInt8 :=
  (replayBuf ++ chunk).rtake replayBufferLimit

structure Config where
  autoShutdown : Bool
  /-- `WrapperReconnectGraceSec`, of which negative values are zero. -/
  graceSec : ℕ
  deriving DecidableEq, Repr

/-- What the receive loop of a connection does next. -/
inductive Loop
  | unstarted
  | reading
  | clearing
  | notifying
  | ended
  deriving DecidableEq, Repr

structure Conn where
  loop : Loop
  /-- The Hub has told on this connection that it shuts down. -/
  announced : Bool
  /-- Nothing gets through any more. -/
  lost : Bool
  /-- What the Hub got on it: the replay and the `pty_data` after it. -/
  stream : List UInt8
  /-- How much of the output the replay reaches up to, and how much of it the
  connections before had carried. -/
  snapped : ℕ
  since : ℕ
  deriving DecidableEq, Repr

/-- What the supervisor does next. -/
inductive Supervisor
  | waiting
  | retrying
  | dialing (replay : List UInt8) (snapped : ℕ)
  | dialed (replay : List UInt8) (snapped : ℕ) (lost : Bool)
  | swapped
  | started
  /-- The process has been ended. -/
  | closed
  deriving DecidableEq, Repr

inductive Outcome
  | hubAlive
  | autoShutdown
  | graceDisabled
  | reconnecting
  deriving DecidableEq, Repr

/-- The supervisor sees to the loss of the last connection. -/
inductive Event
  | loss (announced intentional : Bool) (outcome : Outcome)
  deriving DecidableEq, Repr

structure State where
  conns : List Conn
  currentConn : Option ℕ
  intentional : Bool
  /-- `reconnectCh` has its one slot filled. -/
  notified : Bool
  supervisor : Supervisor
  replayBuf : List UInt8
  /-- The output whose sending is over, and the chunk in between. -/
  pumped : List UInt8
  inHand : Option (List UInt8)
  /-- The process has ended and all its output has been read. -/
  ended : Bool
  /-- How much of the output the connections have carried. -/
  carried : ℕ
  done : Bool
  deriving DecidableEq, Repr

/-- Registered, with the loop and the supervisor running. -/
def State.registered : State :=
  ⟨[⟨.reading, false, false, [], 0, 0⟩], some 0, false, false, .waiting, [], [], none, false, 0, false⟩

inductive Action
  | produce (chunk : List UInt8)
  | sendMsg
  | pumpEnd
  | closeAnyConn
  | lose (c : ℕ)
  | readError (c : ℕ)
  | recover (c : ℕ)
  | hubShutdown (c : ℕ)
  | clearConn (c : ℕ)
  | notifyReconnect (c : ℕ)
  | wake (hubAlive : Bool)
  | expire
  | snapshotReplay
  | dialFail
  | reject
  | dialAndReattach
  | loseDialed
  | swapConn
  | startReceiveLoop
  | storeIntentional
  | quit
  deriving DecidableEq, Repr

namespace State

variable (cfg : Config) (s : State)

def output : List UInt8 := s.pumped ++ s.inHand.getD []

def setConn (c : ℕ) (f : Conn → Conn) : State := { s with conns := s.conns.modify c f }

/-! ### The pump -/

def produce (chunk : List UInt8) : Option State :=
  if s.inHand = none ∧ !s.ended then
    some { s with replayBuf := appendReplay s.replayBuf chunk, inHand := some chunk }
  else none

/-- Without a connection the message is dropped. -/
def sendMsg : Option State :=
  match s.inHand with
  | none => none
  | some chunk =>
    let t := { s with pumped := s.pumped ++ chunk, inHand := none }
    match s.currentConn with
    | none => some t
    | some c =>
      if s.conns[c]?.any fun conn => !conn.lost then
        some { t.setConn c fun conn => { conn with stream := conn.stream ++ chunk } with
          carried := t.pumped.length }
      else some t

def pumpEnd : Option State :=
  if s.inHand = none then some { s with ended := true, done := true } else none

/-- After the message that the session has ended. -/
def closeAnyConn : Option State := if s.ended then some { s with currentConn := none } else none

/-! ### Receive loops -/

/-- The loop of a connection goes on from one point to another. -/
def loopStep (c : ℕ) (before : Loop) (f : Conn → Conn) : Option State :=
  if s.conns[c]?.any fun conn => conn.loop = before then some (s.setConn c f) else none

def readError (c : ℕ) : Option State :=
  s.loopStep c .reading ({ · with loop := if s.done then .ended else .clearing })

/-- After a panic. -/
def recover (c : ℕ) : Option State := s.loopStep c .reading ({ · with loop := .clearing })

def hubShutdown (c : ℕ) : Option State :=
  ({ s with intentional := true } : State).loopStep c .reading
    ({ · with loop := .clearing, announced := true })

def clearConn (c : ℕ) : Option State :=
  ({ s with currentConn := if s.currentConn = some c then none else s.currentConn } : State).loopStep c
    .clearing ({ · with loop := .notifying })

def notifyReconnect (c : ℕ) : Option State :=
  ({ s with notified := true } : State).loopStep c .notifying ({ · with loop := .ended })

/-! ### The supervisor -/

/-- `probe` is asked only when the shutdown was not intentional. -/
def outcome (hubAlive : Bool) : Outcome :=
  if !s.intentional && hubAlive then .hubAlive
  else if !s.intentional && cfg.autoShutdown then .autoShutdown
  else if cfg.graceSec = 0 then .graceDisabled
  else .reconnecting

def wake (hubAlive : Bool) : Option (State × List Event) :=
  if s.supervisor = .waiting ∧ s.notified then
    let outcome := s.outcome cfg hubAlive
    let next := if outcome = .reconnecting then .retrying else .closed
    some ({ s with notified := false, supervisor := next, done := s.done || next = .closed },
      [.loss (s.conns.getLast?.any (·.announced)) s.intentional outcome])
  else none

def snapshotReplay : Option State :=
  if s.supervisor = .retrying then some { s with supervisor := .dialing s.replayBuf s.output.length }
  else none

def dialFail : Option State :=
  match s.supervisor with
  | .dialing _ _ => some { s with supervisor := .retrying }
  | _ => none

/-- The grace period is over, or the Hub turns the wrapper away. -/
def expire : Option State :=
  if s.supervisor = .retrying then some { s with supervisor := .closed, done := true } else none

def reject : Option State :=
  match s.supervisor with
  | .dialing _ _ => some { s with supervisor := .closed, done := true }
  | _ => none

/-- The Hub has accepted the connection and the replay. -/
def dialAndReattach : Option State :=
  match s.supervisor with
  | .dialing replay snapped => some { s with supervisor := .dialed replay snapped false }
  | _ => none

def loseDialed : Option State :=
  match s.supervisor with
  | .dialed replay snapped _ => some { s with supervisor := .dialed replay snapped true }
  | _ => none

def swapConn : Option State :=
  match s.supervisor with
  | .dialed replay snapped lost =>
    some { s with
      conns := s.conns ++ [⟨.unstarted, false, lost, replay, snapped, s.carried⟩]
      currentConn := some s.conns.length
      carried := snapped
      supervisor := .swapped }
  | _ => none

def startReceiveLoop : Option State :=
  if s.supervisor = .swapped then
    some { s.setConn (s.conns.length - 1) ({ · with loop := .reading }) with supervisor := .started }
  else none

/-- Only after the new connection's loop has been started. -/
def storeIntentional : Option State :=
  if s.supervisor = .started then some { s with intentional := false, supervisor := .waiting } else none

/-- The process has ended by itself. -/
def quit : Option State :=
  if s.done ∧ (s.supervisor = .waiting ∨ s.supervisor = .retrying) then some { s with supervisor := .closed }
  else none

def quietly (t : Option State) : Option (State × List Event) := t.map fun t => (t, [])

def step (s : State) : Action → Option (State × List Event)
  | .produce chunk => quietly (s.produce chunk)
  | .sendMsg => quietly s.sendMsg
  | .pumpEnd => quietly s.pumpEnd
  | .closeAnyConn => quietly s.closeAnyConn
  | .lose c => quietly (some (s.setConn c ({ · with lost := true })))
  | .readError c => quietly (s.readError c)
  | .recover c => quietly (s.recover c)
  | .hubShutdown c => quietly (s.hubShutdown c)
  | .clearConn c => quietly (s.clearConn c)
  | .notifyReconnect c => quietly (s.notifyReconnect c)
  | .wake hubAlive => s.wake cfg hubAlive
  | .expire => quietly s.expire
  | .snapshotReplay => quietly s.snapshotReplay
  | .dialFail => quietly s.dialFail
  | .reject => quietly s.reject
  | .dialAndReattach => quietly s.dialAndReattach
  | .loseDialed => quietly s.loseDialed
  | .swapConn => quietly s.swapConn
  | .startReceiveLoop => quietly s.startReceiveLoop
  | .storeIntentional => quietly s.storeIntentional
  | .quit => quietly s.quit

/-! ### What a step can do -/

/-- The current connection, while it gets something through. -/
def alive (s : State) (c : ℕ) : Prop :=
  s.currentConn = some c ∧ ∃ conn, s.conns[c]? = some conn ∧ conn.lost = false

def loopAt (s : State) (c : ℕ) (loop : Loop) : Prop := ∃ conn, s.conns[c]? = some conn ∧ conn.loop = loop

/-- The steps, with what each needs and leaves. -/
inductive Takes (cfg : Config) (s : State) : Action → State → List Event → Prop
  | produce (chunk : List UInt8) (hh : s.inHand = none) :
    Takes cfg s (.produce chunk)
      { s with replayBuf := appendReplay s.replayBuf chunk, inHand := some chunk } []
  | dropped (chunk : List UInt8) (hh : s.inHand = some chunk) (hc : ∀ c, ¬ s.alive c) :
    Takes cfg s .sendMsg { s with pumped := s.pumped ++ chunk, inHand := none } []
  | sent (chunk : List UInt8) (c : ℕ) (hh : s.inHand = some chunk) (hc : s.alive c) :
    Takes cfg s .sendMsg { s with
      conns := s.conns.modify c fun conn => { conn with stream := conn.stream ++ chunk }
      pumped := s.pumped ++ chunk
      inHand := none
      carried := (s.pumped ++ chunk).length } []
  | pumpEnd (hh : s.inHand = none) : Takes cfg s .pumpEnd { s with ended := true, done := true } []
  | closeAnyConn (he : s.ended = true) : Takes cfg s .closeAnyConn { s with currentConn := none } []
  | lose (c : ℕ) : Takes cfg s (.lose c) (s.setConn c ({ · with lost := true })) []
  | readError (c : ℕ) (hc : s.loopAt c .reading) :
    Takes cfg s (.readError c) (s.setConn c ({ · with loop := if s.done then .ended else .clearing })) []
  | recover (c : ℕ) (hc : s.loopAt c .reading) :
    Takes cfg s (.recover c) (s.setConn c ({ · with loop := .clearing })) []
  | hubShutdown (c : ℕ) (hc : s.loopAt c .reading) :
    Takes cfg s (.hubShutdown c)
      { s.setConn c ({ · with loop := .clearing, announced := true }) with intentional := true } []
  | clearConn (c : ℕ) (hc : s.loopAt c .clearing) :
    Takes cfg s (.clearConn c) { s.setConn c ({ · with loop := .notifying }) with
      currentConn := if s.currentConn = some c then none else s.currentConn } []
  | notifyReconnect (c : ℕ) (hc : s.loopAt c .notifying) :
    Takes cfg s (.notifyReconnect c) { s.setConn c ({ · with loop := .ended }) with notified := true } []
  | wake (hubAlive : Bool) (hw : s.supervisor = .waiting) (hn : s.notified = true) :
    Takes cfg s (.wake hubAlive)
      { s with
        notified := false
        supervisor := if s.outcome cfg hubAlive = .reconnecting then .retrying else .closed
        done := s.done || s.outcome cfg hubAlive ≠ .reconnecting }
      [.loss (s.conns.getLast?.any (·.announced)) s.intentional (s.outcome cfg hubAlive)]
  | expire (hs : s.supervisor = .retrying) :
    Takes cfg s .expire { s with supervisor := .closed, done := true } []
  | snapshotReplay (hs : s.supervisor = .retrying) :
    Takes cfg s .snapshotReplay { s with supervisor := .dialing s.replayBuf s.output.length } []
  | dialFail (replay : List UInt8) (snapped : ℕ) (hs : s.supervisor = .dialing replay snapped) :
    Takes cfg s .dialFail { s with supervisor := .retrying } []
  | reject (replay : List UInt8) (snapped : ℕ) (hs : s.supervisor = .dialing replay snapped) :
    Takes cfg s .reject { s with supervisor := .closed, done := true } []
  | dialAndReattach (replay : List UInt8) (snapped : ℕ) (hs : s.supervisor = .dialing replay snapped) :
    Takes cfg s .dialAndReattach { s with supervisor := .dialed replay snapped false } []
  | loseDialed (replay : List UInt8) (snapped : ℕ) (lost : Bool)
      (hs : s.supervisor = .dialed replay snapped lost) :
    Takes cfg s .loseDialed { s with supervisor := .dialed replay snapped true } []
  | swapConn (replay : List UInt8) (snapped : ℕ) (lost : Bool)
      (hs : s.supervisor = .dialed replay snapped lost) :
    Takes cfg s .swapConn { s with
      conns := s.conns ++ [⟨.unstarted, false, lost, replay, snapped, s.carried⟩]
      currentConn := some s.conns.length
      carried := snapped
      supervisor := .swapped } []
  | startReceiveLoop (hs : s.supervisor = .swapped) :
    Takes cfg s .startReceiveLoop
      { s.setConn (s.conns.length - 1) ({ · with loop := .reading }) with supervisor := .started } []
  | storeIntentional (hs : s.supervisor = .started) :
    Takes cfg s .storeIntentional { s with intentional := false, supervisor := .waiting } []
  | quit (hd : s.done = true) (hs : s.supervisor = .waiting ∨ s.supervisor = .retrying) :
    Takes cfg s .quit { s with supervisor := .closed } []

variable {cfg : Config} {s t : State} {c : ℕ} {before : Loop} {f : Conn → Conn}

theorem quietly_eq_some {u : Option State} {es : List Event} :
    quietly u = some (t, es) ↔ u = some t ∧ es = [] := by
  rw [quietly, Option.map_eq_some_iff]
  constructor
  · rintro ⟨a, ha, he⟩
    cases he
    exact ⟨ha, rfl⟩
  · rintro ⟨rfl, rfl⟩
    exact ⟨t, rfl, rfl⟩

theorem loopStep_eq_some :
    s.loopStep c before f = some t ↔ s.loopAt c before ∧ t = s.setConn c f := by
  rw [loopStep]
  split_ifs with h
  · have hex : s.loopAt c before := by simpa [loopAt, Option.any_eq_true] using h
    rw [Option.some.injEq, and_iff_right hex, eq_comm]
  · have hex : ¬ s.loopAt c before := by simpa [loopAt, Option.any_eq_true] using h
    simp [hex]

theorem takes_sendMsg (h : s.sendMsg = some t) : Takes cfg s .sendMsg t [] := by
  simp only [sendMsg, setConn] at h
  split at h
  · cases h
  rename_i chunk hh
  split at h
  · rename_i hnone
    cases h
    refine .dropped chunk hh fun c hopen => ?_
    obtain ⟨hc, -⟩ := hopen
    rw [hnone] at hc
    cases hc
  · rename_i c hc
    split_ifs at h with hany
    · cases h
      obtain ⟨conn, hconn, hl⟩ := (Option.any_eq_true _ _).1 hany
      exact .sent chunk c hh ⟨hc, conn, hconn, by simpa using hl⟩
    · cases h
      refine .dropped chunk hh fun k hopen => hany ?_
      obtain ⟨hk, conn, hconn, hl⟩ := hopen
      obtain rfl : c = k := Option.some.inj (hc.symm.trans hk)
      rw [hconn]
      simpa using hl

theorem takes_of_step {a : Action} {es : List Event} (h : s.step cfg a = some (t, es)) :
    Takes cfg s a t es := by
  cases a with
  | wake hubAlive =>
    simp only [step, wake] at h
    split_ifs at h with hw <;> rename_i ho <;> cases h
    · simpa [ho] using @Takes.wake cfg s hubAlive hw.1 hw.2
    · simpa [ho] using @Takes.wake cfg s hubAlive hw.1 hw.2
  | lose c =>
    cases h
    exact .lose c
  | produce chunk =>
    obtain ⟨hu, rfl⟩ := quietly_eq_some.1 h
    simp only [produce] at hu
    split_ifs at hu with hh
    cases hu
    exact .produce chunk hh.1
  | sendMsg =>
    obtain ⟨hu, rfl⟩ := quietly_eq_some.1 h
    exact takes_sendMsg hu
  | pumpEnd =>
    obtain ⟨hu, rfl⟩ := quietly_eq_some.1 h
    simp only [pumpEnd] at hu
    split_ifs at hu with hh
    cases hu
    exact .pumpEnd hh
  | closeAnyConn =>
    obtain ⟨hu, rfl⟩ := quietly_eq_some.1 h
    simp only [closeAnyConn] at hu
    split_ifs at hu with he
    cases hu
    exact .closeAnyConn he
  | readError c =>
    obtain ⟨hu, rfl⟩ := quietly_eq_some.1 h
    obtain ⟨hc, rfl⟩ := loopStep_eq_some.1 hu
    exact .readError c hc
  | recover c =>
    obtain ⟨hu, rfl⟩ := quietly_eq_some.1 h
    obtain ⟨hc, rfl⟩ := loopStep_eq_some.1 hu
    exact .recover c hc
  | hubShutdown c =>
    obtain ⟨hu, rfl⟩ := quietly_eq_some.1 h
    obtain ⟨hc, rfl⟩ := loopStep_eq_some.1 hu
    exact .hubShutdown c hc
  | clearConn c =>
    obtain ⟨hu, rfl⟩ := quietly_eq_some.1 h
    obtain ⟨hc, rfl⟩ := loopStep_eq_some.1 hu
    exact .clearConn c hc
  | notifyReconnect c =>
    obtain ⟨hu, rfl⟩ := quietly_eq_some.1 h
    obtain ⟨hc, rfl⟩ := loopStep_eq_some.1 hu
    exact .notifyReconnect c hc
  | expire =>
    obtain ⟨hu, rfl⟩ := quietly_eq_some.1 h
    simp only [expire] at hu
    split_ifs at hu with hs
    cases hu
    exact .expire hs
  | snapshotReplay =>
    obtain ⟨hu, rfl⟩ := quietly_eq_some.1 h
    simp only [snapshotReplay] at hu
    split_ifs at hu with hs
    cases hu
    exact .snapshotReplay hs
  | dialFail =>
    obtain ⟨hu, rfl⟩ := quietly_eq_some.1 h
    simp only [dialFail] at hu
    split at hu <;> cases hu
    exact .dialFail _ _ ‹_›
  | reject =>
    obtain ⟨hu, rfl⟩ := quietly_eq_some.1 h
    simp only [reject] at hu
    split at hu <;> cases hu
    exact .reject _ _ ‹_›
  | dialAndReattach =>
    obtain ⟨hu, rfl⟩ := quietly_eq_some.1 h
    simp only [dialAndReattach] at hu
    split at hu <;> cases hu
    exact .dialAndReattach _ _ ‹_›
  | loseDialed =>
    obtain ⟨hu, rfl⟩ := quietly_eq_some.1 h
    simp only [loseDialed] at hu
    split at hu <;> cases hu
    exact .loseDialed _ _ _ ‹_›
  | swapConn =>
    obtain ⟨hu, rfl⟩ := quietly_eq_some.1 h
    simp only [swapConn] at hu
    split at hu <;> cases hu
    exact .swapConn _ _ _ ‹_›
  | startReceiveLoop =>
    obtain ⟨hu, rfl⟩ := quietly_eq_some.1 h
    simp only [startReceiveLoop] at hu
    split_ifs at hu with hs
    cases hu
    exact .startReceiveLoop hs
  | storeIntentional =>
    obtain ⟨hu, rfl⟩ := quietly_eq_some.1 h
    simp only [storeIntentional] at hu
    split_ifs at hu with hs
    cases hu
    exact .storeIntentional hs
  | quit =>
    obtain ⟨hu, rfl⟩ := quietly_eq_some.1 h
    simp only [quit] at hu
    split_ifs at hu with hq
    cases hu
    exact .quit hq.1 hq.2

end State

end ManyAiCli.Wrapper
