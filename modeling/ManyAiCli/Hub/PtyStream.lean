import ManyAiCli.Runs.Machine
import ManyAiCli.Text.Cut
import Mathlib.Data.List.DropRight

/-! The terminal output on its way to the UIs. A chunk is appended to its session's replay
buffer and broadcast after that; a UI joins the broadcast and gets the buffers sent
afterwards. Each step is one stretch under `sessionsMu`, or one message to a UI. A session
is its index, and so are a UI and a loop. Sends do not fail before the UI is removed. -/

namespace ManyAiCli.Hub.PtyStream

open Runs Text

def maxPTYBuf : ℕ := 2097152

def replayTailForNonActive : ℕ := 65536

/-- `chatHistoryUserTurnMarker`: OSC 47777. -/
def userTurnMarker : List UInt8 :=
  [0x1b, 0x5d, 0x34, 0x37, 0x37, 0x37, 0x37, 0x3b, 0x75, 0x73, 0x65, 0x72, 0x2d, 0x74, 0x75, 0x72, 0x6e, 0x07]

def appendPTYReplay (buf data : List UInt8) : List UInt8 :=
  if data = [] then buf else (buf ++ data).rtake maxPTYBuf

/-- Output that has been appended to the buffer of its session; the serial number is its
place among all output. -/
structure Chunk where
  serial : ℕ
  session : ℕ
  data : List UInt8
  deriving DecidableEq, Repr

/-- A `pty_data` message: the replay of a session or a chunk. -/
inductive Msg
  | replay (session : ℕ) (data : List UInt8)
  | live (chunk : Chunk)
  deriving DecidableEq, Repr

def Msg.session : Msg → ℕ
  | .replay session _ => session
  | .live chunk => chunk.session

def Msg.isReplay : Msg → Bool
  | .replay _ _ => true
  | .live _ => false

structure UI where
  active : ℕ
  /-- In the broadcast set. -/
  registered : Bool
  snapshotSent : Bool
  /-- The history that is still to be sent. -/
  items : List (ℕ × List UInt8)
  looping : Bool
  received : List Msg
  /-- The buffer of the active session at the registration, and how much output there had
  been. -/
  replay : List UInt8
  captured : ℕ
  deriving DecidableEq, Repr

/-- A chunk that is being broadcast; `none` as long as the UIs have not been looked up. -/
structure Job where
  chunk : Chunk
  targets : Option (List ℕ)
  deriving DecidableEq, Repr

/-- `wrapperMessageLoop` of a session, or `uiLoop`. -/
inductive Source
  | wrapper (session : ℕ)
  | ui (i : ℕ)
  deriving DecidableEq, Repr

structure Loop where
  source : Source
  job : Option Job
  deriving DecidableEq, Repr

structure State where
  /-- The replay buffers. -/
  ptyBufs : List (List UInt8)
  uis : List UI
  loops : List Loop
  /-- All chunks so far. -/
  log : List Chunk
  deriving DecidableEq, Repr

inductive Action
  | startWrapper (session : ℕ)
  | addUIWithHistory (active : ℕ) (order : List ℕ)
  | sendSnapshot (i : ℕ)
  | sendHistory (i : ℕ)
  | startUILoop (i : ℕ)
  | removeUI (i : ℕ)
  | chunk (l : ℕ) (data : List UInt8)
  /-- The input of a user turn. -/
  | handleInput (l session : ℕ)
  | broadcast (l : ℕ) (order : List ℕ)
  | send (l : ℕ)
  | broadcastDone (l : ℕ)
  deriving DecidableEq, Repr

/-- What of a buffer is replayed: the active session's is complete, of another the end,
from a marker on if there is one. -/
def historyItem (active session : ℕ) (raw : List UInt8) : List UInt8 :=
  if session ≠ active ∧ replayTailForNonActive < raw.length then
    let tail := raw.rtake replayTailForNonActive
    if (index userTurnMarker tail).isSome then tail
    else match lastIndex userTurnMarker raw with
      | some i => raw.drop i
      | none => tail
  else raw

namespace State

variable (s : State)

/-- Before the run nobody is connected. -/
def initial (ptyBufs : List (List UInt8)) : State := ⟨ptyBufs, [], [], []⟩

def setUI (i : ℕ) (f : UI → UI) : State := { s with uis := s.uis.modify i f }

def setJob (l : ℕ) (job : Option Job) : State := { s with loops := s.loops.modify l ({ · with job := job }) }

/-! ### UIs -/

/-- The sessions come in any order; those without output are left out. -/
def addUIWithHistory (active : ℕ) (order : List ℕ) : Option State :=
  if order.Perm (List.range s.ptyBufs.length) then
    let items := order.filterMap fun session =>
      (s.ptyBufs[session]?.filter (· ≠ [])).map fun raw => (session, historyItem active session raw)
    some { s with uis := s.uis ++ [⟨active, true, false, items, false, [],
      (s.ptyBufs[active]?).getD [], s.log.length⟩] }
  else none

def sendSnapshot (i : ℕ) : Option State :=
  if s.uis[i]?.any fun u => !u.snapshotSent then some (s.setUI i ({ · with snapshotSent := true })) else none

/-- A UI that is gone gets nothing. -/
def sendHistory (i : ℕ) : Option State :=
  match s.uis[i]? with
  | none => none
  | some u =>
    match u.items with
    | [] => none
    | (session, data) :: items =>
      if u.snapshotSent then
        let received := if u.registered then u.received ++ [.replay session data] else u.received
        some (s.setUI i ({ · with items := items, received := received }))
      else none

def startUILoop (i : ℕ) : Option State :=
  if s.uis[i]?.any fun u => u.snapshotSent && u.items = [] && !u.looping then
    some { s.setUI i ({ · with looping := true }) with loops := s.loops ++ [⟨.ui i, none⟩] }
  else none

def removeUI (i : ℕ) : Option State :=
  if s.uis[i]?.any (·.registered) then some (s.setUI i ({ · with registered := false })) else none

/-! ### Output -/

def startWrapper (session : ℕ) : Option State :=
  if session < s.ptyBufs.length then some { s with loops := s.loops ++ [⟨.wrapper session, none⟩] } else none

/-- Append the output to the buffer; its broadcast comes after. -/
def append (l session : ℕ) (data : List UInt8) : State :=
  let chunk : Chunk := ⟨s.log.length, session, data⟩
  { s with
    ptyBufs := s.ptyBufs.modify session (appendPTYReplay · data)
    loops := s.loops.modify l ({ · with job := some ⟨chunk, none⟩ })
    log := s.log ++ [chunk] }

def chunk (l : ℕ) (data : List UInt8) : Option State :=
  match s.loops[l]? with
  | some ⟨.wrapper session, none⟩ => some (s.append l session data)
  | _ => none

def handleInput (l session : ℕ) : Option State :=
  match s.loops[l]? with
  | some ⟨.ui _, none⟩ => if session < s.ptyBufs.length then some (s.append l session userTurnMarker) else none
  | _ => none

/-- The UIs that are registered now, in any order. -/
def broadcast (l : ℕ) (order : List ℕ) : Option State :=
  match s.loops[l]? with
  | some ⟨_, some ⟨chunk, none⟩⟩ =>
    if order.Perm ((List.range s.uis.length).filter fun i => s.uis[i]?.any (·.registered)) then
      some (s.setJob l (some ⟨chunk, some order⟩))
    else none
  | _ => none

def send (l : ℕ) : Option State :=
  match s.loops[l]? with
  | some ⟨_, some ⟨chunk, some (i :: targets)⟩⟩ =>
    let t := s.setJob l (some ⟨chunk, some targets⟩)
    some (t.setUI i fun u => if u.registered then { u with received := u.received ++ [.live chunk] } else u)
  | _ => none

def broadcastDone (l : ℕ) : Option State :=
  match s.loops[l]? with
  | some ⟨_, some ⟨_, some []⟩⟩ => some (s.setJob l none)
  | _ => none

end State

def move (s : State) : Action → Option State
  | .startWrapper session => s.startWrapper session
  | .addUIWithHistory active order => s.addUIWithHistory active order
  | .sendSnapshot i => s.sendSnapshot i
  | .sendHistory i => s.sendHistory i
  | .startUILoop i => s.startUILoop i
  | .removeUI i => s.removeUI i
  | .chunk l data => s.chunk l data
  | .handleInput l session => s.handleInput l session
  | .broadcast l order => s.broadcast l order
  | .send l => s.send l
  | .broadcastDone l => s.broadcastDone l

/-- There are no events. -/
def step (s : State) (a : Action) : Option (State × List Empty) := (move s a).map fun t => (t, [])

/-! ### What a UI is to receive -/

/-- The `pty_data` of its active session that the UI has received. -/
def UI.heard (u : UI) : List Msg := u.received.filter fun m => m.session = u.active

/-- The replay, if there was any output. -/
def UI.replayed (u : UI) : List Msg := if u.replay = [] then [] else [.replay u.active u.replay]

/-- The replay and then the chunks that were appended after it was captured. -/
def UI.expected (u : UI) (log : List Chunk) : List Msg :=
  u.replayed ++ (log.filter fun c => c.session = u.active ∧ u.captured ≤ c.serial).map .live

/-- The chunk is still to be sent to the UI. -/
def Job.isFor (j : Job) (i : ℕ) : Bool :=
  match j.targets with
  | none => true
  | some targets => i ∈ targets

def State.jobAt (s : State) (l : ℕ) : Option Job := s.loops[l]?.bind (·.job)

/-- No message for the UI is on its way. -/
def State.settled (s : State) (i : ℕ) (u : UI) : Prop :=
  u.registered = true ∧ u.items = [] ∧
    ∀ l j, s.jobAt l = some j → j.chunk.session = u.active → j.isFor i = false

/-- Each UI has received what it is to receive up to some place, and all of it once no
message is on its way. -/
def Seamless (s : State) : Prop :=
  ∀ i u, s.uis[i]? = some u →
    u.heard <+: u.expected s.log ∧ (s.settled i u → u.heard = u.expected s.log)

/-- A chunk of its active session that is sent to a UI was appended after the UI had been
registered; its history of the session has been sent, and no chunk in between is on its way. -/
def inOrder (s : State) : Action → Bool
  | .send l =>
    match s.loops[l]? with
    | some ⟨_, some ⟨chunk, some (i :: _)⟩⟩ => s.uis[i]?.all fun u =>
      !(u.registered && chunk.session = u.active) ||
        (u.captured ≤ chunk.serial && u.items.all (·.1 ≠ u.active) &&
          s.loops.all fun other => other.job.all fun j =>
            !(j.isFor i && j.chunk.session = u.active && u.captured ≤ j.chunk.serial &&
              j.chunk.serial < chunk.serial))
    | _ => true
  | _ => true

end ManyAiCli.Hub.PtyStream
