import ManyAiCli.Runs.Machine
import ManyAiCli.Text.Strings
import Mathlib.Data.List.AList
import Mathlib.Data.Finset.Basic

/-! The session IDs of the wrappers. A registration takes the next ID, a reattach the one it
asks for unless that is in use; either stores its wrapper under the ID in a later stretch
under `sessionsMu`. A connection is its index. IDs are 64-bit integers. -/

namespace ManyAiCli.Hub.SessionIDs

open Runs Text

inductive Request
  | register
  | reattach (sessionID : ℤ) (validReplay : Bool)
  deriving DecidableEq, Repr

/-- The next step of `wrapperLoop` or `reattachLoop`. -/
inductive Stage
  | connected
  /-- The ID has been allocated or accepted. -/
  | accepted (id : ℤ)
  | stored (id : ℤ)
  /-- From the last check on that the session has not been dismissed. -/
  | looping (id : ℤ)
  | leaving (id : ℤ)
  | finished
  deriving DecidableEq, Repr

structure Conn where
  request : Request
  stage : Stage
  isOpen : Bool
  deriving DecidableEq, Repr

/-- A wrapper is stored; `previous` is the one whose entry that overwrites. -/
inductive Event
  | stored (c : ℕ) (id : ℤ) (previous : Option ℕ) (previousOpen : Bool)
  deriving DecidableEq, Repr

structure State where
  conns : List Conn
  nextID : ℤ
  wrappers : AList fun _ : ℤ => ℕ
  sessions : Finset ℤ
  deriving DecidableEq

inductive Action
  | connect (request : Request)
  | accept (c : ℕ)
  | store (c : ℕ)
  | announce (c : ℕ)
  | receiveError (c : ℕ)
  | disconnect (c : ℕ)
  /-- The connection is closed, from either side. -/
  | close (c : ℕ)
  | handleDismiss (id : ℤ)
  deriving DecidableEq, Repr

namespace State

variable (s : State)

/-- The Hub has just been started. -/
def initial : State := ⟨[], 0, ∅, ∅⟩

def setStage (c : ℕ) (stage : Stage) : State :=
  { s with conns := s.conns.modify c ({ · with stage := stage }) }

def stageOf (c : ℕ) : Option Stage := s.conns[c]?.map (·.stage)

def isOpen (c : ℕ) : Bool := s.conns[c]?.any (·.isOpen)

/-- `nextID++` on 64 bits. -/
def allocate (c : ℕ) : State :=
  let id := wrap64 (s.nextID + 1)
  { s.setStage c (.accepted id) with nextID := id }

/-- Of a reattach whose ID is free, `nextID` follows the ID. -/
def accept (c : ℕ) : Option State :=
  match s.conns[c]? with
  | some ⟨.register, .connected, _⟩ => some (s.allocate c)
  | some ⟨.reattach id validReplay, .connected, _⟩ =>
    if id ≤ 0 ∨ validReplay = false then some (s.setStage c .finished)
    else if (s.wrappers.lookup id).isSome then some (s.allocate c)
    else some { s.setStage c (.accepted id) with nextID := max s.nextID id }
  | _ => none

def store (c : ℕ) : Option (State × List Event) :=
  match s.conns[c]? with
  | some ⟨request, .accepted id, _⟩ =>
    let previous := s.wrappers.lookup id
    let t := { s.setStage c (.stored id) with
      wrappers := s.wrappers.insert id c
      sessions := insert id s.sessions
      nextID := if request = .register then s.nextID else max s.nextID id }
    some (t, [.stored c id previous (previous.any s.isOpen)])
  | _ => none

/-- `wrapperStillRegistered`. -/
def stillRegistered (id : ℤ) (c : ℕ) : Bool := id ∈ s.sessions && s.wrappers.lookup id = some c

def announce (c : ℕ) : Option State :=
  match s.stageOf c with
  | some (.stored id) => some (s.setStage c (if s.stillRegistered id c then .looping id else .finished))
  | _ => none

/-- `wrapperMessageLoop` ends. -/
def receiveError (c : ℕ) : Option State :=
  match s.stageOf c with
  | some (.looping id) => some (s.setStage c (.leaving id))
  | _ => none

def disconnect (c : ℕ) : Option State :=
  match s.stageOf c with
  | some (.leaving id) => some { s.setStage c .finished with
      wrappers := if s.wrappers.lookup id = some c then s.wrappers.erase id else s.wrappers }
  | _ => none

def close (c : ℕ) : Option State :=
  if s.isOpen c then some { s with conns := s.conns.modify c ({ · with isOpen := false }) } else none

/-- The connection of the wrapper is closed after that. -/
def handleDismiss (id : ℤ) : Option State :=
  if id ∈ s.sessions then
    some { s with wrappers := s.wrappers.erase id, sessions := s.sessions.erase id }
  else some s

end State

def quietly (t : Option State) : Option (State × List Event) := t.map fun t => (t, [])

def step (s : State) : Action → Option (State × List Event)
  | .connect request => some ({ s with conns := s.conns ++ [⟨request, .connected, true⟩] }, [])
  | .accept c => quietly (s.accept c)
  | .store c => s.store c
  | .announce c => quietly (s.announce c)
  | .receiveError c => quietly (s.receiveError c)
  | .disconnect c => quietly (s.disconnect c)
  | .close c => quietly (s.close c)
  | .handleDismiss id => quietly (s.handleDismiss id)

/-! ### Uniqueness -/

/-- The entry of another wrapper whose connection is open is overwritten. -/
def Event.overwritesOpen : Event → Bool
  | .stored c _ previous previousOpen => previous.any (· ≠ c) && previousOpen

/-- The connection is open and runs `wrapperMessageLoop` with the ID. -/
def State.Runs (s : State) (c : ℕ) (id : ℤ) : Prop := s.isOpen c = true ∧ s.stageOf c = some (.looping id)

/-- `nextID` has a next value when one is allocated, and a reattach that finds no wrapper under
its ID is the only one with it: no connection has it accepted without having stored its
wrapper, and none runs with it, its session having been dismissed. -/
def acceptsFresh (s : State) : Action → Bool
  | .accept c =>
    match s.conns[c]? with
    | some ⟨.reattach id true, .connected, _⟩ =>
      if id ≤ 0 then true
      else if (s.wrappers.lookup id).isSome then s.nextID < 9223372036854775807
      else s.conns.all fun other => other.stage ≠ .accepted id && !(other.isOpen && other.stage = .looping id)
    | some ⟨.register, .connected, _⟩ => s.nextID < 9223372036854775807
    | _ => true
  | _ => true

end ManyAiCli.Hub.SessionIDs
