import ManyAiCli.Runs.Machine
import ManyAiCli.Runs.Throttle
import Mathlib.Logic.Function.Basic

/-! The limiter of PIN logins. An attempt is counted as a failure before the PIN is
checked; a success takes the count of its IP away. Five attempts of one IP lock it, for
longer and longer times, and thirty attempts of all IPs lock everybody. What one IP has
done is forgotten after an hour. -/

namespace ManyAiCli.Hub.PinAuth

open Runs

def pinLockThreshold : ℕ := 5

def pinGlobalFailCap : ℕ := 30

/-- Times are in nanoseconds since the zero time. -/
def second : ℕ := 1000000000

def pinAttemptTTL : ℕ := 3600 * second

def pinLockDurations : List ℕ := [60 * second, 300 * second, 1800 * second]

structure PinAttempt where
  fails : ℕ
  lockLevel : ℕ
  lockedUntil : ℕ
  lastSeen : ℕ
  deriving DecidableEq, Repr

structure PinLimiter where
  perIP : String → Option PinAttempt
  globalFails : ℕ
  globalUntil : ℕ
  globalSeen : ℕ

def newPINLimiter : PinLimiter := ⟨fun _ => none, 0, 0, 0⟩

/-- The seconds up to the end of a lock. -/
def retrySeconds (until' now : ℕ) : ℕ := (until' - now) / second + 1

def lockDuration (lockLevel : ℕ) : ℕ :=
  pinLockDurations.getD (min lockLevel (pinLockDurations.length - 1)) 0

/-- One more failure, and the lock it brings. -/
def PinAttempt.fail (a : PinAttempt) (now : ℕ) : PinAttempt × Option ℕ :=
  let a := { a with lastSeen := now, fails := a.fails + 1 }
  if a.fails ≥ pinLockThreshold then
    let duration := lockDuration a.lockLevel
    ({ a with
      lockedUntil := now + duration
      lockLevel := if a.lockLevel < pinLockDurations.length - 1 then a.lockLevel + 1 else a.lockLevel
      fails := 0 }, some duration)
  else (a, none)

namespace PinLimiter

variable (l : PinLimiter)

def pruneLocked (now : ℕ) : PinLimiter :=
  { l with perIP := fun ip => (l.perIP ip).filter fun a =>
      !(now - a.lastSeen > pinAttemptTTL && now > a.lockedUntil) }

/-- The retry time while a lock is on. -/
def locked (ip : String) (now : ℕ) : Option ℕ :=
  if now < l.globalUntil then some (retrySeconds l.globalUntil now)
  else match l.perIP ip with
    | some a => if now < a.lockedUntil then some (retrySeconds a.lockedUntil now) else none
    | none => none

def retryAfter (ip : String) (now : ℕ) : PinLimiter × ℕ :=
  let l := l.pruneLocked now
  (l, (l.locked ip now).getD 0)

def failGlobal (now : ℕ) : PinLimiter :=
  let fails := (if now - l.globalSeen > pinAttemptTTL then 0 else l.globalFails) + 1
  if fails ≥ pinGlobalFailCap then
    { l with globalSeen := now, globalFails := 0, globalUntil := now + pinLockDurations.getD 0 0 }
  else { l with globalSeen := now, globalFails := fails }

/-- The retry time, or nothing and the lock that begins with this attempt. -/
def beginAttempt (ip : String) (now : ℕ) : PinLimiter × (ℕ ⊕ Option ℕ) :=
  let l := l.pruneLocked now
  match l.locked ip now with
  | some retry => (l, .inl retry)
  | none =>
    let (a, lock) := PinAttempt.fail ((l.perIP ip).getD ⟨0, 0, 0, 0⟩) now
    ({ l with perIP := Function.update l.perIP ip (some a) }.failGlobal now, .inr lock)

def recordSuccess (ip : String) : PinLimiter := { l with perIP := Function.update l.perIP ip none }

end PinLimiter

/-- The limiter and the time of the last call. -/
structure State where
  limiter : PinLimiter
  clock : ℕ

def State.init : State := ⟨newPINLimiter, 0⟩

inductive Action
  | beginAttempt (ip : String) (now : ℕ)
  | recordSuccess (ip : String)
  | retryAfter (ip : String) (now : ℕ)
  deriving DecidableEq, Repr

inductive Event
  /-- An attempt is permitted; the lock it brings, if any, is that long. -/
  | attempt (ip : String) (now : ℕ) (lock : Option ℕ)
  | refused (ip : String) (now retry : ℕ)
  | success (ip : String)
  | asked (ip : String) (now retry : ℕ)
  deriving DecidableEq, Repr

/-- Time does not go back. -/
def State.step (s : State) : Action → Option (State × List Event)
  | .beginAttempt ip now =>
    if now < s.clock then none
    else match s.limiter.beginAttempt ip now with
      | (l, .inl retry) => some (⟨l, now⟩, [.refused ip now retry])
      | (l, .inr lock) => some (⟨l, now⟩, [.attempt ip now lock])
  | .recordSuccess ip => some ({ s with limiter := s.limiter.recordSuccess ip }, [.success ip])
  | .retryAfter ip now =>
    if now < s.clock then none
    else
      let (l, retry) := s.limiter.retryAfter ip now
      some (⟨l, now⟩, [.asked ip now retry])

end ManyAiCli.Hub.PinAuth
