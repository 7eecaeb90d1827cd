import Mathlib.Data.List.Basic
import Mathlib.Tactic.Common

/-! The entries of `launcher-active.json`. Each operation loads, changes and saves the file
under the lock that the launcher processes share, so it is one step of the file. -/

namespace ManyAiCli.Launcher

structure ActiveConnection where
  profile : String
  pid : ℕ
  hubURL : String
  deriving DecidableEq, Repr

variable (file : List ActiveConnection) (pid : ℕ)

/-- A previous entry of the same profile and process is replaced. -/
def registerActiveConnection (profile hubURL : String) : List ActiveConnection :=
  (file.filter fun c => !(c.profile = profile && c.pid = pid)) ++ [⟨profile, pid, hubURL⟩]

def removeOwnEntries (wanted : ActiveConnection → Bool) : List ActiveConnection :=
  file.filter fun c => !(c.pid = pid && wanted c)

def unregisterActiveConnection (profile : String) : List ActiveConnection :=
  removeOwnEntries file pid fun c => c.profile = profile

def unregisterAllForPID : List ActiveConnection := removeOwnEntries file pid fun _ => true

/-- What `ActiveConnectionsPruned` keeps and returns. -/
def collectActive (alive : ℕ → Bool) (probe : String → Bool) : List ActiveConnection :=
  file.filter fun c => alive c.pid && probe c.hubURL

variable {file pid} {c : ActiveConnection} {profile hubURL : String}

theorem mem_registerActiveConnection : c ∈ registerActiveConnection file pid profile hubURL ↔
    c = ⟨profile, pid, hubURL⟩ ∨ c ∈ file ∧ ¬(c.profile = profile ∧ c.pid = pid) := by
  simp only [registerActiveConnection, List.mem_append, List.mem_filter, List.mem_singleton,
    Bool.not_eq_true', Bool.and_eq_false_iff, decide_eq_false_iff_not, not_and_or]
  exact or_comm

theorem mem_removeOwnEntries {wanted : ActiveConnection → Bool} :
    c ∈ removeOwnEntries file pid wanted ↔ c ∈ file ∧ ¬(c.pid = pid ∧ wanted c = true) := by
  simp only [removeOwnEntries, List.mem_filter, Bool.not_eq_true', Bool.and_eq_false_iff,
    decide_eq_false_iff_not, not_and_or, Bool.not_eq_true]

theorem mem_unregisterActiveConnection : c ∈ unregisterActiveConnection file pid profile ↔
    c ∈ file ∧ ¬(c.pid = pid ∧ c.profile = profile) := by
  rw [unregisterActiveConnection, mem_removeOwnEntries, decide_eq_true_eq]

theorem mem_unregisterAllForPID : c ∈ unregisterAllForPID file pid ↔ c ∈ file ∧ c.pid ≠ pid := by
  rw [unregisterAllForPID, mem_removeOwnEntries, and_iff_left rfl]

theorem mem_collectActive {alive : ℕ → Bool} {probe : String → Bool} :
    c ∈ collectActive file alive probe ↔ c ∈ file ∧ alive c.pid = true ∧ probe c.hubURL = true := by
  rw [collectActive, List.mem_filter, Bool.and_eq_true]

end ManyAiCli.Launcher
