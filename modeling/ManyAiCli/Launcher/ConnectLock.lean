import ManyAiCli.Runs.Machine
import ManyAiCli.Runs.Ownership
import Mathlib.Data.List.Nodup

/-! `ProfileConnectLock`: the lock file of one profile among the launcher processes. Every
call of the file system is a step of its own, and processes end between any two of them. The
calls succeed, other than where the file exists or is missing; the write and the close may
fail. -/

namespace ManyAiCli.Launcher.ConnectLock

open Runs

/-- The lock file: who created it, unless that was before the run, and the PID in it unless
it cannot be read as a lock. -/
structure LockFile where
  creator : Option ℕ
  pid : Option ℕ
  deriving DecidableEq, Repr

/-- The process that created the file writes its PID. -/
def LockFile.written (f : LockFile) (i pid : ℕ) : LockFile :=
  if f.creator = some i then { f with pid := some pid } else f

inductive Pc
  | idle
  /-- In the loop of `TryAcquireProfileConnectLock`. -/
  | opening
  | writing
  | closing
  /-- The write or the close has failed. -/
  | discarding
  | reading
  | judging (pid : Option ℕ)
  | stealing
  /-- The lock has been acquired. -/
  | holding
  /-- `Release` has found that it may remove the file. -/
  | removing
  deriving DecidableEq, Repr

/-- Between an acquire that succeeded and the end of its release. -/
def Pc.acquired : Pc → Bool
  | .holding | .removing => true
  | _ => false

/-- From the creation of the file on. -/
def Pc.created : Pc → Bool
  | .writing | .closing | .discarding | .holding | .removing => true
  | _ => false

structure Proc where
  pid : ℕ
  alive : Bool
  pc : Pc
  deriving DecidableEq, Repr

/-- `used` are the PIDs there have been. -/
structure State where
  procs : List Proc
  lock : Option LockFile
  used : List ℕ
  deriving DecidableEq, Repr

inductive Action
  | launch (pid : ℕ)
  /-- A process ends, wherever it is. -/
  | crash (i : ℕ)
  | start (i : ℕ)
  | openFile (i : ℕ)
  | write (i : ℕ) (ok : Bool)
  | close (i : ℕ) (ok : Bool)
  | discard (i : ℕ)
  | readFile (i : ℕ)
  | judge (i : ℕ)
  | steal (i : ℕ)
  /-- The two steps of `Release`. -/
  | readOwn (i : ℕ)
  | remove (i : ℕ)
  deriving DecidableEq, Repr

namespace State

variable (s : State)

/-- Before the run there may be a lock file of a process that is gone. -/
def initial (leftover : Option (Option ℕ)) : State :=
  ⟨[], leftover.map fun pid => ⟨none, pid⟩, (leftover.bind id).toList⟩

def setPc (i : ℕ) (pc : Pc) : State := { s with procs := s.procs.modify i ({ · with pc }) }

/-- `pidAlive`. -/
def isAlive (pid : ℕ) : Bool := s.procs.any fun p => p.alive && p.pid = pid

/-- No PID is used again. -/
def launch (pid : ℕ) : Option State :=
  if pid ∈ s.used then none
  else some { s with procs := s.procs ++ [⟨pid, true, .idle⟩], used := pid :: s.used }

def crash (i : ℕ) : State := { s with procs := s.procs.modify i ({ · with alive := false }) }

/-- The step of a live process, by the place it is at. -/
def ifLive (i : ℕ) (f : Proc → Pc → Option State) : Option State :=
  match s.procs[i]? with
  | some p => if p.alive then f p p.pc else none
  | none => none

/-! ### `TryAcquireProfileConnectLock` -/

def start (i : ℕ) : Option State :=
  s.ifLive i fun _ pc => match pc with
    | .idle => some (s.setPc i .opening)
    | _ => none

/-- `O_CREATE|O_EXCL`. -/
def openFile (i : ℕ) : Option State :=
  s.ifLive i fun _ pc => match pc with
    | .opening =>
      match s.lock with
      | none => some { s.setPc i .writing with lock := some ⟨some i, none⟩ }
      | some _ => some (s.setPc i .reading)
    | _ => none

/-- What is written goes to the file that was opened, which may be gone from the path. -/
def write (i : ℕ) (ok : Bool) : Option State :=
  s.ifLive i fun p pc => match pc with
    | .writing =>
      if ok then some { s.setPc i .closing with lock := s.lock.map (·.written i p.pid) }
      else some (s.setPc i .discarding)
    | _ => none

def close (i : ℕ) (ok : Bool) : Option State :=
  s.ifLive i fun _ pc => match pc with
    | .closing => some (s.setPc i (if ok then .holding else .discarding))
    | _ => none

/-- The file is removed by its path, here and below. -/
def discard (i : ℕ) : Option State :=
  s.ifLive i fun _ pc => match pc with
    | .discarding => some { s.setPc i .idle with lock := none }
    | _ => none

def readFile (i : ℕ) : Option State :=
  s.ifLive i fun _ pc => match pc with
    | .reading =>
      match s.lock with
      | none => some (s.setPc i .idle)
      | some f => some (s.setPc i (.judging f.pid))
    | _ => none

/-- A lock that cannot be read is nobody's. -/
def judge (i : ℕ) : Option State :=
  s.ifLive i fun _ pc => match pc with
    | .judging pid => some (s.setPc i (if pid.any s.isAlive then .idle else .stealing))
    | _ => none

def steal (i : ℕ) : Option State :=
  s.ifLive i fun _ pc => match pc with
    | .stealing => some { s.setPc i .opening with lock := none }
    | _ => none

/-! ### `Release` -/

def readOwn (i : ℕ) : Option State :=
  s.ifLive i fun p pc => match pc with
    | .holding =>
      match s.lock with
      | none => some (s.setPc i .idle)
      | some f => some (s.setPc i (if f.pid.any (· ≠ p.pid) then .idle else .removing))
    | _ => none

def remove (i : ℕ) : Option State :=
  s.ifLive i fun _ pc => match pc with
    | .removing => some { s.setPc i .idle with lock := none }
    | _ => none

end State

def move (s : State) : Action → Option State
  | .launch pid => s.launch pid
  | .crash i => some (s.crash i)
  | .start i => s.start i
  | .openFile i => s.openFile i
  | .write i ok => s.write i ok
  | .close i ok => s.close i ok
  | .discard i => s.discard i
  | .readFile i => s.readFile i
  | .judge i => s.judge i
  | .steal i => s.steal i
  | .readOwn i => s.readOwn i
  | .remove i => s.remove i

/-- Nothing is emitted. -/
def step (s : State) (a : Action) : Option (State × List Empty) := (move s a).map fun t => (t, [])

/-! ### What the lock is for -/

/-- Whose lock file is at the path. -/
def State.owner (s : State) : Option ℕ := s.lock.bind (·.creator)

/-- A live process. -/
def State.lives (s : State) (c : ℕ) : Bool := s.procs[c]?.any (·.alive)

def Exclusive (s : State) : Prop :=
  ∀ (i j : ℕ) (p q : Proc), s.procs[i]? = some p → p.alive = true → p.pc.acquired = true →
    s.procs[j]? = some q → q.alive = true → q.pc.acquired = true → i = j

/-- When a process is about to remove the file at the end of its release, no other live
process owns it. -/
def ReleasesOwn (s : State) : Prop :=
  ∀ (i : ℕ) (p : Proc), s.procs[i]? = some p → p.alive = true → p.pc = .removing →
    ∀ c, s.owner = some c → s.lives c = true → c = i

/-- The steps of an acquire that goes through by itself. -/
def acquires (s : State) (i : ℕ) : List Action :=
  if s.lock.isSome then
    [.start i, .openFile i, .readFile i, .judge i, .steal i, .openFile i, .write i true, .close i true]
  else [.start i, .openFile i, .write i true, .close i true]

/-- An acquire that finds no lock file, or that of a process which is gone, succeeds. -/
def NeverBlocks (s : State) : Prop :=
  (∀ c, s.owner = some c → s.lives c = false) →
    ∀ (i : ℕ) (p : Proc), s.procs[i]? = some p → p.alive = true → p.pc = .idle →
      ∃ t, exec step s (acquires s i) = some (t, []) ∧ t.procs[i]? = some { p with pc := .holding }

/-- A lock file is stolen while it is not that of a live process. -/
def sparesLive (s : State) : Action → Bool
  | .steal _ => s.owner.all fun c => !s.lives c
  | _ => true

variable {s t : State} {a : Action} {i j : ℕ} {p q : Proc} {pc : Pc}

/-! ### What a step does -/

theorem State.ifLive_eq_some {f : Proc → Pc → Option State} :
    s.ifLive i f = some t ↔ ∃ p, s.procs[i]? = some p ∧ p.alive = true ∧ f p p.pc = some t := by
  unfold State.ifLive
  cases s.procs[i]? with
  | none => simp
  | some p =>
    cases h : p.alive
    · simp [h]
    · simp [h]

theorem getElem?_setPc (hp : s.procs[i]? = some p) :
    (s.setPc i pc).procs[j]? = if j = i then some { p with pc } else s.procs[j]? := by
  by_cases hji : j = i
  · subst hji
    rw [if_pos rfl, State.setPc, List.getElem?_modify_eq, hp]
    rfl
  · rw [if_neg hji, State.setPc]
    exact List.getElem?_modify_ne _ _ (Ne.symm hji)

inductive Takes (s : State) : Action → State → Prop
  | launch {pid : ℕ} (hfree : pid ∉ s.used) :
      Takes s (.launch pid) { s with procs := s.procs ++ [⟨pid, true, .idle⟩], used := pid :: s.used }
  | crash (i : ℕ) : Takes s (.crash i) (s.crash i)
  /-- A process that has not created the file. -/
  | outside {a : Action} {i : ℕ} {p : Proc} {pc : Pc} (hp : s.procs[i]? = some p)
      (hpc : p.pc.created = false) (hnext : pc.created = false) : Takes s a (s.setPc i pc)
  | create {i : ℕ} {p : Proc} (hp : s.procs[i]? = some p) (hpc : p.pc = .opening) (hlock : s.lock = none) :
      Takes s (.openFile i) { s.setPc i .writing with lock := some ⟨some i, none⟩ }
  | written {i : ℕ} {p : Proc} (hp : s.procs[i]? = some p) (ha : p.alive = true) (hpc : p.pc = .writing) :
      Takes s (.write i true) { s.setPc i .closing with lock := s.lock.map (·.written i p.pid) }
  /-- It has created the file; at last it leaves the file to another. -/
  | goOn {a : Action} {i : ℕ} {p : Proc} {pc : Pc} (hp : s.procs[i]? = some p) (ha : p.alive = true)
      (hpc : p.pc.created = true) : Takes s a (s.setPc i pc)
  | removed {a : Action} {i : ℕ} {p : Proc} (hp : s.procs[i]? = some p) (ha : p.alive = true)
      (hpc : p.pc.created = true) : Takes s a { s.setPc i .idle with lock := none }
  | stolen {i : ℕ} {p : Proc} (hp : s.procs[i]? = some p) (hpc : p.pc = .stealing) :
      Takes s (.steal i) { s.setPc i .opening with lock := none }

theorem takes_of_move (hm : move s a = some t) : Takes s a t := by
  cases a with
  | launch pid =>
    obtain ⟨hfree, hm⟩ := Option.ite_none_left_eq_some.mp hm
    obtain rfl := Option.some_inj.mp hm
    exact .launch hfree
  | crash i =>
    obtain rfl := Option.some_inj.mp hm
    exact .crash i
  | start i =>
    rw [move, State.start, State.ifLive_eq_some] at hm
    obtain ⟨p, hp, -, hm⟩ := hm
    split at hm
    · next hpc =>
      obtain rfl := Option.some_inj.mp hm
      exact .outside hp (by rw [hpc]; rfl) rfl
    · cases hm
  | openFile i =>
    rw [move, State.openFile, State.ifLive_eq_some] at hm
    obtain ⟨p, hp, -, hm⟩ := hm
    split at hm
    · next hpc =>
      split at hm
      · next hlock =>
        obtain rfl := Option.some_inj.mp hm
        exact .create hp hpc hlock
      · obtain rfl := Option.some_inj.mp hm
        exact .outside hp (by rw [hpc]; rfl) rfl
    · cases hm
  | write i ok =>
    rw [move, State.write, State.ifLive_eq_some] at hm
    obtain ⟨p, hp, ha, hm⟩ := hm
    split at hm
    · next hpc =>
      cases ok with
      | true =>
        obtain rfl := Option.some_inj.mp hm
        exact .written hp ha hpc
      | false =>
        obtain rfl := Option.some_inj.mp hm
        exact .goOn hp ha (by rw [hpc]; rfl)
    · cases hm
  | close i ok =>
    rw [move, State.close, State.ifLive_eq_some] at hm
    obtain ⟨p, hp, ha, hm⟩ := hm
    split at hm
    · next hpc =>
      obtain rfl := Option.some_inj.mp hm
      exact .goOn hp ha (by rw [hpc]; rfl)
    · cases hm
  | discard i =>
    rw [move, State.discard, State.ifLive_eq_some] at hm
    obtain ⟨p, hp, ha, hm⟩ := hm
    split at hm
    · next hpc =>
      obtain rfl := Option.some_inj.mp hm
      exact .removed hp ha (by rw [hpc]; rfl)
    · cases hm
  | readFile i =>
    rw [move, State.readFile, State.ifLive_eq_some] at hm
    obtain ⟨p, hp, -, hm⟩ := hm
    split at hm
    · next hpc =>
      split at hm
      all_goals
        obtain rfl := Option.some_inj.mp hm
        exact .outside hp (by rw [hpc]; rfl) rfl
    · cases hm
  | judge i =>
    rw [move, State.judge, State.ifLive_eq_some] at hm
    obtain ⟨p, hp, -, hm⟩ := hm
    split at hm
    · next hpc =>
      obtain rfl := Option.some_inj.mp hm
      refine .outside hp (by rw [hpc]; rfl) ?_
      split_ifs <;> rfl
    · cases hm
  | steal i =>
    rw [move, State.steal, State.ifLive_eq_some] at hm
    obtain ⟨p, hp, -, hm⟩ := hm
    split at hm
    · next hpc =>
      obtain rfl := Option.some_inj.mp hm
      exact .stolen hp hpc
    · cases hm
  | readOwn i =>
    rw [move, State.readOwn, State.ifLive_eq_some] at hm
    obtain ⟨p, hp, ha, hm⟩ := hm
    split at hm
    · next hpc =>
      split at hm
      all_goals
        obtain rfl := Option.some_inj.mp hm
        exact .goOn hp ha (by rw [hpc]; rfl)
    · cases hm
  | remove i =>
    rw [move, State.remove, State.ifLive_eq_some] at hm
    obtain ⟨p, hp, ha, hm⟩ := hm
    split at hm
    · next hpc =>
      obtain rfl := Option.some_inj.mp hm
      exact .removed hp ha (by rw [hpc]; rfl)
    · cases hm

/-! ### One process at a time -/

/-- A live process that has created the file. -/
def Inside (procs : List Proc) (i : ℕ) : Prop :=
  ∃ p, procs[i]? = some p ∧ p.alive = true ∧ p.pc.created = true

theorem inside_setPc (hp : s.procs[i]? = some p) :
    Inside (s.setPc i pc).procs j ↔
      if j = i then p.alive = true ∧ pc.created = true else Inside s.procs j := by
  unfold Inside
  rw [getElem?_setPc hp]
  split_ifs with hji
  · simp
  · rfl

theorem Owned.setPc (h : Owned s.owner (Inside s.procs)) (hp : s.procs[i]? = some p)
    (hpc : pc.created = true → Inside s.procs i) : Owned s.owner (Inside (s.setPc i pc).procs) := by
  refine h.mono fun j hj => ?_
  rw [inside_setPc hp] at hj
  split_ifs at hj with hji
  · exact hji ▸ hpc hj.2
  · exact hj

theorem owned_of_takes (h : Owned s.owner (Inside s.procs)) (hok : sparesLive s a = true) (ht : Takes s a t) :
    Owned t.owner (Inside t.procs) := by
  cases ht with
  | launch hfree =>
    refine h.mono fun j hj => ?_
    obtain ⟨q, hq, ha, hpc⟩ := hj
    rw [List.getElem?_append] at hq
    split_ifs at hq with hj
    · exact ⟨q, hq, ha, hpc⟩
    · obtain rfl := List.mem_singleton.mp (List.mem_of_getElem? hq)
      exact absurd hpc Bool.noConfusion
  | crash i =>
    refine h.mono fun j hj => ?_
    obtain ⟨q, hq, ha, hpc⟩ := hj
    rw [State.crash, List.getElem?_modify] at hq
    obtain ⟨r, hr, rfl⟩ := Option.map_eq_some_iff.mp hq
    by_cases hij : i = j
    · simp [hij] at ha
    · simp only [hij, if_false] at ha hpc
      exact ⟨r, hr, ha, hpc⟩
  | outside hp hpc hnext => exact Owned.setPc h hp fun hyes => absurd (hnext.symm.trans hyes) Bool.noConfusion
  | @create i p hp hpc hlock =>
    have hnone : Owned none (Inside s.procs) := by simpa [State.owner, hlock] using h
    refine hnone.enter fun j hj => ?_
    rw [inside_setPc hp] at hj
    split_ifs at hj with hji
    · exact .inl hji
    · exact .inr hj
  | @written i p hp ha hpc =>
    have hmark : ({ s.setPc i .closing with lock := s.lock.map (·.written i p.pid) } : State).owner = s.owner
      := by
      cases hlock : s.lock with
      | none => simp [State.owner, hlock]
      | some f =>
        simp only [State.owner, hlock, Option.map_some, Option.bind_some, LockFile.written]
        split_ifs <;> rfl
    rw [hmark]
    exact Owned.setPc h hp fun _ => ⟨p, hp, ha, by rw [hpc]; rfl⟩
  | @goOn a i p pc hp ha hpc => exact Owned.setPc h hp fun _ => ⟨p, hp, ha, hpc⟩
  | @removed a i p hp ha hpc =>
    refine h.leave ⟨p, hp, ha, hpc⟩ fun j hj => ?_
    rw [inside_setPc hp] at hj
    split_ifs at hj with hji
    · exact absurd hj.2 Bool.noConfusion
    · exact ⟨hji, hj⟩
  | @stolen i p hp hpc =>
    have hout (c : ℕ) (hc : s.owner = some c) : ¬ Inside s.procs c := by
      rintro ⟨q, hq, ha, -⟩
      simp [sparesLive, hc, State.lives, hq, ha] at hok
    refine .of_not_inside fun j hj => h.not_inside hout j ?_
    rw [inside_setPc hp] at hj
    split_ifs at hj with hji
    · exact absurd hj.2 Bool.noConfusion
    · exact hj

/-! ### What the PID in the file says -/

/-- No two processes have one PID, and a PID in the file that belongs to a process is that
of the process which has created the file. -/
structure Truthful (s : State) : Prop where
  used : ∀ q ∈ s.procs, q.pid ∈ s.used
  distinct : (s.procs.map (·.pid)).Nodup
  file : ∀ f pid, s.lock = some f → f.pid = some pid → pid ∈ s.used ∧
    ∀ (j : ℕ) (q : Proc), s.procs[j]? = some q → q.pid = pid → f.creator = some j

/-- The processes and their PIDs are the same, and so is the file, or it is gone. -/
theorem Truthful.congr (h : Truthful s) (hpids : t.procs.map (·.pid) = s.procs.map (·.pid))
    (hused : t.used = s.used)
    (hlock : t.lock = s.lock ∨ t.lock = none) : Truthful t := by
  have hproc (j : ℕ) (q : Proc) (hq : t.procs[j]? = some q) : ∃ r, s.procs[j]? = some r ∧ r.pid = q.pid := by
    have hj : (t.procs.map (·.pid))[j]? = some q.pid := by rw [List.getElem?_map, hq]; rfl
    rw [hpids, List.getElem?_map] at hj
    exact Option.map_eq_some_iff.mp hj
  refine ⟨fun q hq => ?_, by rw [hpids]; exact h.distinct, fun f pid hf hpid => ?_⟩
  · obtain ⟨j, hj⟩ := List.mem_iff_getElem?.mp hq
    obtain ⟨r, hr, heq⟩ := hproc j q hj
    rw [hused, ← heq]
    exact h.used r (List.mem_of_getElem? hr)
  · rcases hlock with hsame | hnone
    · obtain ⟨hin, hcreator⟩ := h.file f pid (hsame ▸ hf) hpid
      refine ⟨hused ▸ hin, fun j q hq hqp => ?_⟩
      obtain ⟨r, hr, heq⟩ := hproc j q hq
      exact hcreator j r hr (heq.trans hqp)
    · exact absurd (hf.symm.trans hnone) (Option.some_ne_none f)

theorem map_pid_modify (procs : List Proc) (i : ℕ) (f : Proc → Proc) (hf : ∀ p, (f p).pid = p.pid) :
    (procs.modify i f).map (·.pid) = procs.map (·.pid) := by
  induction procs generalizing i with
  | nil => cases i <;> rfl
  | cons p procs ih =>
    cases i with
    | zero => simp [hf]
    | succ i => simp [ih]

theorem truthful_of_takes (h : Truthful s) (ht : Takes s a t) : Truthful t := by
  have hpids (i : ℕ) (pc : Pc) : (s.setPc i pc).procs.map (·.pid) = s.procs.map (·.pid) :=
    map_pid_modify s.procs i _ fun _ => rfl
  cases ht with
  | @launch pid hfree =>
    refine ⟨fun q hq => ?_, ?_, fun f pid' hf hpid => ?_⟩
    · rcases List.mem_append.mp hq with hq | hq
      · exact List.mem_cons_of_mem _ (h.used q hq)
      · obtain rfl := List.mem_singleton.mp hq
        exact List.mem_cons_self
    · rw [List.map_append]
      refine List.nodup_append.mpr ⟨h.distinct, List.nodup_singleton _, fun n hn m hm => ?_⟩
      obtain ⟨q, hq, rfl⟩ := List.mem_map.mp hn
      obtain rfl := List.mem_singleton.mp hm
      rintro rfl
      exact hfree (h.used q hq)
    · obtain ⟨hin, hcreator⟩ := h.file f pid' hf hpid
      refine ⟨List.mem_cons_of_mem _ hin, fun j q hq hqp => ?_⟩
      rw [List.getElem?_append] at hq
      split_ifs at hq with hj
      · exact hcreator j q hq hqp
      · obtain rfl := List.mem_singleton.mp (List.mem_of_getElem? hq)
        obtain rfl : pid = pid' := hqp
        exact absurd hin hfree
  | crash i => exact h.congr (map_pid_modify s.procs i _ fun _ => rfl) rfl (.inl rfl)
  | outside hp hpc hnext => exact h.congr (hpids _ _) rfl (.inl rfl)
  | @create i p hp hpc hlock =>
    have hnone : Truthful { s.setPc i .writing with lock := none } := h.congr (hpids i _) rfl (.inr rfl)
    refine ⟨hnone.used, hnone.distinct, fun f pid hf hpid => ?_⟩
    obtain rfl := Option.some_inj.mp hf
    exact absurd hpid.symm (Option.some_ne_none pid)
  | @written i p hp ha hpc =>
    have hsame : Truthful (s.setPc i .closing) := h.congr (hpids i _) rfl (.inl rfl)
    refine ⟨hsame.used, hsame.distinct, fun f pid hf hpid => ?_⟩
    obtain ⟨g, hg, rfl⟩ := Option.map_eq_some_iff.mp hf
    unfold LockFile.written at hpid ⊢
    split_ifs at hpid ⊢ with hmine
    · obtain rfl := Option.some_inj.mp hpid
      have hi : (s.setPc i .closing).procs[i]? = some { p with pc := .closing } := by
        rw [getElem?_setPc hp, if_pos rfl]
      refine ⟨h.used p (List.mem_of_getElem? hp), fun j q hq hqp => ?_⟩
      have hij : i = j := by
        refine (List.getElem?_inj ?_ hsame.distinct (j := j)).mp ?_
        · rw [List.length_map]
          exact (List.getElem?_eq_some_iff.mp hi).1
        · rw [List.getElem?_map, List.getElem?_map, hi, hq]
          exact congrArg some hqp.symm
      exact hij ▸ hmine
    · exact hsame.file g pid hg hpid
  | goOn hp ha hpc => exact h.congr (hpids _ _) rfl (.inl rfl)
  | removed hp ha hpc => exact h.congr (hpids _ _) rfl (.inr rfl)
  | stolen hp hpc => exact h.congr (hpids _ _) rfl (.inr rfl)

/-- The PID in the lock file of a process that is gone is not that of a live one. -/
theorem Truthful.not_isAlive (h : Truthful s) {f : LockFile} (hf : s.lock = some f)
    (hgone : ∀ c, s.owner = some c → s.lives c = false) : f.pid.any s.isAlive = false := by
  rw [Option.any_eq_false]
  intro pid hpid
  by_contra hno
  have halive : s.isAlive pid = true := by simpa using hno
  obtain ⟨q, hq, hlive⟩ := List.any_eq_true.mp halive
  obtain ⟨hqa, hqp⟩ : q.alive = true ∧ q.pid = pid := by simpa using hlive
  obtain ⟨j, hj⟩ := List.mem_iff_getElem?.mp hq
  have hcreator := (h.file f pid hf hpid).2 j q hj hqp
  have hdead := hgone j (by simp [State.owner, hf, hcreator])
  simp [State.lives, hj, hqa] at hdead

/-! ### Runs -/

theorem step_eq (h : move s a = some t) : step s a = some (t, []) := by rw [step, h]; rfl

/-- A process is moved on and the file changed. -/
def State.put (s : State) (i : ℕ) (pc : Pc) (lock : Option LockFile) : State := { s.setPc i pc with lock }

variable {lock lock' : Option LockFile}

theorem setPc_put (pc' : Pc) : (s.put i pc lock).setPc i pc' = s.put i pc' lock := by
  simp only [State.put, State.setPc, List.modify_modify_eq]
  rfl

theorem mk_put : State.mk (s.put i pc lock).procs lock' (s.put i pc lock).used = s.put i pc lock' := rfl

theorem lock_put : (s.put i pc lock).lock = lock := rfl

theorem ifLive_put (hp : s.procs[i]? = some p) (ha : p.alive = true) {f : Proc → Pc → Option State} :
    (s.put i pc lock).ifLive i f = f { p with pc } pc := by
  have hi : (s.put i pc lock).procs[i]? = some { p with pc } := (getElem?_setPc hp).trans (if_pos rfl)
  simp only [State.ifLive, hi, ha, if_true]

theorem isAlive_put (pid : ℕ) : (s.put i pc lock).isAlive pid = s.isAlive pid := by
  have hany (procs : List Proc) (i : ℕ) : (procs.modify i ({ · with pc })).any
    (fun p => p.alive && p.pid = pid) =
      procs.any fun p => p.alive && p.pid = pid := by
    induction procs generalizing i with
    | nil => cases i <;> rfl
    | cons p procs ih =>
      cases i with
      | zero => rfl
      | succ i => simp only [List.modify_succ_cons, List.any_cons, ih]
  exact hany s.procs i

/-- From the loop of the acquire without a lock file. -/
theorem exec_create (hp : s.procs[i]? = some p) (ha : p.alive = true) :
    exec step (s.put i .opening none) [.openFile i, .write i true, .close i true] =
      some (s.put i .holding (some ⟨some i, some p.pid⟩), []) := by
  simp only [exec, step, move, State.openFile, State.write, State.close, ifLive_put hp ha, setPc_put,
    lock_put, mk_put,
    LockFile.written, Option.map_some, if_true, List.append_nil]

/-- A lock file whose PID is that of no live process is taken away. -/
theorem exec_steal (hp : s.procs[i]? = some p) (ha : p.alive = true) {f : LockFile}
    (hgone : f.pid.any s.isAlive = false) :
    exec step (s.put i .opening (some f)) [.openFile i, .readFile i, .judge i, .steal i] =
      some (s.put i .opening none, []) := by
  have halive : f.pid.any (s.put i (.judging f.pid) (some f)).isAlive = false := by
    rwa [funext (isAlive_put (s := s) (i := i))]
  simp only [exec, step, move, State.openFile, State.readFile, State.judge, State.steal, ifLive_put hp ha,
    setPc_put, lock_put, mk_put, halive, if_false, Option.map_some, List.append_nil, Bool.false_eq_true]

theorem Truthful.neverBlocks (h : Truthful s) : NeverBlocks s := by
  intro hgone i p hp ha hpc
  have hstart : step s (.start i) = some (s.put i .opening s.lock, []) := by
    simp [step, move, State.start, State.ifLive, hp, ha, hpc, State.put, State.setPc]
  have hheld (lock : Option LockFile) : (s.put i .holding lock).procs[i]? = some { p with pc := .holding } :=
    (getElem?_setPc hp).trans (if_pos rfl)
  unfold acquires
  cases hlock : s.lock with
  | none =>
    rw [hlock] at hstart
    exact ⟨_, exec_cons_eq_some.mpr ⟨_, [], [], hstart, exec_create hp ha, rfl⟩, hheld _⟩
  | some f =>
    rw [hlock] at hstart
    have hall := exec_append (exec_steal hp ha (h.not_isAlive hlock hgone)) (exec_create hp ha)
    exact ⟨_, exec_cons_eq_some.mpr ⟨_, [], [], hstart, hall, rfl⟩, hheld _⟩

/-- At most one live process is between an acquire and its release, no release is about to
take the lock file of another live process, and a process that is gone blocks no acquire,
as long as no lock file of a live process is stolen. -/
theorem singleOwner_of_sparesLive (leftover : Option (Option ℕ)) (as : List Action) (s : State)
    (es : List Empty)
    (hx : exec step (State.initial leftover) as = some (s, es))
    (hm : Meets step (fun s a => sparesLive s a = true) (State.initial leftover) as) :
    Exclusive s ∧ ReleasesOwn s ∧ NeverBlocks s := by
  have htakes {s t : State} {a : Action} {es : List Empty} (hs : step s a = some (t, es)) : Takes s a t := by
    obtain ⟨u, hu, he⟩ := Option.map_eq_some_iff.mp hs
    obtain ⟨rfl, -⟩ := Prod.mk.inj he
    exact takes_of_move hu
  have howned : Owned s.owner (Inside s.procs) :=
    exec_state_invariant (I := fun s => Owned s.owner (Inside s.procs))
      (fun _ _ _ _ h hok hs => owned_of_takes h hok (htakes hs))
      (.of_not_inside fun i ⟨p, hp, _⟩ => absurd hp.symm (Option.some_ne_none p)) hm hx
  have hinitial : Truthful (State.initial leftover) := by
    refine ⟨fun q hq => absurd hq List.not_mem_nil, List.nodup_nil,
      fun f pid hf hpid => ⟨?_, fun j q hq => absurd hq.symm (Option.some_ne_none q)⟩⟩
    obtain ⟨pid', hleft, rfl⟩ := Option.map_eq_some_iff.mp hf
    obtain rfl : pid' = some pid := hpid
    simp [State.initial, hleft]
  have htruthful : Truthful s := exec_keeps (fun _ _ _ _ h hs => truthful_of_takes h (htakes hs)) hinitial hx
  have hcreated {pc : Pc} (h : pc.acquired = true) : pc.created = true := by
    cases pc <;> first | rfl | exact absurd h Bool.noConfusion
  refine ⟨fun i j p q hp hpa hpc hq hqa hqc => ?_, fun i p hp ha hpc c hc _ => ?_, htruthful.neverBlocks⟩
  · exact howned.eq ⟨p, hp, hpa, hcreated hpc⟩ ⟨q, hq, hqa, hcreated hqc⟩
  · have hi := howned i ⟨p, hp, ha, by rw [hpc]; rfl⟩
    exact Option.some_inj.mp (hc.symm.trans hi)

/-- A lock file of a process that has ended, two launchers, and a crash inside. -/
def takeOver : List Action :=
  [.launch 10, .launch 11] ++ [.start 0, .openFile 0, .readFile 0, .judge 0, .steal 0, .openFile 0, .write 0
    true,
    .close 0 true, .start 1, .openFile 1, .readFile 1, .judge 1, .crash 0, .start 1, .openFile 1, .readFile 1,
    .judge 1, .steal 1, .openFile 1, .write 1 true, .close 1 true, .readOwn 1]

theorem takeOver_exclusive : ∃ s, exec step (State.initial (some (some 7))) takeOver = some (s, []) ∧
    Exclusive s ∧ ReleasesOwn s ∧ NeverBlocks s := by
  refine ⟨⟨[⟨10, false, .holding⟩, ⟨11, true, .removing⟩], some ⟨some 1, some 11⟩, [11, 10, 7]⟩, by decide,
    ?_⟩
  exact singleOwner_of_sparesLive (some (some 7)) takeOver _ [] (by decide) (by decide)

/-- The second launcher reads the lock file before the first one has written its PID. -/
def slowWriter : List Action :=
  [.launch 10, .launch 11, .start 0, .openFile 0, .start 1, .openFile 1, .readFile 1, .judge 1, .write 0 true,
    .close 0 true, .steal 1, .openFile 1, .write 1 true, .close 1 true]

theorem slowWriter_both : ¬ ∀ (leftover : Option (Option ℕ)) (as : List Action) (s : State) (es : List Empty),
    exec step (State.initial leftover) as = some (s, es) → Exclusive s ∧ ReleasesOwn s ∧ NeverBlocks s := by
  intro h
  have hex := (h none slowWriter ⟨[⟨10, true, .holding⟩, ⟨11, true, .holding⟩], some ⟨some 1, some 11⟩,
    [11, 10]⟩ []
    (by decide)).1
  exact absurd (hex 0 1 _ _ rfl rfl rfl rfl rfl rfl) (by decide)

end ManyAiCli.Launcher.ConnectLock
