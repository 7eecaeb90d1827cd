import ManyAiCli.Runs.Jobs
import ManyAiCli.Runs.Machine
import Mathlib.Data.List.AList
import Mathlib.Logic.Function.Basic

/-! Board notices that wait until their conductor is idle. The queue is under the lock of the
orchestration, the flag that announces it under the lock of the sessions. A notification queues its
text and then sets the flag; a flush takes a text out, clears the flag and hands the text over. Each
of these is a step of its own. -/

namespace ManyAiCli.Hub.BoardNotices

open Runs

/-- A board and a session. -/
abbrev Key := String × ℕ

/-- A text with the number of the call that brought it. -/
structure Notice where
  call : ℕ
  text : String
  deriving DecidableEq, Repr

/-- What stays as it is: the sessions that are conductors and the boards. -/
structure Env where
  conductor : ℕ → Bool
  board : String → Bool

inductive NotifyPc
  | checking
  /-- About to hand over, to a session that is no conductor. -/
  | direct
  | queueing
  | flagging
  | done
  deriving DecidableEq, Repr

/-- The keys are those that the flush has still to look at. -/
inductive FlushPc
  | collecting
  | looking (todo : List Key)
  | taking (key : Key) (todo : List Key)
  | clearing (key : Key) (n : Notice) (todo : List Key)
  | injecting (key : Key) (n : Notice) (todo : List Key)
  deriving DecidableEq, Repr

/-- A call of `notifyBoardSession` or `flushQueuedBoardNotices`. -/
inductive Task
  | notify (key : Key) (text : String) (pc : NotifyPc)
  | flush (pc : FlushPc)
  deriving DecidableEq, Repr

structure State where
  notices : AList fun _ : Key => Notice := ∅
  /-- `BoardNotifyPending` of each session. -/
  pending : ℕ → Bool := fun _ => false
  tasks : List Task := []

inductive Event
  /-- A text, queued under the key or not, is handed to `injectText`. -/
  | injected (key : Key) (n : Notice)
  /-- A queued text gives way to a later one. -/
  | replaced (key : Key) (old new : Notice)
  deriving DecidableEq, Repr

inductive Action
  | notify (key : Key) (text : String)
  | tick
  /-- A flush copies the keys of the queue, in the order in which the maps yield them. -/
  | collect (i : ℕ) (order : List Key)
  /-- A flush asks whether the next conductor is idle. -/
  | look (i : ℕ) (idle : Bool)
  /-- The next critical section of any other kind. -/
  | go (i : ℕ)
  deriving DecidableEq, Repr

namespace State

variable (env : Env) (s : State)

def setTask (i : ℕ) (task : Task) : State := { s with tasks := s.tasks.set i task }

def setPending (session : ℕ) (pending : Bool) : State :=
  { s with pending := Function.update s.pending session pending }

def replaces (key : Key) (n : Notice) : List Event :=
  ((s.notices.lookup key).map fun old => Event.replaced key old n).toList

def goNotify (i : ℕ) (key : Key) (text : String) : NotifyPc → Option (State × List Event)
  | .checking => some (s.setTask i (.notify key text (if env.conductor key.2 then .queueing else .direct)),
      [])
  | .direct => some (s.setTask i (.notify key text .done), [.injected key ⟨i, text⟩])
  | .queueing =>
    let s' := s.setTask i (.notify key text .flagging)
    if env.board key.1 then some ({ s' with notices := s'.notices.insert key ⟨i, text⟩ }, s.replaces key
      ⟨i, text⟩)
    else some (s', [])
  | .flagging => some ((s.setTask i (.notify key text .done)).setPending key.2 true, [])
  | .done => none

def goFlush (i : ℕ) : FlushPc → Option (State × List Event)
  | .taking key todo =>
    match s.notices.lookup key with
    | some n => some ({ s.setTask i (.flush (.clearing key n todo)) with notices := s.notices.erase key }, [])
    | none => some (s.setTask i (.flush (.looking todo)), [])
  | .clearing key n todo => some ((s.setTask i (.flush (.injecting key n todo))).setPending key.2 false, [])
  | .injecting key n todo => some (s.setTask i (.flush (.looking todo)), [.injected key n])
  | .collecting | .looking _ => none

end State

open State in
def step (env : Env) (s : State) : Action → Option (State × List Event)
  | .notify key text => some ({ s with tasks := s.tasks ++ [.notify key text .checking] }, [])
  | .tick => some ({ s with tasks := s.tasks ++ [.flush .collecting] }, [])
  | .collect i order =>
    match s.tasks[i]? with
    | some (.flush .collecting) =>
      if order.Perm s.notices.keys then some (s.setTask i (.flush (.looking order)), []) else none
    | _ => none
  | .look i idle =>
    match s.tasks[i]? with
    | some (.flush (.looking (key :: todo))) =>
      some (s.setTask i (.flush (if env.conductor key.2 && idle then .taking key todo else .looking todo)),
        [])
    | _ => none
  | .go i =>
    match s.tasks[i]? with
    | some (.notify key text pc) => s.goNotify env i key text pc
    | some (.flush pc) => s.goFlush i pc
    | none => none

/-! ### Where a text is -/

/-- The text of the call is not in the queue yet, nor handed over. -/
def NotifyPc.waiting : NotifyPc → Bool
  | .checking | .direct | .queueing => true
  | .flagging | .done => false

namespace Task

/-- What a notification brings, and whether it still waits. -/
def caller : Task → Option (Key × String × Bool)
  | .notify key text pc => some (key, text, pc.waiting)
  | .flush _ => none

/-- The flush has taken the text out and not handed it over. -/
def carries (key : Key) (n : Notice) : Task → Bool
  | .flush (.clearing k m _) | .flush (.injecting k m _) => k = key && m = n
  | _ => false

/-- About to set the flag of the session. -/
def flags (session : ℕ) : Task → Bool
  | .notify key _ .flagging => key.2 = session
  | _ => false

/-- About to clear the flag of the session. -/
def clears (session : ℕ) : Task → Bool
  | .flush (.clearing key _ _) => key.2 = session
  | _ => false

def finished : Task → Bool
  | .notify _ _ .done | .flush (.looking []) => true
  | _ => false

end Task

def Event.replaces (key : Key) (n : Notice) : Event → Bool
  | .replaced k old _ => k = key && old = n
  | .injected _ _ => false

def stillQueued (s : State) (key : Key) (n : Notice) : ℕ := (s.notices.lookup key = some n : Bool).toNat

def handed (es : List Event) (key : Key) (n : Notice) : ℕ := es.count (.injected key n)

def givenWay (es : List Event) (key : Key) (n : Notice) : ℕ := es.countP (·.replaces key n)

/-- The places of a text, each as often as it is there. -/
def places (s : State) (es : List Event) (key : Key) (n : Notice) : ℕ :=
  stillQueued s key n + s.tasks.countP (·.carries key n) + handed es key n + givenWay es key n

/-- Some board has a text for the session. -/
def State.queued (s : State) (session : ℕ) : Bool := s.notices.keys.any fun key => key.2 = session

/-- How many are about to set the flag of the session, and how many to clear it. -/
def State.flaggers (s : State) (session : ℕ) : ℕ := s.tasks.countP (·.flags session)

def State.clearers (s : State) (session : ℕ) : ℕ := s.tasks.countP (·.clears session)

def State.AtRest (s : State) : Prop := ∀ task ∈ s.tasks, task.finished = true

instance (s : State) : Decidable s.AtRest := inferInstanceAs (Decidable (∀ task ∈ s.tasks, _))

/-- A text is queued for a board that there is; the flag is set while a text is queued for the
session or a flush is about to clear it; and it is cleared while no text is queued for the session or
a notification is about to set it. -/
def inOrder (env : Env) (s : State) : Action → Bool
  | .go i =>
    match s.tasks[i]? with
    | some (.notify key _ .queueing) => env.board key.1
    | some (.notify key _ .flagging) => s.queued key.2 || s.tasks.any (·.clears key.2)
    | some (.flush (.clearing key _ _)) => !s.queued key.2 || s.tasks.any (·.flags key.2)
    | _ => true
  | _ => true

/-! ### What a step does -/

/-- A task goes on without touching the queue, the flags or a text. -/
structure Task.Passes (old new : Task) : Prop where
  caller : new.caller = old.caller
  carries : ∀ key n, new.carries key n = old.carries key n
  flags : ∀ session, new.flags session = old.flags session
  clears : ∀ session, new.clears session = old.clears session

inductive Move (s : State) : State → List Event → Prop
  | notify (key : Key) (text : String) : Move s { s with tasks := s.tasks ++ [.notify key text .checking] } []
  | tick : Move s { s with tasks := s.tasks ++ [.flush .collecting] } []
  | pass {i : ℕ} {old new : Task} (hi : s.tasks[i]? = some old) (h : old.Passes new) : Move s
      (s.setTask i new) []
  | direct {i : ℕ} {key : Key} {text : String} (hi : s.tasks[i]? = some (.notify key text .direct)) :
    Move s (s.setTask i (.notify key text .done)) [.injected key ⟨i, text⟩]
  | queue {i : ℕ} {key : Key} {text : String} (hi : s.tasks[i]? = some (.notify key text .queueing)) :
    Move s { s.setTask i (.notify key text .flagging) with notices := s.notices.insert key ⟨i, text⟩ }
      (s.replaces key ⟨i, text⟩)
  | flag {i : ℕ} {key : Key} {text : String} (hi : s.tasks[i]? = some (.notify key text .flagging))
    (h : s.queued key.2 = true ∨ 0 < s.clearers key.2) :
    Move s ((s.setTask i (.notify key text .done)).setPending key.2 true) []
  | take {i : ℕ} {key : Key} {n : Notice} {todo : List Key}
      (hi : s.tasks[i]? = some (.flush (.taking key todo)))
    (hn : s.notices.lookup key = some n) :
    Move s { s.setTask i (.flush (.clearing key n todo)) with notices := s.notices.erase key } []
  | clear {i : ℕ} {key : Key} {n : Notice} {todo : List Key}
    (hi : s.tasks[i]? = some (.flush (.clearing key n todo)))
    (h : s.queued key.2 = false ∨ 0 < s.flaggers key.2) :
    Move s ((s.setTask i (.flush (.injecting key n todo))).setPending key.2 false) []
  | inject {i : ℕ} {key : Key} {n : Notice} {todo : List Key}
    (hi : s.tasks[i]? = some (.flush (.injecting key n todo))) :
    Move s (s.setTask i (.flush (.looking todo))) [.injected key n]

variable {env : Env} {s t : State} {a : Action} {as : List Action} {es fs : List Event}

theorem countP_pos_of_any {p : Task → Bool} (h : s.tasks.any p = true) : 0 < s.tasks.countP p :=
  List.countP_pos_iff.2 (List.any_eq_true.1 h)

/-- What a step in order does. -/
theorem move_of_step (ho : inOrder env s a = true) (h : step env s a = some (t, es)) : Move s t es := by
  cases a with
  | notify key text =>
    cases h
    exact .notify key text
  | tick =>
    cases h
    exact .tick
  | collect i order =>
    rw [step] at h
    split at h
    next hi =>
      rw [Option.ite_none_right_eq_some] at h
      cases h.2
      exact .pass hi ⟨rfl, fun _ _ => rfl, fun _ => rfl, fun _ => rfl⟩
    next => exact absurd h.symm (Option.some_ne_none _)
  | look i idle =>
    rw [step] at h
    split at h
    next key todo hi =>
      cases h
      apply Move.pass hi
      split <;> exact ⟨rfl, fun _ _ => rfl, fun _ => rfl, fun _ => rfl⟩
    next => exact absurd h.symm (Option.some_ne_none _)
  | go i =>
    rw [step] at h
    split at h
    next key text pc hi =>
      rw [inOrder, hi] at ho
      cases pc with
      | checking =>
        cases h
        apply Move.pass hi
        split <;> exact ⟨rfl, fun _ _ => rfl, fun _ => rfl, fun _ => rfl⟩
      | direct =>
        cases h
        exact .direct hi
      | queueing =>
        rw [State.goNotify] at h
        dsimp only at h ho
        rw [if_pos ho] at h
        cases h
        exact .queue hi
      | flagging =>
        cases h
        apply Move.flag hi
        exact (Bool.or_eq_true_iff.1 ho).imp id countP_pos_of_any
      | done => exact absurd h.symm (Option.some_ne_none _)
    next pc hi =>
      rw [inOrder, hi] at ho
      cases pc with
      | collecting => exact absurd h.symm (Option.some_ne_none _)
      | looking todo => exact absurd h.symm (Option.some_ne_none _)
      | taking key todo =>
        rw [State.goFlush] at h
        split at h
        next n hn =>
          cases h
          exact .take hi hn
        next =>
          cases h
          exact .pass hi ⟨rfl, fun _ _ => rfl, fun _ => rfl, fun _ => rfl⟩
      | clearing key n todo =>
        cases h
        apply Move.clear hi
        exact (Bool.or_eq_true_iff.1 ho).imp (Bool.not_eq_true' _).mp countP_pos_of_any
      | injecting key n todo =>
        cases h
        exact .inject hi
    next => exact absurd h.symm (Option.some_ne_none _)

/-! ### Every text is in one place -/

/-- What the task with a number brings. -/
def State.caller (s : State) (i : ℕ) : Option (Key × String × Bool) := s.tasks[i]?.bind Task.caller

/-- A text that is not to come yet is nowhere, and each other waits or is in one place. -/
structure Accounted (es : List Event) (s : State) : Prop where
  fresh : ∀ key n, s.tasks.length ≤ n.call → places s es key n = 0
  call : ∀ i key text waits, s.caller i = some (key, text, waits) → places s es key ⟨i, text⟩ + waits.toNat =
    1

theorem caller_setTask {i : ℕ} {old : Task} (hi : s.tasks[i]? = some old) (new : Task) (j : ℕ) :
    (s.setTask i new).caller j = if j = i then new.caller else s.caller j := by
  change (s.tasks.set i new)[j]?.bind Task.caller = _
  rw [List.getElem?_set]
  by_cases hj : i = j
  · rw [if_pos hj, if_pos hj.symm, if_pos (List.getElem?_eq_some_iff.1 hi).1, Option.bind_some]
  · rw [if_neg hj, if_neg (Ne.symm hj)]
    rfl

theorem caller_of {i : ℕ} {task : Task} (hi : s.tasks[i]? = some task) : s.caller i = task.caller := by
  rw [State.caller, hi, Option.bind_some]

theorem caller_setTask_eq {i : ℕ} {old : Task} (hi : s.tasks[i]? = some old) (new : Task)
    (h : new.caller = old.caller) (j : ℕ) : (s.setTask i new).caller j = s.caller j := by
  rw [caller_setTask hi, h]
  split
  next hj => rw [hj, caller_of hi]
  next => rfl

theorem handed_append (es fs : List Event) (key : Key) (n : Notice) :
    handed (es ++ fs) key n = handed es key n + handed fs key n := List.count_append

theorem givenWay_append (es fs : List Event) (key : Key) (n : Notice) :
    givenWay (es ++ fs) key n = givenWay es key n + givenWay fs key n := List.countP_append

theorem Accounted.keep (h : Accounted es s) (hlen : t.tasks.length = s.tasks.length)
    (hcaller : ∀ i, t.caller i = s.caller i)
    (hplaces : ∀ key n, places t (es ++ fs) key n = places s es key n) : Accounted (es ++ fs) t where
  fresh key n hn := (hplaces key n).trans (h.fresh key n (hlen ▸ hn))
  call i key text waits hi := by
    rw [hplaces]
    exact h.call i key text waits (hcaller i ▸ hi)

/-- The text of a call comes to a place. -/
theorem Accounted.arrive (h : Accounted es s) (hlen : t.tasks.length = s.tasks.length) {i : ℕ} {key : Key}
    {text : String} (hs : s.caller i = some (key, text, true)) (ht : t.caller i = some (key, text, false))
    (hcaller : ∀ j, j ≠ i → t.caller j = s.caller j)
    (hplaces : ∀ k n, places t (es ++ fs) k n = places s es k n + (k = key && n = ⟨i, text⟩ : Bool).toNat) :
    Accounted (es ++ fs) t where
  fresh k n hn := by
    have hi : i < s.tasks.length := by
      by_contra hge
      rw [State.caller, List.getElem?_eq_none (not_lt.1 hge)] at hs
      exact Option.some_ne_none _ hs.symm
    have hne : n ≠ ⟨i, text⟩ := by
      rintro rfl
      exact absurd (hlen ▸ hn) (not_le.2 hi)
    rw [hplaces, h.fresh k n (hlen ▸ hn), decide_eq_false hne, Bool.and_false, Bool.toNat_false]
  call j k text' waits hj := by
    rw [hplaces]
    by_cases hji : j = i
    · subst hji
      obtain ⟨rfl, rfl, rfl⟩ : key = k ∧ text = text' ∧ false = waits := by
        simpa only [Option.some.injEq, Prod.mk.injEq] using ht.symm.trans hj
      have := h.call j key text true hs
      rw [Bool.toNat_true] at this
      simp only [decide_true, Bool.and_true, Bool.toNat_true, Bool.toNat_false]
      omega
    · have hne : (⟨j, text'⟩ : Notice) ≠ ⟨i, text⟩ := fun heq => hji (congrArg Notice.call heq)
      rw [decide_eq_false hne, Bool.and_false, Bool.toNat_false, Nat.add_zero]
      exact h.call j k text' waits (hcaller j hji ▸ hj)

/-- A task that comes carries nothing; a notification waits. -/
theorem Accounted.start (h : Accounted es s) {task : Task}
    (hwaits : ∀ key text waits, task.caller = some (key, text, waits) → waits = true)
    (hcarries : ∀ key n, task.carries key n = false) :
    Accounted (es ++ []) { s with tasks := s.tasks ++ [task] } := by
  have hplaces (key : Key) (n : Notice) :
      places { s with tasks := s.tasks ++ [task] } es key n = places s es key n := by
    simp only [places, stillQueued, List.countP_append, List.countP_singleton, hcarries, Bool.false_eq_true,
      if_false, Nat.add_zero]
  rw [List.append_nil]
  constructor
  · intro key n hn
    rw [List.length_append] at hn
    rw [hplaces]
    exact h.fresh key n (by omega)
  · intro i key text waits hi
    rw [hplaces]
    change (s.tasks ++ [task])[i]?.bind Task.caller = _ at hi
    rcases lt_trichotomy i s.tasks.length with hlt | rfl | hgt
    · rw [List.getElem?_append_left hlt] at hi
      exact h.call i key text waits hi
    · rw [List.getElem?_concat_length, Option.bind_some] at hi
      rw [hwaits key text waits hi, h.fresh key _ le_rfl, Bool.toNat_true]
    · rw [List.getElem?_eq_none (by rw [List.length_append]; exact hgt)] at hi
      exact absurd hi.symm (Option.some_ne_none _)

/-- How the places of a text change with a task and the events. -/
theorem places_add {i : ℕ} {old new : Task} (hi : s.tasks[i]? = some old) (ht : t.tasks = s.tasks.set i new)
    (es fs : List Event) (key : Key) (n : Notice) :
    places t (es ++ fs) key n + stillQueued s key n + (old.carries key n).toNat =
      places s es key n + stillQueued t key n + (new.carries key n).toNat + handed fs key n +
        givenWay fs key n := by
  have hcount := countP_set_add (w := new) hi (·.carries key n)
  rw [places, places, ht, handed_append, givenWay_append]
  omega

theorem handed_injected (key k : Key) (n m : Notice) :
    handed [.injected key n] k m = (key = k && n = m : Bool).toNat := by
  rw [handed, List.count_singleton]
  by_cases h : key = k ∧ n = m
  · obtain ⟨rfl, rfl⟩ := h
    simp only [BEq.rfl, if_true, decide_true, Bool.and_self, Bool.toNat_true]
  · have hne : (Event.injected key n == Event.injected k m) = false := by
      rw [beq_eq_false_iff_ne]
      rintro heq
      cases heq
      exact h ⟨rfl, rfl⟩
    rw [hne, ← Bool.decide_and, decide_eq_false h]
    rfl

/-- A text that is put in the queue takes the place of the one before, which gives way. -/
theorem stillQueued_insert (key k : Key) (n m : Notice) (hs : t.notices = s.notices.insert key n) :
    stillQueued t k m + handed (s.replaces key n) k m + givenWay (s.replaces key n) k m =
      stillQueued s k m + (k = key && m = n : Bool).toNat := by
  rw [stillQueued, stillQueued, hs, State.replaces]
  by_cases hk : k = key
  · subst hk
    rw [AList.lookup_insert]
    cases s.notices.lookup k with
    | none => simp [handed, givenWay, eq_comm]
    | some old =>
      by_cases hold : old = m
      · subst hold
        simp [handed, givenWay, Event.replaces, eq_comm, Nat.add_comm]
      · simp [handed, givenWay, Event.replaces, hold, @eq_comm _ m]
  · rw [AList.lookup_insert_ne hk]
    cases s.notices.lookup key with
    | none => simp [handed, givenWay, hk]
    | some old => simp [handed, givenWay, Event.replaces, hk, Ne.symm hk]

/-- A text that is taken out of the queue is carried. -/
theorem stillQueued_erase {key : Key} {n : Notice} (hn : s.notices.lookup key = some n)
    (ht : t.notices = s.notices.erase key) (todo : List Key) (k : Key) (m : Notice) :
    stillQueued t k m + (Task.carries k m (.flush (.clearing key n todo))).toNat = stillQueued s k m := by
  rw [stillQueued, stillQueued, ht, Task.carries]
  by_cases hk : k = key
  · subst hk
    rw [AList.lookup_erase, hn]
    simp
  · rw [AList.lookup_erase_ne hk]
    simp [Ne.symm hk]

theorem Accounted.move (h : Accounted es s) (hm : Move s t fs) : Accounted (es ++ fs) t := by
  cases hm with
  | notify key text =>
    apply h.start
    · intro k text' waits hc
      cases hc
      rfl
    · exact fun _ _ => rfl
  | tick => exact h.start (fun _ _ _ hc => absurd hc.symm (Option.some_ne_none _)) fun _ _ => rfl
  | @pass i old new hi hp =>
    apply h.keep (List.length_set ..)
    · exact caller_setTask_eq hi new hp.caller
    · intro key n
      have hadd := places_add (t := s.setTask i new) hi rfl es [] key n
      rw [hp.carries] at hadd
      exact Nat.add_right_cancel (Nat.add_right_cancel hadd)
  | @direct i key text hi =>
    apply h.arrive (List.length_set ..) (caller_of hi)
    · rw [caller_setTask hi, if_pos rfl]
      rfl
    · intro j hj
      rw [caller_setTask hi, if_neg hj]
    · intro k n
      have hadd := places_add (t := s.setTask i (.notify key text .done)) hi rfl es [.injected key ⟨i, text⟩]
        k n
      rw [handed_injected] at hadd
      have hgain : (key = k && (⟨i, text⟩ : Notice) = n : Bool) = (k = key && n = ⟨i, text⟩ : Bool) := by
        simp only [eq_comm]
      rw [hgain] at hadd
      change _ + stillQueued s k n + 0 = _ + stillQueued s k n + 0 + _ + 0 at hadd
      omega
  | @queue i key text hi =>
    apply h.arrive (List.length_set ..) (caller_of hi)
    · exact (caller_setTask hi (.notify key text .flagging) i).trans (if_pos rfl)
    · exact fun j hj => (caller_setTask hi (.notify key text .flagging) j).trans (if_neg hj)
    · intro k n
      have hadd := places_add (t := { s.setTask i (.notify key text .flagging) with
        notices := s.notices.insert key ⟨i, text⟩ }) hi rfl es (s.replaces key ⟨i, text⟩) k n
      have hins := stillQueued_insert (t := { s.setTask i (.notify key text .flagging) with
        notices := s.notices.insert key ⟨i, text⟩ }) key k ⟨i, text⟩ n rfl
      change _ + stillQueued s k n + 0 = _ + _ + 0 + _ + _ at hadd
      omega
  | @flag i key text hi hq =>
    apply h.keep (List.length_set ..)
    · exact caller_setTask_eq hi (.notify key text .done) rfl
    · intro k n
      have hadd := places_add (t := (s.setTask i (.notify key text .done)).setPending key.2 true) hi rfl es
        [] k n
      exact Nat.add_right_cancel (Nat.add_right_cancel hadd)
  | @take i key n todo hi hn =>
    apply h.keep (List.length_set ..)
    · exact caller_setTask_eq hi (.flush (.clearing key n todo)) rfl
    · intro k m
      have hadd := places_add (t := { s.setTask i (.flush (.clearing key n todo)) with
        notices := s.notices.erase key }) hi rfl es [] k m
      have herase := stillQueued_erase (t := { s.setTask i (.flush (.clearing key n todo)) with
        notices := s.notices.erase key }) hn rfl todo k m
      change _ + stillQueued s k m + 0 = _ + _ + _ + 0 + 0 at hadd
      omega
  | @clear i key n todo hi hq =>
    apply h.keep (List.length_set ..)
    · exact caller_setTask_eq hi (.flush (.injecting key n todo)) rfl
    · intro k m
      have hadd := places_add (t := (s.setTask i (.flush (.injecting key n todo))).setPending key.2 false)
        hi rfl es [] k m
      exact Nat.add_right_cancel (Nat.add_right_cancel hadd)
  | @inject i key n todo hi =>
    apply h.keep (List.length_set ..)
    · exact caller_setTask_eq hi (.flush (.looking todo)) rfl
    · intro k m
      have hadd := places_add (t := s.setTask i (.flush (.looking todo))) hi rfl es [.injected key n] k m
      rw [handed_injected] at hadd
      change _ + stillQueued s k m + (key = k && n = m : Bool).toNat =
        _ + stillQueued s k m + 0 + _ + 0 at hadd
      omega

/-! ### The flag -/

/-- A flag that is set tells of a text in the queue, or is about to be cleared; a text in the queue is
told of by the flag, or is about to be. -/
def Announced (s : State) (session : ℕ) : Prop :=
  (s.pending session = true → s.queued session = true ∨ 0 < s.clearers session) ∧
    (s.pending session = false → s.queued session = false ∨ 0 < s.flaggers session)

theorem queued_iff {session : ℕ} : s.queued session = true ↔ ∃ key ∈ s.notices, key.2 = session := by
  simp only [State.queued, List.any_eq_true, decide_eq_true_eq, AList.mem_keys]

theorem queued_insert (key : Key) (n : Notice) (ht : t.notices = s.notices.insert key n) (session : ℕ) :
    t.queued session = true ↔ key.2 = session ∨ s.queued session = true := by
  rw [queued_iff, queued_iff, ht]
  simp only [AList.mem_insert, or_and_right, exists_or, exists_eq_left]

theorem queued_of_erase {key : Key} (ht : t.notices = s.notices.erase key) {session : ℕ}
    (h : t.queued session = true) : s.queued session = true := by
  rw [queued_iff, ht] at h
  obtain ⟨k, hk, hses⟩ := h
  exact queued_iff.2 ⟨k, (AList.mem_erase.1 hk).2, hses⟩

theorem queued_erase_of_ne {key : Key} (ht : t.notices = s.notices.erase key) {session : ℕ}
    (hne : key.2 ≠ session) : t.queued session = s.queued session := by
  apply Bool.eq_iff_iff.2
  refine ⟨queued_of_erase ht, fun h => ?_⟩
  obtain ⟨k, hk, hses⟩ := queued_iff.1 h
  rw [queued_iff, ht]
  refine ⟨k, AList.mem_erase.2 ⟨?_, hk⟩, hses⟩
  rintro rfl
  exact hne hses

theorem flaggers_set {i : ℕ} {old : Task} (hi : s.tasks[i]? = some old) (new : Task)
    (ht : t.tasks = s.tasks.set i new) (session : ℕ) :
    t.flaggers session + (old.flags session).toNat = s.flaggers session + (new.flags session).toNat := by
  rw [State.flaggers, ht]
  exact countP_set_add hi _

theorem clearers_set {i : ℕ} {old : Task} (hi : s.tasks[i]? = some old) (new : Task)
    (ht : t.tasks = s.tasks.set i new) (session : ℕ) :
    t.clearers session + (old.clears session).toNat = s.clearers session + (new.clears session).toNat := by
  rw [State.clearers, ht]
  exact countP_set_add hi _

/-- A step that leaves flag and queue as they are and takes away nobody who is about to write the flag. -/
theorem Announced.mono {session : ℕ} (h : Announced s session) (hp : t.pending session = s.pending session)
    (hq : t.queued session = s.queued session) (hc : s.clearers session ≤ t.clearers session)
    (hf : s.flaggers session ≤ t.flaggers session) : Announced t session := by
  rw [Announced, hp, hq]
  exact ⟨fun ht => (h.1 ht).imp_right fun hpos => Nat.lt_of_lt_of_le hpos hc,
    fun ht => (h.2 ht).imp_right fun hpos => Nat.lt_of_lt_of_le hpos hf⟩

theorem Announced.start {session : ℕ} (h : Announced s session) (task : Task) :
    Announced { s with tasks := s.tasks ++ [task] } session := by
  refine h.mono rfl rfl ?_ ?_
  · rw [State.clearers, State.clearers, List.countP_append]
    exact Nat.le_add_right _ _
  · rw [State.flaggers, State.flaggers, List.countP_append]
    exact Nat.le_add_right _ _

theorem pending_setPending (s : State) (session : ℕ) (pending : Bool) :
    (s.setPending session pending).pending session = pending := Function.update_self ..

theorem pending_setPending_of_ne (s : State) {session other : ℕ} (h : other ≠ session) (pending : Bool) :
    (s.setPending session pending).pending other = s.pending other := Function.update_of_ne h ..

theorem Announced.move {session : ℕ} (h : Announced s session) (hm : Move s t fs) : Announced t session := by
  cases hm with
  | notify key text => exact h.start _
  | tick => exact h.start _
  | @pass i old new hi hp =>
    have hc := clearers_set (t := s.setTask i new) hi new rfl session
    have hf := flaggers_set (t := s.setTask i new) hi new rfl session
    rw [hp.clears] at hc
    rw [hp.flags] at hf
    exact h.mono rfl rfl (by omega) (by omega)
  | @direct i key text hi =>
    have hc := clearers_set (t := s.setTask i (.notify key text .done)) hi (.notify key text .done) rfl
      session
    have hf := flaggers_set (t := s.setTask i (.notify key text .done)) hi (.notify key text .done) rfl
      session
    exact h.mono rfl rfl (Nat.le_of_eq hc.symm) (Nat.le_of_eq hf.symm)
  | @queue i key text hi =>
    set u : State := { s.setTask i (.notify key text .flagging) with
      notices := s.notices.insert key ⟨i, text⟩ } with hu
    have hc : u.clearers session + 0 = s.clearers session + 0 :=
      clearers_set (t := u) hi (.notify key text .flagging) rfl session
    have hf : u.flaggers session + 0 = s.flaggers session + (key.2 = session : Bool).toNat :=
      flaggers_set (t := u) hi (.notify key text .flagging) rfl session
    have hq := queued_insert (s := s) (t := u) key ⟨i, text⟩ rfl session
    by_cases hses : key.2 = session
    · rw [decide_eq_true hses, Bool.toNat_true] at hf
      exact ⟨fun _ => .inl (hq.2 (.inl hses)), fun _ => .inr (by omega)⟩
    · exact h.mono rfl (Bool.eq_iff_iff.2 (hq.trans (or_iff_right hses))) (by omega) (by omega)
  | @flag i key text hi hq =>
    set u : State := (s.setTask i (.notify key text .done)).setPending key.2 true with hu
    have hc : u.clearers session + 0 = s.clearers session + 0 :=
      clearers_set (t := u) hi (.notify key text .done) rfl session
    have hf : u.flaggers session + (key.2 = session : Bool).toNat = s.flaggers session + 0 :=
      flaggers_set (t := u) hi (.notify key text .done) rfl session
    by_cases hses : session = key.2
    · subst hses
      refine ⟨fun _ => hq.imp_right fun hpos => by omega, fun hp => ?_⟩
      rw [hu, pending_setPending] at hp
      exact absurd hp.symm Bool.false_ne_true
    · rw [decide_eq_false (Ne.symm hses), Bool.toNat_false] at hf
      exact h.mono (pending_setPending_of_ne _ hses true) rfl (by omega) (by omega)
  | @take i key n todo hi hn =>
    set u : State := { s.setTask i (.flush (.clearing key n todo)) with notices := s.notices.erase key } with
      hu
    have hc : u.clearers session + 0 = s.clearers session + (key.2 = session : Bool).toNat :=
      clearers_set (t := u) hi (.flush (.clearing key n todo)) rfl session
    have hf : u.flaggers session + 0 = s.flaggers session + 0 :=
      flaggers_set (t := u) hi (.flush (.clearing key n todo)) rfl session
    by_cases hses : key.2 = session
    · rw [decide_eq_true hses, Bool.toNat_true] at hc
      refine ⟨fun _ => .inr (by omega), fun hp => (h.2 hp).imp (fun hq => ?_) fun hpos => by omega⟩
      by_contra hne
      rw [Bool.not_eq_false] at hne
      exact absurd (hq.symm.trans (queued_of_erase (s := s) rfl hne)) Bool.false_ne_true
    · exact h.mono rfl (queued_erase_of_ne rfl hses) (by omega) (by omega)
  | @clear i key n todo hi hq =>
    set u : State := (s.setTask i (.flush (.injecting key n todo))).setPending key.2 false with hu
    have hc : u.clearers session + (key.2 = session : Bool).toNat = s.clearers session + 0 :=
      clearers_set (t := u) hi (.flush (.injecting key n todo)) rfl session
    have hf : u.flaggers session + 0 = s.flaggers session + 0 :=
      flaggers_set (t := u) hi (.flush (.injecting key n todo)) rfl session
    by_cases hses : session = key.2
    · subst hses
      refine ⟨fun hp => ?_, fun _ => hq.imp_right fun hpos => by omega⟩
      rw [hu, pending_setPending] at hp
      exact absurd hp Bool.false_ne_true
    · rw [decide_eq_false (Ne.symm hses), Bool.toNat_false] at hc
      exact h.mono (pending_setPending_of_ne _ hses false) rfl (by omega) (by omega)
  | @inject i key n todo hi =>
    have hc := clearers_set (t := s.setTask i (.flush (.looking todo))) hi (.flush (.looking todo)) rfl
      session
    have hf := flaggers_set (t := s.setTask i (.flush (.looking todo))) hi (.flush (.looking todo)) rfl
      session
    exact h.mono rfl rfl (Nat.le_of_eq hc.symm) (Nat.le_of_eq hf.symm)

/-! ### Runs -/

theorem accounted_init : Accounted [] {} where
  fresh _ _ _ := rfl
  call _ _ _ _ h := absurd h.symm (Option.some_ne_none _)

theorem announced_init (session : ℕ) : Announced {} session :=
  ⟨fun h => absurd h Bool.false_ne_true, fun _ => .inl rfl⟩

/-- What holds along every run in order. -/
theorem accounted_and_announced (hm : Meets (step env) (fun s a => inOrder env s a = true) {} as)
    (hx : exec (step env) {} as = some (t, es)) : Accounted es t ∧ ∀ session, Announced t session :=
  exec_invariant (I := fun es s => Accounted es s ∧ ∀ session, Announced s session) (h := [])
    (fun _ _ _ _ _ hI ho hs =>
      have hmove := move_of_step ho hs
      ⟨hI.1.move hmove, fun session => (hI.2 session).move hmove⟩)
    ⟨accounted_init, announced_init⟩ hm hx

theorem not_carries_of_finished {task : Task} (h : task.finished = true) (key : Key) (n : Notice) :
    ¬ task.carries key n = true := by
  cases task with
  | notify _ _ pc => exact Bool.false_ne_true
  | flush pc =>
    cases pc with
    | clearing | injecting => exact absurd h Bool.false_ne_true
    | _ => exact Bool.false_ne_true

theorem writes_of_finished {task : Task} (h : task.finished = true) (session : ℕ) :
    ¬ task.flags session = true ∧ ¬ task.clears session = true := by
  cases task with
  | notify _ _ pc =>
    cases pc with
    | flagging => exact absurd h Bool.false_ne_true
    | _ => exact ⟨Bool.false_ne_true, Bool.false_ne_true⟩
  | flush pc =>
    cases pc with
    | clearing => exact absurd h Bool.false_ne_true
    | _ => exact ⟨Bool.false_ne_true, Bool.false_ne_true⟩

/-- In a run in order, when no call is in progress, each text that a notification brought is handed
over once, has given way to a later one or is still queued, and the flag tells of the queue. -/
theorem notices_told (hm : Meets (step env) (fun s a => inOrder env s a = true) {} as)
    (hx : exec (step env) {} as = some (t, es)) (hrest : t.AtRest) :
    (∀ i key text pc, t.tasks[i]? = some (.notify key text pc) →
      stillQueued t key ⟨i, text⟩ + handed es key ⟨i, text⟩ + givenWay es key ⟨i, text⟩ = 1) ∧
    ∀ session, t.pending session = true ↔ ∃ board, (t.notices.lookup (board, session)).isSome := by
  obtain ⟨hacc, hann⟩ := accounted_and_announced hm hx
  constructor
  · intro i key text pc hi
    have hcarries : t.tasks.countP (·.carries key ⟨i, text⟩) = 0 :=
      List.countP_eq_zero.2 fun task htask => not_carries_of_finished (hrest task htask) key _
    have hdone : pc.waiting = false := by
      have hfin := hrest _ (List.mem_of_getElem? hi)
      cases pc with
      | done => rfl
      | _ => exact absurd hfin Bool.false_ne_true
    have hcall := hacc.call i key text pc.waiting (caller_of hi)
    rw [places, hcarries, hdone, Bool.toNat_false] at hcall
    omega
  · intro session
    have hf : t.flaggers session = 0 :=
      List.countP_eq_zero.2 fun task htask => (writes_of_finished (hrest task htask) session).1
    have hc : t.clearers session = 0 :=
      List.countP_eq_zero.2 fun task htask => (writes_of_finished (hrest task htask) session).2
    have hq : t.queued session = true ↔ ∃ board, (t.notices.lookup (board, session)).isSome := by
      rw [queued_iff]
      constructor
      · rintro ⟨⟨board, _⟩, hkey, rfl⟩
        exact ⟨board, AList.lookup_isSome.2 hkey⟩
      · rintro ⟨board, hsome⟩
        exact ⟨(board, session), AList.lookup_isSome.1 hsome, rfl⟩
    rw [← hq]
    obtain ⟨hset, hclear⟩ := hann session
    rw [hc] at hset
    rw [hf] at hclear
    constructor
    · exact fun hp => (hset hp).resolve_right (Nat.lt_irrefl 0)
    · intro hqueued
      by_contra hp
      rw [Bool.not_eq_true] at hp
      exact absurd (((hclear hp).resolve_right (Nat.lt_irrefl 0)).symm.trans hqueued) Bool.false_ne_true

/-- One conductor with one board. -/
def oneBoard : Env := ⟨fun session => session = 1, fun board => board = "s1"⟩

/-- A call of `notifyBoardSession`, from its beginning to its end. -/
def notifyCall (i : ℕ) (text : String) : List Action := [.notify ("s1", 1) text, .go i, .go i, .go i]

/-- A flush from its beginning to its end, when the conductor is idle. -/
def flushCall (i : ℕ) : List Action := [.tick, .collect i [("s1", 1)], .look i true, .go i, .go i, .go i]

theorem two_notices_told :
    ∃ t es, exec (step oneBoard) {} (notifyCall 0 "one" ++ notifyCall 1 "two" ++ flushCall 2) = some (t, es) ∧
      (stillQueued t ("s1", 1) ⟨0, "one"⟩ + handed es ("s1", 1) ⟨0, "one"⟩ +
        givenWay es ("s1", 1) ⟨0, "one"⟩ = 1) ∧
      (t.pending 1 = true ↔ ∃ board, (t.notices.lookup (board, 1)).isSome) := by
  obtain ⟨t, es, hx⟩ : ∃ t es,
      exec (step oneBoard) {} (notifyCall 0 "one" ++ notifyCall 1 "two" ++ flushCall 2) = some (t, es) :=
    ⟨_, _, rfl⟩
  have hm : Meets (step oneBoard) (fun s a => inOrder oneBoard s a = true) {}
      (notifyCall 0 "one" ++ notifyCall 1 "two" ++ flushCall 2) := by decide +kernel
  have htold := notices_told hm hx (by cases hx; decide +kernel)
  exact ⟨t, es, hx, htold.1 0 ("s1", 1) "one" .done (by cases hx; decide +kernel), htold.2 1⟩

/-- A text is queued after the flush has taken the one before and before it clears the flag: the text
waits, and no flag tells of it. -/
theorem flag_cleared_over_notice :
    ∃ t es, exec (step oneBoard) {}
      (notifyCall 0 "one" ++ [.tick, .collect 1 [("s1", 1)], .look 1 true, .go 1] ++
        notifyCall 2 "two" ++ [.go 1, .go 1]) = some (t, es) ∧
      t.AtRest ∧ t.pending 1 = false ∧ t.notices.lookup ("s1", 1) = some ⟨2, "two"⟩ := by
  refine ⟨_, _, rfl, ?_, ?_, ?_⟩ <;> decide +kernel

end ManyAiCli.Hub.BoardNotices
