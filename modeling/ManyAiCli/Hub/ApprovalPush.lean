import ManyAiCli.Hub.ApprovalAnswers

/-! The push notifications for approvals. A prompt that is found in a session is broadcast,
and a job of its own then sends it to all subscribers, one after the other, until its
deadline. A signature that was pushed within the last hour is not pushed again, whatever
session it was pushed for. -/

namespace ManyAiCli.Hub.ApprovalPush

open Runs
open Approvals.State (detection markConsumed)

abbrev Endpoint := String

/-- How long `pruneSentLocked` keeps a signature, in milliseconds. -/
def sentTTL : ℕ := 3600000

inductive Outcome
  | accepted
  | gone
  | failed
  | deadline
  deriving DecidableEq, Repr

/-- Where a job is: the approval is found; it is broadcast and `notifyApprovalPush` is next;
`sendApproval` is next; it is in its loop; it is behind the mark; it has returned. -/
inductive Phase
  | detected
  | broadcast
  | notifying
  | sending (subscriptions expired : List Endpoint) (sentOK : ℕ) (ctxDone : Bool)
  | marked (expired : List Endpoint)
  | returned
  deriving DecidableEq, Repr

/-- From `got` on, a job has what became of it: the subscribers that accepted its request,
those that are registered since the broadcast, when it was pushed, whether its prompt was
answered since, and whether it ended early with an excuse. -/
structure Job where
  session : ℕ
  sig : List Char
  phase : Phase
  got : List Endpoint
  throughout : List Endpoint
  pushedAt : Option ℕ
  answered : Bool
  excused : Bool
  deriving DecidableEq, Repr

def Job.new (session : ℕ) (sig : List Char) : Job := ⟨session, sig, .detected, [], [], none, false, false⟩

/-- No request of the job is still to come. -/
def Job.finished (job : Job) : Bool :=
  match job.phase with
  | .marked _ | .returned => true
  | _ => false

/-- `refused` has the endpoints that did not accept a request. -/
structure State where
  now : ℕ
  sessions : ℕ → Option Approvals.Session
  subscriptions : List Endpoint
  sent : List Char → Option ℕ
  jobs : List Job
  refused : List Endpoint

inductive JobAction
  | autoApprove
  | broadcast
  | notify
  | begin
  | send (outcome : Outcome)
  | ctxDone
  | abandon
  | mark
  | removeExpired
  deriving DecidableEq, Repr

/-- `other` is any other change of a session, also its start or its end. -/
inductive Action
  | tick (time : ℕ)
  | subscribe (endpoint : Endpoint)
  | unsubscribe (endpoint : Endpoint)
  | other (session : ℕ) (ses : Option Approvals.Session)
  | answer (session : ℕ) (sig : List Char)
  | detect (session : ℕ) (approval : Option NativeApproval)
  | job (j : ℕ) (a : JobAction)

namespace State

variable (vapidKeys : Bool) (s : State)

def setJob (j : ℕ) (job : Job) : State := { s with jobs := s.jobs.set j job }

/-- An endpoint has one subscription. -/
def upsertSubscription (endpoint : Endpoint) : State :=
  if endpoint ∈ s.subscriptions then s else { s with subscriptions := s.subscriptions ++ [endpoint] }

def removeSubscriptions (gone : List Endpoint) : State :=
  { s with
    subscriptions := s.subscriptions.filter (· ∉ gone)
    jobs := s.jobs.map fun job => { job with throughout := job.throughout.filter (· ∉ gone) } }

def pruneSentLocked : State :=
  { s with sent := fun sig => (s.sent sig).filter fun ts => s.now - ts ≤ sentTTL }

/-- An earlier occasion of the session and signature was pushed within the hour, and the
prompt was not answered since. -/
def excuse (j : ℕ) (job : Job) : Bool :=
  (s.jobs.take j).any fun earlier => earlier.session = job.session && earlier.sig = job.sig &&
    !earlier.answered && earlier.pushedAt.any fun pushedAt => s.now - pushedAt ≤ sentTTL

/-- Job `j` returns before its last subscriber. -/
def giveUp (j : ℕ) (job : Job) : State :=
  s.setJob j { job with phase := .returned, excused := s.excuse j job }

def answer (session : ℕ) (sig : List Char) : State :=
  { s with
    sessions := Function.update s.sessions session ((s.sessions session).map (markConsumed s.now sig))
    jobs := s.jobs.map fun job =>
      if job.session = session ∧ job.sig = sig then { job with answered := true } else job }

def handleNativeApprovalDetection (session : ℕ) (approval : Option NativeApproval) : State :=
  match s.sessions session with
  | none => s
  | some ses =>
    let t := { s with sessions := Function.update s.sessions session (some (detection s.now approval ses).1) }
    match approval with
    | some approval =>
      if (detection s.now (some approval) ses).2 then { t with jobs := t.jobs ++ [.new session approval.sig] }
      else t
    | none => t

/-- `sendApproval` as far as its loop. -/
def beginSend (j : ℕ) (job : Job) : State :=
  let s := s.pruneSentLocked
  if (s.sent job.sig).isSome then s.giveUp j job
  else if s.subscriptions = [] ∨ vapidKeys = false then s.giveUp j job
  else s.setJob j { job with phase := .sending s.subscriptions [] 0 false }

/-- The request to the next subscriber. -/
def send (j : ℕ) (job : Job) (endpoint : Endpoint) (rest expired : List Endpoint) (sentOK : ℕ) : Outcome →
    State
  | .accepted =>
    s.setJob j { job with phase := .sending rest expired (sentOK + 1) false, got := job.got ++ [endpoint] }
  | .gone =>
    { s.setJob j { job with phase := .sending rest (expired ++ [endpoint]) sentOK false } with
      refused := endpoint :: s.refused }
  | .failed =>
    { s.setJob j { job with phase := .sending rest expired sentOK false } with refused := endpoint ::
      s.refused }
  | .deadline =>
    { s.setJob j { job with phase := .sending rest expired sentOK true } with refused := endpoint ::
      s.refused }

/-- The end of the loop. -/
def mark (j : ℕ) (job : Job) (expired : List Endpoint) (sentOK : ℕ) : State :=
  if 0 < sentOK then
    { s.setJob j { job with phase := .marked expired, pushedAt := some s.now } with
      sent := Function.update s.sent job.sig (some s.now) }
  else s.setJob j { job with phase := .marked expired }

/-- The next step of a job. -/
def jobStep (j : ℕ) (job : Job) : JobAction → Option State
  | .autoApprove =>
    match job.phase with
    | .detected => some (s.setJob j { job with phase := .returned })
    | _ => none
  | .broadcast =>
    match job.phase with
    | .detected => some (s.setJob j { job with phase := .broadcast, throughout := s.subscriptions })
    | _ => none
  | .notify =>
    match job.phase with
    | .broadcast =>
      if (s.sessions job.session).isSome then some (s.setJob j { job with phase := .notifying })
      else some (s.giveUp j job)
    | _ => none
  | .begin =>
    match job.phase with
    | .notifying => some (s.beginSend vapidKeys j job)
    | _ => none
  | .send outcome =>
    match job.phase with
    | .sending (endpoint :: rest) expired sentOK false => some
        (s.send j job endpoint rest expired sentOK outcome)
    | _ => none
  | .ctxDone =>
    match job.phase with
    | .sending rest expired sentOK _ => some
        (s.setJob j { job with phase := .sending rest expired sentOK true })
    | _ => none
  | .abandon =>
    match job.phase with
    | .sending (_ :: _) _ _ true => some (s.giveUp j job)
    | _ => none
  | .mark =>
    match job.phase with
    | .sending [] expired sentOK _ => some (s.mark j job expired sentOK)
    | _ => none
  | .removeExpired =>
    match job.phase with
    | .marked expired => some ((s.setJob j { job with phase := .returned }).removeSubscriptions expired)
    | _ => none

def move : Action → Option State
  | .tick time => some { s with now := s.now + time }
  | .subscribe endpoint => some (s.upsertSubscription endpoint)
  | .unsubscribe endpoint => some (s.removeSubscriptions [endpoint])
  | .other session ses => some { s with sessions := Function.update s.sessions session ses }
  | .answer session sig => some (s.answer session sig)
  | .detect session approval => some (s.handleNativeApprovalDetection session approval)
  | .job j a => (s.jobs[j]?).bind fun job => s.jobStep vapidKeys j job a

def step (a : Action) : Option (State × List Empty) := (s.move vapidKeys a).map fun t => (t, [])

end State

/-! ### One notification for each occasion -/

/-- The job sends no subscriber a second notification, and none of those that are
registered throughout and accept all requests is without one at its end, unless there is
an excuse. -/
def Job.Pushed (refused : List Endpoint) (job : Job) : Prop :=
  (∀ endpoint, job.got.count endpoint ≤ 1) ∧
    (job.finished = true → job.excused = true ∨
      ∀ endpoint ∈ job.throughout, endpoint ∉ refused → job.got.count endpoint = 1)

namespace State

variable (vapidKeys : Bool)

/-- All who are to get the notification have it. -/
def Served (s : State) (job : Job) : Prop := ∀ endpoint ∈ job.throughout, endpoint ∉ s.refused → endpoint ∈
    job.got

/-- The job returns here before its last subscriber: its session is gone, its signature was
pushed within the hour, there are no keys or no subscribers, or the deadline has come. -/
def endsEarly (s : State) (job : Job) : JobAction → Bool
  | .notify => (s.sessions job.session).isNone
  | .begin => (s.pruneSentLocked.sent job.sig).isSome || s.subscriptions = [] || !vapidKeys
  | .abandon => true
  | _ => false

/-- A job that ends early has an excuse or has served all. -/
def Sends (s : State) : Action → Prop
  | .job j a => ∀ job ∈ s.jobs[j]?, s.endsEarly vapidKeys job a = true → s.excuse j job = true ∨ s.Served job
  | _ => True

instance (s : State) (job : Job) : Decidable (s.Served job) :=
  inferInstanceAs (Decidable (∀ endpoint ∈ job.throughout, _ → _))

instance (s : State) : (a : Action) → Decidable (s.Sends vapidKeys a)
  | .job j _ => inferInstanceAs (Decidable (∀ job ∈ s.jobs[j]?, _))
  | .tick _ | .subscribe _ | .unsubscribe _ | .other .. | .answer .. | .detect .. => .isTrue trivial

end State

/-! ### The invariant -/

/-- Who has a notification and who is still to get one. -/
def Job.Inv (subscriptions refused : List Endpoint) (job : Job) : Prop :=
  match job.phase with
  | .detected => job.throughout = [] ∧ job.got = []
  | .broadcast | .notifying => job.throughout ⊆ subscriptions ∧ job.got = []
  | .sending rest _ _ _ => job.got.Nodup ∧ rest.Nodup ∧ rest.Disjoint job.got ∧
      ∀ endpoint ∈ job.throughout, endpoint ∉ refused → endpoint ∈ job.got ∨ endpoint ∈ rest
  | .marked _ | .returned => job.got.Nodup ∧ (job.excused = true ∨
      ∀ endpoint ∈ job.throughout, endpoint ∉ refused → endpoint ∈ job.got)

structure State.Inv (s : State) : Prop where
  nodup : s.subscriptions.Nodup
  jobs : ∀ job ∈ s.jobs, job.Inv s.subscriptions s.refused

namespace Job.Inv

variable {job : Job} {subscriptions subscriptions' refused refused' gone : List Endpoint}

theorem nodup (h : job.Inv subscriptions refused) : job.got.Nodup := by
  unfold Job.Inv at h
  split at h
  · rw [h.2]
    exact List.nodup_nil
  · rw [h.2]
    exact List.nodup_nil
  · rw [h.2]
    exact List.nodup_nil
  · exact h.1
  · exact h.1
  · exact h.1

/-- All who are to get the notification have it, or there is an excuse. -/
theorem served_of_finished (h : job.Inv subscriptions refused) (hfin : job.finished = true) :
    job.excused = true ∨ ∀ endpoint ∈ job.throughout, endpoint ∉ refused → endpoint ∈ job.got := by
  unfold Job.Inv at h
  unfold Job.finished at hfin
  split at hfin
  · rename_i hp
    rw [hp] at h
    exact h.2
  · rename_i hp
    rw [hp] at h
    exact h.2
  · cases hfin

theorem pushed (h : job.Inv subscriptions refused) : job.Pushed refused := by
  refine ⟨fun endpoint => List.nodup_iff_count_le_one.1 h.nodup endpoint, fun hfin => ?_⟩
  exact (h.served_of_finished hfin).imp id fun hall endpoint he hr =>
    List.count_eq_one_of_mem h.nodup (hall endpoint he hr)

theorem mono (h : job.Inv subscriptions refused) (hs : subscriptions ⊆ subscriptions')
    (hr : refused ⊆ refused') : job.Inv subscriptions' refused' := by
  have hne : ∀ {endpoint}, endpoint ∉ refused' → endpoint ∉ refused := fun hne hmem => hne (hr hmem)
  unfold Job.Inv at h ⊢
  split at h
  · exact h
  · exact ⟨List.Subset.trans h.1 hs, h.2⟩
  · exact ⟨List.Subset.trans h.1 hs, h.2⟩
  · exact ⟨h.1, h.2.1, h.2.2.1, fun endpoint he hn => h.2.2.2 endpoint he (hne hn)⟩
  · exact ⟨h.1, h.2.imp id fun hall endpoint he hn => hall endpoint he (hne hn)⟩
  · exact ⟨h.1, h.2.imp id fun hall endpoint he hn => hall endpoint he (hne hn)⟩

/-- Who is not registered any more need not be notified. -/
theorem remove (h : job.Inv subscriptions refused) : Job.Inv (subscriptions.filter (· ∉ gone)) refused
    { job with throughout := job.throughout.filter (· ∉ gone) } := by
  have hold : ∀ {endpoint}, endpoint ∈ job.throughout.filter (· ∉ gone) → endpoint ∈ job.throughout :=
    List.mem_of_mem_filter
  unfold Job.Inv at h ⊢
  dsimp only
  split at h
  · exact ⟨by rw [h.1, List.filter_nil], h.2⟩
  · exact ⟨List.filter_subset _ h.1, h.2⟩
  · exact ⟨List.filter_subset _ h.1, h.2⟩
  · exact ⟨h.1, h.2.1, h.2.2.1, fun endpoint he => h.2.2.2 endpoint (hold he)⟩
  · exact ⟨h.1, h.2.imp id fun hall endpoint he => hall endpoint (hold he)⟩
  · exact ⟨h.1, h.2.imp id fun hall endpoint he => hall endpoint (hold he)⟩

end Job.Inv

namespace State

variable {vapidKeys : Bool} {s t : State} {j : ℕ} {job new : Job} {rest expired : List Endpoint}

namespace Inv

theorem setJob (h : s.Inv) (hnew : new.Inv s.subscriptions s.refused) : (s.setJob j new).Inv := by
  refine ⟨h.nodup, fun job hjob => ?_⟩
  rcases List.mem_or_eq_of_mem_set hjob with hold | rfl
  · exact h.jobs job hold
  · exact hnew

theorem refuse (h : s.Inv) (endpoint : Endpoint) : Inv { s with refused := endpoint :: s.refused } :=
  ⟨h.nodup, fun job hjob => (h.jobs job hjob).mono (List.Subset.refl _) (List.subset_cons_self _ _)⟩

theorem upsertSubscription (h : s.Inv) (endpoint : Endpoint) : (s.upsertSubscription endpoint).Inv := by
  unfold State.upsertSubscription
  split_ifs with hmem
  · exact h
  · refine ⟨?_, fun job hjob => (h.jobs job hjob).mono (List.subset_append_left _ _) (List.Subset.refl _)⟩
    rw [List.nodup_append]
    refine ⟨h.nodup, List.nodup_singleton _, fun a ha b hb hab => ?_⟩
    rw [List.mem_singleton] at hb
    exact hmem (hb ▸ hab ▸ ha)

theorem removeSubscriptions (h : s.Inv) (gone : List Endpoint) : (s.removeSubscriptions gone).Inv := by
  refine ⟨h.nodup.filter _, fun job hjob => ?_⟩
  obtain ⟨old, hold, rfl⟩ := List.mem_map.1 hjob
  exact (h.jobs old hold).remove

theorem answer (h : s.Inv) (session : ℕ) (sig : List Char) : (s.answer session sig).Inv := by
  refine ⟨h.nodup, fun job hjob => ?_⟩
  obtain ⟨old, hold, rfl⟩ := List.mem_map.1 hjob
  split_ifs
  · exact h.jobs old hold
  · exact h.jobs old hold

theorem handleNativeApprovalDetection (h : s.Inv) (session : ℕ) (approval : Option NativeApproval) :
    (s.handleNativeApprovalDetection session approval).Inv := by
  unfold State.handleNativeApprovalDetection
  split
  · exact h
  · split
    · split_ifs
      · refine ⟨h.nodup, fun job hjob => ?_⟩
        rcases List.mem_append.1 hjob with hold | hnew
        · exact h.jobs job hold
        · obtain rfl := List.mem_singleton.1 hnew
          exact ⟨rfl, rfl⟩
      · exact ⟨h.nodup, h.jobs⟩
    · exact ⟨h.nodup, h.jobs⟩

theorem giveUp (h : s.Inv) (hj : s.jobs[j]? = some job) (hok : s.excuse j job = true ∨ s.Served job) :
    (s.giveUp j job).Inv :=
  h.setJob ⟨(h.jobs job (List.mem_of_getElem? hj)).nodup, hok⟩

/-- The loop begins with all who are registered. -/
theorem beginSend (h : s.Inv) (hj : s.jobs[j]? = some job) (hp : job.phase = .notifying)
    (hok : s.endsEarly vapidKeys job .begin = true → s.excuse j job = true ∨ s.Served job) :
    (s.beginSend vapidKeys j job).Inv := by
  have hpruned : s.pruneSentLocked.Inv := ⟨h.nodup, h.jobs⟩
  have hjob := h.jobs job (List.mem_of_getElem? hj)
  unfold Job.Inv at hjob
  rw [hp] at hjob
  unfold State.beginSend
  dsimp only
  split_ifs with hsent hnobody
  · exact hpruned.giveUp hj (hok (by simp [endsEarly, hsent]))
  · refine hpruned.giveUp hj (hok ?_)
    rcases hnobody with hsubs | hkeys
    · have hnil : s.subscriptions = [] := hsubs
      simp [endsEarly, hnil]
    · simp [endsEarly, hkeys]
  · refine hpruned.setJob ⟨?_, h.nodup, ?_, fun endpoint he _ => .inr (hjob.1 he)⟩
    · rw [hjob.2]
      exact List.nodup_nil
    · rw [hjob.2]
      exact List.disjoint_nil_right _

theorem send (h : s.Inv) (hj : s.jobs[j]? = some job) {endpoint : Endpoint} {sentOK : ℕ} {ctxDone : Bool}
    (hp : job.phase = .sending (endpoint :: rest) expired sentOK ctxDone) (outcome : Outcome) :
    (s.send j job endpoint rest expired sentOK outcome).Inv := by
  have hjob := h.jobs job (List.mem_of_getElem? hj)
  unfold Job.Inv at hjob
  rw [hp] at hjob
  obtain ⟨hgot, hrest, hdisj, hall⟩ := hjob
  rw [List.nodup_cons] at hrest
  rw [List.disjoint_cons_left] at hdisj
  -- an endpoint that refuses is not waited for
  have hrefused : ∀ phase ok expired', phase = Phase.sending rest expired' sentOK ok →
      Job.Inv s.subscriptions (endpoint :: s.refused) { job with phase := phase } := by
    rintro _ ok expired' rfl
    refine ⟨hgot, hrest.2, hdisj.2, fun other ho hne => ?_⟩
    rw [List.mem_cons, not_or] at hne
    exact (hall other ho hne.2).imp id fun hmem => (List.mem_cons.1 hmem).resolve_left hne.1
  cases outcome with
  | accepted =>
    refine h.setJob ⟨?_, hrest.2, ?_, fun other ho hne => ?_⟩
    · rw [List.nodup_append]
      refine ⟨hgot, List.nodup_singleton _, fun a ha b hb hab => ?_⟩
      rw [List.mem_singleton] at hb
      exact hdisj.1 (hb ▸ hab ▸ ha)
    · rw [List.disjoint_append_right, List.disjoint_singleton]
      exact ⟨hdisj.2, hrest.1⟩
    · rw [List.mem_append, List.mem_singleton]
      rcases hall other ho hne with hmem | hmem
      · exact .inl (.inl hmem)
      · exact (List.mem_cons.1 hmem).imp .inr id
  | gone => exact (h.refuse endpoint).setJob (hrefused _ _ _ rfl)
  | failed => exact (h.refuse endpoint).setJob (hrefused _ _ _ rfl)
  | deadline => exact (h.refuse endpoint).setJob (hrefused _ _ _ rfl)

theorem mark (h : s.Inv) (hj : s.jobs[j]? = some job) {sentOK : ℕ} {ctxDone : Bool}
    (hp : job.phase = .sending [] expired sentOK ctxDone) : (s.mark j job expired sentOK).Inv := by
  have hjob := h.jobs job (List.mem_of_getElem? hj)
  unfold Job.Inv at hjob
  rw [hp] at hjob
  obtain ⟨hgot, -, -, hall⟩ := hjob
  have hserved : ∀ endpoint ∈ job.throughout, endpoint ∉ s.refused → endpoint ∈ job.got :=
    fun endpoint he hne => (hall endpoint he hne).resolve_right List.not_mem_nil
  unfold State.mark
  split_ifs
  · have hset : (s.setJob j { job with phase := .marked expired, pushedAt := some s.now }).Inv :=
      h.setJob ⟨hgot, .inr hserved⟩
    exact ⟨hset.nodup, hset.jobs⟩
  · exact h.setJob ⟨hgot, .inr hserved⟩

/-- A job goes on, and where it ends early it is allowed to. -/
theorem jobStep (h : s.Inv) (hj : s.jobs[j]? = some job) {a : JobAction}
    (hok : s.endsEarly vapidKeys job a = true → s.excuse j job = true ∨ s.Served job)
    (hs : s.jobStep vapidKeys j job a = some t) : t.Inv := by
  have hjob := h.jobs job (List.mem_of_getElem? hj)
  unfold Job.Inv at hjob
  cases a with
  | autoApprove =>
    simp only [State.jobStep] at hs
    split at hs
    · rename_i hp
      rw [hp] at hjob
      obtain rfl := Option.some.inj hs
      refine h.setJob ⟨?_, .inr ?_⟩
      · rw [hjob.2]
        exact List.nodup_nil
      · rw [hjob.1]
        exact fun _ hmem => absurd hmem List.not_mem_nil
    · cases hs
  | broadcast =>
    simp only [State.jobStep] at hs
    split at hs
    · rename_i hp
      rw [hp] at hjob
      obtain rfl := Option.some.inj hs
      exact h.setJob ⟨List.Subset.refl _, hjob.2⟩
    · cases hs
  | notify =>
    simp only [State.jobStep] at hs
    split at hs
    · rename_i hp
      rw [hp] at hjob
      split_ifs at hs with hses
      · obtain rfl := Option.some.inj hs
        exact h.setJob hjob
      · obtain rfl := Option.some.inj hs
        exact h.giveUp hj (hok (by simpa [endsEarly] using hses))
    · cases hs
  | begin =>
    simp only [State.jobStep] at hs
    split at hs
    · rename_i hp
      obtain rfl := Option.some.inj hs
      exact h.beginSend hj hp hok
    · cases hs
  | send outcome =>
    simp only [State.jobStep] at hs
    split at hs
    · rename_i hp
      obtain rfl := Option.some.inj hs
      exact h.send hj hp outcome
    · cases hs
  | ctxDone =>
    simp only [State.jobStep] at hs
    split at hs
    · rename_i hp
      rw [hp] at hjob
      obtain rfl := Option.some.inj hs
      exact h.setJob hjob
    · cases hs
  | abandon =>
    simp only [State.jobStep] at hs
    split at hs
    · obtain rfl := Option.some.inj hs
      exact h.giveUp hj (hok rfl)
    · cases hs
  | mark =>
    simp only [State.jobStep] at hs
    split at hs
    · rename_i hp
      obtain rfl := Option.some.inj hs
      exact h.mark hj hp
    · cases hs
  | removeExpired =>
    simp only [State.jobStep] at hs
    split at hs
    · rename_i hp
      rw [hp] at hjob
      obtain rfl := Option.some.inj hs
      have hset : (s.setJob j { job with phase := .returned }).Inv := h.setJob ⟨hjob.1, hjob.2⟩
      exact hset.removeSubscriptions _
    · cases hs

theorem step (h : s.Inv) {a : Action} {es : List Empty} (hok : s.Sends vapidKeys a)
    (hs : s.step vapidKeys a = some (t, es)) : t.Inv := by
  obtain ⟨u, hm, heq⟩ := Option.map_eq_some_iff.1 hs
  obtain rfl : u = t := (Prod.mk.inj heq).1
  cases a with
  | tick time =>
    obtain rfl := Option.some.inj hm
    exact ⟨h.nodup, h.jobs⟩
  | subscribe endpoint =>
    obtain rfl := Option.some.inj hm
    exact h.upsertSubscription endpoint
  | unsubscribe endpoint =>
    obtain rfl := Option.some.inj hm
    exact h.removeSubscriptions _
  | other session ses =>
    obtain rfl := Option.some.inj hm
    exact ⟨h.nodup, h.jobs⟩
  | answer session sig =>
    obtain rfl := Option.some.inj hm
    exact h.answer session sig
  | detect session approval =>
    obtain rfl := Option.some.inj hm
    exact h.handleNativeApprovalDetection session approval
  | job j a =>
    obtain ⟨job, hj, hjs⟩ := Option.bind_eq_some_iff.1 hm
    exact h.jobStep hj (hok job hj) hjs

end Inv

/-- A job that has not returned can go on. -/
theorem exists_jobStep (hp : job.phase ≠ .returned) : ∃ a, (s.jobStep vapidKeys j job a).isSome = true := by
  cases hphase : job.phase with
  | detected => exact ⟨.broadcast, by simp [jobStep, hphase]⟩
  | broadcast =>
    refine ⟨.notify, ?_⟩
    simp only [jobStep, hphase]
    split_ifs <;> rfl
  | notifying => exact ⟨.begin, by simp [jobStep, hphase]⟩
  | sending subscriptions expired sentOK ctxDone =>
    cases subscriptions with
    | nil => exact ⟨.mark, by simp [jobStep, hphase]⟩
    | cons endpoint rest =>
      cases ctxDone with
      | false => exact ⟨.send .accepted, by simp [jobStep, hphase]⟩
      | true => exact ⟨.abandon, by simp [jobStep, hphase]⟩
  | marked expired => exact ⟨.removeExpired, by simp [jobStep, hphase]⟩
  | returned => exact absurd hphase hp

/-- At the start of the Hub. The subscriptions and sessions that it loads come with steps of
their own. -/
def initial : State := ⟨0, fun _ => none, [], fun _ => none, [], []⟩

theorem inv_initial : initial.Inv := ⟨List.nodup_nil, fun _ h => absurd h List.not_mem_nil⟩

end State

/-! ### All runs -/

/-- A prompt on the screen. -/
def prompt (sig : String) : NativeApproval := ⟨sig.toList, "tool", [], [], [], ⟨[], .low, []⟩⟩

end ManyAiCli.Hub.ApprovalPush
