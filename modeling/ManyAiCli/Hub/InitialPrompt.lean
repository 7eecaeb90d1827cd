import ManyAiCli.Hub.InputOrder
import Mathlib.Data.List.Infix

/-! The initial prompt of an orchestration session. Its injection goes past the
gate, but not past the queue: text queued before an attempt sends that attempt to
the end of the queue. While every attempt finds an empty queue, the attempts are
sent first and what was typed meanwhile follows in order. -/

namespace ManyAiCli.Hub

open Runs

/-- Texts of the calls that respect the gate. -/
def userTexts (es : List InputEvent) : List Input :=
  es.filterMap fun | .accepted false text => some text | _ => none

/-- `text` comes first: what the wrapper got is `text` a number of times, then
what users typed in order. After an echo was seen only users are heard, and once
all calls are through, nobody's text is missing. -/
def PromptFirst (text : Input) (es : List InputEvent) (s : InputState) : Prop :=
  ∃ k u, k ≤ orchestrationInjectMaxAttempts ∧
    ((sentTexts es).flatten <+: (List.replicate k text).flatten ∨
      1 ≤ k ∧ (sentTexts es).flatten = (List.replicate k text).flatten ++ u) ∧
    u <+: (userTexts es).flatten ∧
    (∀ h h', es = h ++ .observed :: h' → (sentTexts h).flatten = (List.replicate k text).flatten) ∧
    (s.quiet = true →
      1 ≤ k ∧ (sentTexts es).flatten = (List.replicate k text).flatten ++ (userTexts es).flatten)

/-- A gated session at the start of its injection. -/
def orchestrated (prompt : Input) (now : ℕ) : InputState :=
  (registered true now).start (.inject none (initialPromptText prompt) 1) .ready

/-- The wrapper stays and its sends succeed, and users are decided upon while the
gate is closed, or later, when it has been cleared. -/
def gatedStep (s : InputState) (a : InputAction) : Bool :=
  match a with
  | .inject _ | .flush | .disconnect _ | .reattach | .dismiss => false
  | .send _ ok => ok
  | .enter j =>
    match s.jobs[j]? with
    | some ⟨.submit .., _⟩ =>
      sessionInjectGated (s.object 0) s.now || !(s.object 0).initialInjectPending
    | _ => true
  | _ => true

/-- An attempt finds the queue empty, and no user finds it full. -/
def promptAlone (s : InputState) (a : InputAction) : Bool :=
  match a with
  | .enter j =>
    match s.jobs[j]? with
    | some ⟨.inject .., _⟩ => s.pendingInput = []
    | some ⟨.submit .., _⟩ => s.pendingInput.length < maxPendingInputPerSession
    | _ => true
  | _ => true

/-! ### The invariant -/

/-- A text accepted from a user that is neither queued nor sent yet. -/
def Job.undecided (job : Job) : List Input :=
  match job with
  | ⟨.submit _ text, .locked _⟩ => [text]
  | _ => []

/-- The call has a wrapper to send to and nothing to put back. -/
def Job.connected (job : Job) : Bool :=
  (match job.phase with
    | .storing .. => false
    | .sending _ wc _ _ => wc.isSome
    | _ => true) &&
  match job.call with
  | .submit wc _ => wc.isSome
  | .inject wc _ _ => wc.isSome || job.phase = .ready || job.phase = .clearing
  | .flush => true

/-- Attempts a phase of attempt `n` has decided upon. -/
def Phase.decided (p : Phase) (n : ℕ) : ℕ :=
  match p with
  | .ready | .called | .waiting _ | .locked _ => n - 1
  | _ => n

def Phase.entering (p : Phase) : Bool := match p with | .locked _ => true | _ => false

/-- How far the injection, job 0, has come after `k` attempts. -/
inductive PromptStage (text : Input) (es : List InputEvent) (s : InputState) (k : ℕ) : Prop
  /-- Nobody but the injection sends; users wait in the queue. -/
  | gated {wc : Option ℕ} {n : ℕ} {p : Phase} (job : s.jobs[0]? = some ⟨.inject wc text n, p⟩)
      (going : p ≠ .done) (pos : 1 ≤ n) (bound : n ≤ orchestrationInjectMaxAttempts)
      (count : p ≠ .clearing → k = p.decided n ∧ .observed ∉ es) (some_sent : p = .clearing → 1 ≤ k)
      (gate : (s.object 0).initialInjectPending = true)
      (waiting : ∀ i x, i ≠ 0 → s.jobs[i]? = some x → x.phase.busy = false)
      (users : userTexts es = s.pendingInput ++ s.jobs.flatMap Job.undecided)
      (accepted : acceptedTexts es = List.replicate k text ++ userTexts es ++
        if p.entering then [text] else [])
  /-- The gate is open; a queue waits for the flush. -/
  | cleared {p : Phase} (job : s.jobs[0]? = some ⟨.flush, p⟩) (some_sent : 1 ≤ k)
      (gate : (s.object 0).initialInjectPending = false)
      (queue : s.pendingInput ≠ [] → p = .called ∨ p = .waiting 0 ∨ p = .locked 0)
      (accepted : acceptedTexts es = List.replicate k text ++ userTexts es)
      (sent : (List.replicate k text).flatten <+: (sentTexts es).flatten)

structure PromptInv (text : Input) (es : List InputEvent) (s : InputState) : Prop where
  order : OrderInv 0 es s
  wrapper : s.wrapper = some 0
  one : s.objects.length = 1
  connected : ∀ job ∈ s.jobs, job.connected = true
  submits : ∀ (i : ℕ) (x : Job), i ≠ 0 → s.jobs[i]? = some x → ∃ wc t, x.call = .submit wc t
  kept : droppedItems es = []
  stage : ∃ k ≤ orchestrationInjectMaxAttempts, PromptStage text es s k ∧
    ∀ h h', es = h ++ .observed :: h' → (sentTexts h).flatten = (List.replicate k text).flatten

theorem userTexts_append (es es' : List InputEvent) :
    userTexts (es ++ es') = userTexts es ++ userTexts es' := List.filterMap_append

theorem sentTexts_append (es es' : List InputEvent) :
    sentTexts (es ++ es') = sentTexts es ++ sentTexts es' := List.filterMap_append

theorem droppedItems_append (es es' : List InputEvent) :
    droppedItems (es ++ es') = droppedItems es ++ droppedItems es' := List.flatMap_append

theorem undecided_carried {job : Job} (hs : (∃ wc t, job.call = .submit wc t) ∨ job.phase.holds = none)
    (hb : job.phase.busy = false) : job.carried = job.undecided.flatten := by
  rcases job with ⟨_ | _ | _, _ | _ | _ | _ | _ | _ | _ | _ | _⟩ <;>
    simp_all [Job.carried, Job.undecided, Phase.busy, Phase.holds, Call.text]

/-- With the lock free or with a user, the wrapper has got the attempts and
nothing else. -/
theorem sent_of_gated {text : Input} {es : List InputEvent} {s : InputState} {k : ℕ} {c : Call}
    {p : Phase} (hi : OrderInv 0 es s) (hk : droppedItems es = [])
    (hsub : ∀ (i : ℕ) (x : Job), i ≠ 0 → s.jobs[i]? = some x → ∃ wc t, x.call = .submit wc t)
    (job : s.jobs[0]? = some ⟨c, p⟩) (hp : p.holds = none)
    (waiting : ∀ i x, i ≠ 0 → s.jobs[i]? = some x → x.phase.busy = false)
    (users : userTexts es = s.pendingInput ++ s.jobs.flatMap Job.undecided)
    (accepted : acceptedTexts es = List.replicate k text ++ userTexts es) :
    (sentTexts es).flatten = (List.replicate k text).flatten := by
  have hhand : s.inHand = (s.jobs.flatMap Job.undecided).flatten := by
    rw [InputState.inHand, List.flatMap_def, List.flatMap_def, List.flatten_flatten, List.map_map]
    congr 1
    refine List.map_congr_left fun x hx => ?_
    obtain ⟨i, hx⟩ := List.mem_iff_getElem?.1 hx
    by_cases hi0 : i = 0
    · subst hi0
      obtain rfl : x = ⟨c, p⟩ := Option.some.inj (hx.symm.trans job)
      refine undecided_carried (.inr hp) ?_
      cases p <;> simp_all [Phase.busy, Phase.holds]
    · exact undecided_carried (.inl (hsub i x hi0 hx)) (waiting i x hi0 hx)
  have hlaw := hi.law
  rw [accepted, users, ledger_of_no_overflow hk, hhand, List.flatten_append, List.flatten_append,
    ← List.append_assoc] at hlaw
  exact (List.append_cancel_right (List.append_cancel_right hlaw)).symm

/-! ### Steps -/

theorem trimPending_of_le {q : List Input} (h : q.length ≤ maxPendingInputPerSession) :
    trimPending q = q ∧ overflow q = [] := by
  have : q.length - maxPendingInputPerSession = 0 := by omega
  simp [trimPending, overflow, this]

theorem getElem?_zero_set {jobs : List Job} {job : Job} {j : ℕ} (hj : j ≠ 0) :
    (jobs.set j job)[0]? = jobs[0]? := List.getElem?_set_ne hj

namespace InputState

variable {s s' : InputState} {j o : ℕ} {c : Call} {p : Phase} {a : InputAction} {es : List InputEvent}

/-- A send that succeeds takes a chunk. -/
theorem trySend_ok (wc : ℕ) (item : Input) (rest : List Input) (delayed : Bool) :
    ∃ p' chunk, s.trySend j o c (some wc) item rest delayed true = (s.setPhase j c p', [.sent chunk]) ∧
      (p' = c.after ∨ ∃ items d, p' = .sending o (some wc) items d) := by
  have hnext (chunk : Input) : ∃ p' chunk', (s.sendNext j o c (some wc) rest, [InputEvent.sent chunk]) =
      (s.setPhase j c p', [.sent chunk']) ∧
        (p' = c.after ∨ ∃ items d, p' = .sending o (some wc) items d) := by
    unfold sendNext
    split_ifs
    · exact ⟨_, _, rfl, .inl rfl⟩
    · exact ⟨_, _, rfl, .inr ⟨_, _, rfl⟩⟩
  simp only [trySend, if_true, reduceCtorEq, if_false]
  split_ifs
  · exact hnext _
  · exact hnext _
  · exact ⟨_, _, rfl, .inr ⟨_, _, rfl⟩⟩

end InputState

/-- What a step of a call has to keep besides the order of the text. -/
theorem PromptInv.jobStep {text : Input} {h es : List InputEvent} {s s' : InputState} {j : ℕ} {job' : Job}
    (hi : PromptInv text h s) (order : OrderInv 0 (h ++ es) s') (jobs : s'.jobs = s.jobs.set j job')
    (wrapper : s'.wrapper = s.wrapper) (one : s'.objects.length = s.objects.length)
    (connected : job'.connected = true) (submit : j ≠ 0 → ∃ wc t, job'.call = .submit wc t)
    (kept : droppedItems es = [])
    (stage : ∃ k ≤ orchestrationInjectMaxAttempts, PromptStage text (h ++ es) s' k ∧
      ∀ g g', h ++ es = g ++ .observed :: g' →
        (sentTexts g).flatten = (List.replicate k text).flatten) : PromptInv text (h ++ es) s' := by
  refine ⟨order, wrapper.trans hi.wrapper, one.trans hi.one, ?_, ?_, ?_, stage⟩
  · intro x hx
    rw [jobs] at hx
    rcases List.mem_or_eq_of_mem_set hx with hx | rfl
    · exact hi.connected x hx
    · exact connected
  · intro i x hi0 hx
    rw [jobs] at hx
    rcases getElem?_set_cases hx with ⟨rfl, rfl⟩ | ⟨-, hx⟩
    · exact submit hi0
    · exact hi.submits i x hi0 hx
  · rw [droppedItems_append, hi.kept, kept]
    rfl

/-- Events that are no echo leave the attempts before an echo as they are. -/
theorem seen_append {h es : List InputEvent} {t : Input} (hes : .observed ∉ es)
    (hseen : ∀ g g', h = g ++ .observed :: g' → (sentTexts g).flatten = t) (g g' : List InputEvent)
    (heq : h ++ es = g ++ .observed :: g') : (sentTexts g).flatten = t := by
  rcases List.append_eq_append_iff.1 heq with ⟨r, rfl, hr⟩ | ⟨r, rfl, hr⟩
  · exact absurd (hr ▸ List.mem_append_right _ List.mem_cons_self) hes
  · rcases r with _ | ⟨e, r⟩
    · exact absurd (by rw [← (List.nil_append _ ▸ hr : _ = es)]; exact List.mem_cons_self) hes
    · obtain ⟨rfl, -⟩ := List.cons.inj hr
      exact hseen g r rfl

/-- While a user has the lock or takes it, no other call has text to decide on. -/
theorem undecided_set {o : ℕ} {h : List InputEvent} {s : InputState} {j : ℕ} {job w : Job}
    (hi : OrderInv o h s) (hj : s.jobs[j]? = some job)
    (hl : job.phase.holds ≠ none ∨
      ∀ (i : ℕ) (x : Job), s.jobs[i]? = some x → x.phase.holds = none) :
    s.jobs.flatMap Job.undecided = job.undecided ∧
      (s.jobs.set j w).flatMap Job.undecided = w.undecided := by
  refine flatMap_set_of_others hj fun i x hx hne => ?_
  have hx' : x.phase.holds = none := by
    rcases hl with hl | hl
    · by_contra hxh
      exact hne (hi.exclusive i j x job hx hj hxh hl)
    · exact hl i x hx
  rcases x with ⟨_ | _ | _, _ | _ | _ | _ | _ | _ | _ | _ | _⟩ <;>
    simp_all [Job.undecided, Phase.holds]

theorem holds_none_of_free {o o' : ℕ} {h : List InputEvent} {s : InputState} (hi : OrderInv o h s)
    {j : ℕ} {c : Call} (hj : s.jobs[j]? = some ⟨c, .waiting o'⟩) (hfree : s.locked o' = false) (i : ℕ)
    (x : Job) (hx : s.jobs[i]? = some x) : x.phase.holds = none := by
  obtain rfl : o' = o := hi.object _ (List.mem_of_getElem? hj) o' rfl
  by_contra hxh
  obtain ⟨o'', ho''⟩ := Option.ne_none_iff_exists'.1 hxh
  obtain rfl : o'' = o' := hi.object x (List.mem_of_getElem? hx) o'' (by rw [holds_object hxh, ho''])
  exact InputState.holds_none_of_not_locked hfree (List.mem_of_getElem? hx) ho''

theorem entering_of_holds_none {p : Phase} (h : p.holds = none) : p.entering = false := by
  cases p <;> simp_all [Phase.holds, Phase.entering]

theorem waiting_set {jobs : List Job} {j : ℕ} {job' : Job}
    (hw : ∀ (i : ℕ) (x : Job), i ≠ 0 → jobs[i]? = some x → x.phase.busy = false)
    (hb : job'.phase.busy = false) (i : ℕ) (x : Job) (hi : i ≠ 0) (hx : (jobs.set j job')[i]? = some x) :
    x.phase.busy = false := by
  rcases getElem?_set_cases hx with ⟨-, rfl⟩ | ⟨-, hx⟩
  · exact hb
  · exact hw i x hi hx

/-- A step of a user's call. -/
theorem PromptInv.userStep {text t : Input} {h es : List InputEvent} {s s' : InputState} {j : ℕ}
    {wc : Option ℕ} {p : Phase} {a : InputAction} (hi : PromptInv text h s) (hj0 : j ≠ 0)
    (hj : s.jobs[j]? = some ⟨.submit wc t, p⟩) (hs : s.JobStep j (.submit wc t) p a s' es)
    (ha : a.job? = some j) (hg : gatedStep s a = true) (hp : promptAlone s a = true)
    (order : OrderInv 0 (h ++ es) s') : PromptInv text (h ++ es) s' := by
  have hconn := hi.connected _ (List.mem_of_getElem? hj)
  obtain ⟨w, rfl⟩ : ∃ w, wc = some w :=
    Option.isSome_iff_exists.1 (Bool.and_eq_true_iff.1 hconn).2
  obtain ⟨k, hk, hstage, hseen⟩ := hi.stage
  have hjob {jb job' : Job} (h : s.jobs[0]? = some jb) : (s.jobs.set j job')[0]? = some jb :=
    (getElem?_zero_set hj0).trans h
  cases hs with
  | lookupGone i c hnone => simp [hi.order.session] at hnone
  | lookup i c o hs =>
    refine hi.jobStep order rfl rfl rfl rfl (fun _ => ⟨_, _, rfl⟩) rfl ⟨k, hk, ?_, by rwa [List.append_nil]⟩
    rw [List.append_nil]
    cases hstage with
    | gated job going pos bound count sent gate waiting users accepted =>
      refine .gated (hjob job) going pos bound count sent gate (waiting_set waiting rfl) ?_ accepted
      rw [users]
      exact congrArg _ (flatMap_set_of_eq (w := ⟨.submit (some w) t, .waiting o⟩) hj rfl).symm
    | cleared job sent gate queue accepted pre => exact .cleared (hjob job) sent gate queue accepted pre
  | lock i c o ho =>
    have hfree := holds_none_of_free hi.order hj ho
    refine hi.jobStep order rfl rfl rfl rfl (fun _ => ⟨_, _, rfl⟩) rfl
      ⟨k, hk, ?_, seen_append (by simp [Call.accepted]) hseen⟩
    cases hstage with
    | gated job going pos bound count sent gate waiting users accepted =>
      obtain ⟨h1, h2⟩ := undecided_set (w := ⟨.submit (some w) t, .locked o⟩) hi.order hj (.inr hfree)
      have hent := entering_of_holds_none (hfree 0 _ job)
      refine .gated (hjob job) going pos bound (fun hc => ⟨(count hc).1, by simp [(count hc).2, Call.accepted]⟩)
        sent gate (waiting_set waiting rfl) ?_ ?_
      · simp only [InputState.setPhase, InputState.setJob]
        rw [userTexts_append, users, h1, h2]
        simp [Job.undecided, Call.accepted, userTexts]
      · rw [userTexts_append, acceptedTexts_append, accepted, hent]
        simp [Call.accepted, userTexts, acceptedTexts]
    | cleared job sent gate queue accepted pre =>
      refine .cleared (hjob job) sent gate queue ?_ ?_
      · rw [userTexts_append, acceptedTexts_append, accepted]
        simp [Call.accepted, userTexts, acceptedTexts]
      · rw [sentTexts_append, List.flatten_append]
        exact pre.trans (List.prefix_append _ _)
  | enterSubmit i o =>
    obtain rfl : i = j := Option.some.inj ha
    obtain rfl : o = 0 := hi.order.object _ (List.mem_of_getElem? hj) o rfl
    have hlen : s.pendingInput.length < maxPendingInputPerSession := by
      simpa [promptAlone, hj] using hp
    obtain ⟨htrim, hover⟩ := trimPending_of_le (q := s.pendingInput ++ [t])
      (by rw [List.length_append]; exact hlen)
    cases hstage with
    | gated job going pos bound count sent gate waiting users accepted =>
      have hgate : sessionInjectGated (s.object 0) s.now = true := by
        simpa [gatedStep, hj, gate] using hg
      have hs' : s.enterSubmit i 0 (.submit (some w) t) (some w) t false =
          (s.finish i (.submit (some w) t)).putPending (s.pendingInput ++ [t]) := by
        simp [InputState.enterSubmit, hgate]
      rw [hs', InputState.putPending, htrim, hover] at order ⊢
      obtain ⟨h1, h2⟩ := undecided_set (w := ⟨.submit (some w) t, .done⟩) hi.order hj
        (.inl (by simp [Phase.holds]))
      refine hi.jobStep order rfl rfl rfl rfl (fun _ => ⟨_, _, rfl⟩) rfl
        ⟨k, hk, ?_, seen_append (by simp) hseen⟩
      refine .gated (hjob job) going pos bound (fun hc => ⟨(count hc).1, by simp [(count hc).2]⟩) sent gate
        (waiting_set waiting rfl) ?_ ?_
      · rw [userTexts_append, users, h1]
        simp only [InputState.finish, InputState.setPhase, InputState.setJob]
        refine (List.append_nil _).trans ?_
        rw [show Call.after (.submit (some w) t) = .done from rfl, h2]
        simp [Job.undecided]
      · rw [userTexts_append, acceptedTexts_append, accepted]
        simp [userTexts, acceptedTexts]
    | cleared job sent gate queue accepted pre =>
      have hopen : sessionInjectGated (s.object 0) s.now = false := by simp [sessionInjectGated, gate]
      by_cases hq : s.pendingInput = []
      · have hs' : s.enterSubmit i 0 (.submit (some w) t) (some w) t false =
            (s.setPhase i (.submit (some w) t) (.sending 0 (some w) [t] false), []) := by
          simp [InputState.enterSubmit, hopen, hq]
        rw [hs'] at order ⊢
        refine hi.jobStep order rfl rfl rfl rfl (fun _ => ⟨_, _, rfl⟩) rfl
          ⟨k, hk, ?_, seen_append (by simp) hseen⟩
        rw [List.append_nil]
        exact .cleared (hjob job) sent gate (fun hne => absurd hq hne) accepted pre
      · have hs' : s.enterSubmit i 0 (.submit (some w) t) (some w) t false =
            (s.finish i (.submit (some w) t)).putPending (s.pendingInput ++ [t]) := by
          simp [InputState.enterSubmit, hq]
        rw [hs', InputState.putPending, htrim, hover] at order ⊢
        refine hi.jobStep order rfl rfl rfl rfl (fun _ => ⟨_, _, rfl⟩) rfl
          ⟨k, hk, ?_, seen_append (by simp) hseen⟩
        refine .cleared (hjob job) sent gate (fun _ => queue hq) ?_ ?_
        · rw [userTexts_append, acceptedTexts_append, accepted]
          simp [userTexts, acceptedTexts]
        · rw [sentTexts_append, List.flatten_append]
          exact pre.trans (List.prefix_append _ _)
  | send i c o wc item rest delayed ok =>
    obtain rfl : ok = true := hg
    obtain ⟨w', rfl⟩ : ∃ w', wc = some w' :=
      Option.isSome_iff_exists.1 (Bool.and_eq_true_iff.1 hconn).1
    obtain ⟨p', chunk, hs', hp'⟩ := InputState.trySend_ok (s := s) (j := j) (o := o)
      (c := .submit (some w) t) w' item rest delayed
    rw [hs'] at order ⊢
    have hconn' : Job.connected ⟨.submit (some w) t, p'⟩ = true := by
      rcases hp' with rfl | ⟨items, d, rfl⟩ <;> rfl
    refine hi.jobStep order rfl rfl rfl hconn' (fun _ => ⟨_, _, rfl⟩) rfl
      ⟨k, hk, ?_, seen_append (by simp) hseen⟩
    cases hstage with
    | gated job going pos bound count sent gate waiting users accepted =>
      exact absurd (waiting j _ hj0 hj) (by simp [Phase.busy])
    | cleared job sent gate queue accepted pre =>
      refine .cleared (hjob job) sent gate queue ?_ ?_
      · rw [userTexts_append, acceptedTexts_append, accepted]
        simp [userTexts, acceptedTexts]
      · rw [sentTexts_append, List.flatten_append]
        exact pre.trans (List.prefix_append _ _)
  | store i c o items => simp [Job.connected] at hconn

theorem seen_observed {h : List InputEvent} {t : Input} (hh : .observed ∉ h)
    (hsent : (sentTexts h).flatten = t) (g g' : List InputEvent)
    (heq : h ++ [.observed] = g ++ .observed :: g') : (sentTexts g).flatten = t := by
  rcases List.eq_nil_or_concat g' with rfl | ⟨l, y, rfl⟩
  · obtain ⟨rfl, -⟩ := List.append_inj' heq rfl
    exact hsent
  · rw [List.concat_eq_append, ← List.cons_append, ← List.append_assoc] at heq
    obtain ⟨rfl, -⟩ := List.append_inj' heq rfl
    exact absurd (by simp) hh

theorem set_zero {jobs : List Job} {job job' : Job} (h : jobs[0]? = some job) :
    (jobs.set 0 job')[0]? = some job' := by
  rw [List.getElem?_set_self (List.getElem?_eq_some_iff.1 h).1]

theorem waiting_set_zero {jobs : List Job} {job' : Job}
    (hw : ∀ (i : ℕ) (x : Job), i ≠ 0 → jobs[i]? = some x → x.phase.busy = false) (i : ℕ) (x : Job)
    (hi : i ≠ 0) (hx : (jobs.set 0 job')[i]? = some x) : x.phase.busy = false :=
  hw i x hi (by rwa [List.getElem?_set_ne hi.symm] at hx)

/-- A step of the injection. -/
theorem PromptInv.injectStep {text : Input} {h es : List InputEvent} {s s' : InputState}
    {wc₀ : Option ℕ} {n k : ℕ} {p : Phase} {a : InputAction} (hi : PromptInv text h s)
    (hk : k ≤ orchestrationInjectMaxAttempts)
    (hseen : ∀ g g', h = g ++ .observed :: g' → (sentTexts g).flatten = (List.replicate k text).flatten)
    (job : s.jobs[0]? = some ⟨.inject wc₀ text n, p⟩) (pos : 1 ≤ n)
    (bound : n ≤ orchestrationInjectMaxAttempts)
    (count : p ≠ .clearing → k = p.decided n ∧ .observed ∉ h) (some_sent : p = .clearing → 1 ≤ k)
    (gate : (s.object 0).initialInjectPending = true)
    (waiting : ∀ (i : ℕ) (x : Job), i ≠ 0 → s.jobs[i]? = some x → x.phase.busy = false)
    (users : userTexts h = s.pendingInput ++ s.jobs.flatMap Job.undecided)
    (accepted : acceptedTexts h = List.replicate k text ++ userTexts h ++
      if p.entering then [text] else [])
    (hs : s.JobStep 0 (.inject wc₀ text n) p a s' es)
    (ha : a.job? = some 0) (hg : gatedStep s a = true) (hp : promptAlone s a = true)
    (order : OrderInv 0 (h ++ es) s') : PromptInv text (h ++ es) s' := by
  have hconn := hi.connected _ (List.mem_of_getElem? job)
  have hund (p' : Phase) (wc' : Option ℕ) (n' : ℕ) : userTexts h = s.pendingInput ++
      (s.jobs.set 0 ⟨.inject wc' text n', p'⟩).flatMap Job.undecided :=
    users.trans (congrArg _ (flatMap_set_of_eq (w := ⟨.inject wc' text n', p'⟩) job rfl).symm)
  have hsent (hph : p.holds = none) :
      (sentTexts h).flatten = (List.replicate k text).flatten := by
    refine sent_of_gated hi.order hi.kept hi.submits job hph waiting users ?_
    rw [accepted, entering_of_holds_none hph]
    simp
  -- a step without text and lock: the injection goes on in another phase
  have hstay {wc' : Option ℕ} {n' k' : ℕ} {p' : Phase} {e : List InputEvent} (hk' : k' = k)
      (hobjects : s'.objects = s.objects) (hpending : s'.pendingInput = s.pendingInput)
      (hjobs : s'.jobs = s.jobs.set 0 ⟨.inject wc' text n', p'⟩) (going : p' ≠ .done) (pos' : 1 ≤ n')
      (bound' : n' ≤ orchestrationInjectMaxAttempts)
      (count' : p' ≠ .clearing → k = p'.decided n' ∧ .observed ∉ h ++ e) (sent' : p' = .clearing → 1 ≤ k)
      (hent : p.entering = false) (hent' : p'.entering = false) (hu : userTexts e = [])
      (hac : acceptedTexts e = []) : PromptStage text (h ++ e) s' k' := by
    subst hk'
    refine .gated (by rw [hjobs]; exact set_zero job) going pos' bound' count' sent' ?_ ?_ ?_ ?_
    · rwa [InputState.object, hobjects]
    · rw [hjobs]
      exact waiting_set_zero waiting
    · rw [userTexts_append, hu, List.append_nil, hjobs, hpending]
      exact hund p' wc' n'
    · rw [acceptedTexts_append, userTexts_append, hu, hac, accepted, hent, hent']
      simp
  cases hs with
  | echoLate i wc₀ n hn =>
    obtain ⟨rfl, hobs⟩ := count (by simp)
    refine hi.jobStep order rfl rfl rfl (by simp [Job.connected]) (by simp) rfl
      ⟨n - 1, hk, ?_, seen_observed hobs (hsent rfl)⟩
    exact hstay rfl rfl rfl rfl (by simp) pos bound (by simp)
      (fun _ => show 1 ≤ n - 1 by omega) rfl rfl rfl rfl
  | attempt i wc₀ n echoed hn =>
    refine hi.jobStep order rfl rfl rfl (by simp [Job.connected, hi.wrapper]) (by simp) rfl
      ⟨k, hk, ?_, seen_append (by simp) hseen⟩
    obtain ⟨hc, hobs⟩ := count (by simp)
    exact hstay rfl rfl rfl rfl (by simp) pos bound (fun _ => ⟨hc, by simpa using hobs⟩) (by simp) rfl rfl
      rfl rfl
  | lookupGone i c hs => simp [hi.order.session] at hs
  | lookup i c o hs =>
    refine hi.jobStep order rfl rfl rfl (by simpa [Job.connected] using hconn) (by simp) rfl
      ⟨k, hk, ?_, seen_append (by simp) hseen⟩
    obtain ⟨hc, hobs⟩ := count (by simp)
    exact hstay rfl rfl rfl rfl (by simp) pos bound (fun _ => ⟨hc, by simpa using hobs⟩) (by simp) rfl rfl
      rfl rfl
  | lock i c o ho =>
    refine hi.jobStep order rfl rfl rfl (by simpa [Job.connected] using hconn) (by simp) rfl
      ⟨k, hk, ?_, seen_append (by simp [Call.accepted]) hseen⟩
    obtain ⟨hc, hobs⟩ := count (by simp)
    refine .gated (set_zero job) (by simp) pos bound
      (fun _ => ⟨hc, by simpa [Call.accepted] using hobs⟩) (by simp) gate (waiting_set_zero waiting) ?_ ?_
    · rw [userTexts_append, show userTexts (Call.inject wc₀ text n).accepted = [] from rfl,
        List.append_nil]
      exact hund (.locked o) wc₀ n
    · rw [acceptedTexts_append, userTexts_append, accepted]
      simp [Call.accepted, userTexts, acceptedTexts, Phase.entering]
  | enterInject i o wc₀ text n =>
    obtain rfl : i = 0 := Option.some.inj ha
    obtain ⟨hc, hobs⟩ := count (by simp)
    have hc : k = n - 1 := hc
    have hq : s.pendingInput = [] := by simpa [promptAlone, job] using hp
    have hs' : s.enterSubmit 0 o (.inject wc₀ text n) wc₀ text true =
        (s.setPhase 0 (.inject wc₀ text n) (.sending o wc₀ [text] false), []) := by
      simp [InputState.enterSubmit, hq]
    rw [hs'] at order ⊢
    -- the lock keeps users from deciding, the empty queue says none has decided before
    obtain ⟨h1, h2⟩ := undecided_set (w := ⟨.inject wc₀ text n, .sending o wc₀ [text] false⟩) hi.order job
      (.inl (by simp [Phase.holds]))
    have hnone : userTexts h = [] := by rw [users, hq, h1]; rfl
    have hsucc : n - 1 + 1 = n := by omega
    refine hi.jobStep order rfl rfl rfl (by simpa [Job.connected] using hconn) (by simp) rfl
      ⟨n, bound, ?_, fun g g' heq => absurd (heq ▸ by simp) (by simpa using hobs : .observed ∉ h ++ [])⟩
    rw [List.append_nil]
    refine .gated (set_zero job) (by simp) pos bound (fun _ => ⟨rfl, hobs⟩) (by simp) gate
      (waiting_set_zero waiting) ?_ ?_
    · rw [hnone]
      exact (congrArg₂ (· ++ ·) hq h2).symm
    · rw [accepted, hnone, hc, ← hsucc, List.replicate_succ']
      simp [Phase.entering]
  | send i c o wc item rest delayed ok =>
    obtain rfl : ok = true := hg
    obtain ⟨w', rfl⟩ : ∃ w', wc = some w' :=
      Option.isSome_iff_exists.1 (Bool.and_eq_true_iff.1 hconn).1
    obtain ⟨p', chunk, hs', hp'⟩ := InputState.trySend_ok (s := s) (j := 0) (o := o)
      (c := .inject wc₀ text n) w' item rest delayed
    rw [hs'] at order hstay ⊢
    obtain ⟨hc, hobs⟩ := count (by simp)
    have hconn' : Job.connected ⟨.inject wc₀ text n, p'⟩ = true := by
      have := (Bool.and_eq_true_iff.1 hconn).2
      rcases hp' with rfl | ⟨items, d, rfl⟩ <;> simpa [Job.connected, Call.after] using this
    refine hi.jobStep order rfl rfl rfl hconn' (by simp) rfl ⟨k, hk, ?_, seen_append (by simp) hseen⟩
    rcases hp' with rfl | ⟨items, d, rfl⟩
    · exact hstay (e := [.sent chunk]) rfl rfl rfl rfl (by simp [Call.after]) pos bound
        (fun _ => ⟨hc, by simpa using hobs⟩) (by simp [Call.after]) rfl rfl rfl rfl
    · exact hstay (e := [.sent chunk]) rfl rfl rfl rfl (by simp) pos bound (fun _ => ⟨hc, by simpa using hobs⟩) (by simp)
        rfl rfl rfl rfl
  | store i c o items => simp [Job.connected] at hconn
  | echo i wc₀ text n =>
    obtain ⟨hc, hobs⟩ := count (by simp)
    refine hi.jobStep order rfl rfl rfl (by simp [Job.connected]) (by simp) rfl
      ⟨k, hk, ?_, seen_observed hobs (hsent rfl)⟩
    exact hstay rfl rfl rfl rfl (by simp) pos bound (by simp) (fun _ => by rw [hc]; exact pos) rfl rfl rfl rfl
  | retry i wc₀ text n hn =>
    refine hi.jobStep order rfl rfl rfl (by simp [Job.connected]) (by simp) rfl
      ⟨k, hk, ?_, seen_append (by simp) hseen⟩
    obtain ⟨hc, hobs⟩ := count (by simp)
    exact hstay rfl rfl rfl rfl (by simp) (by omega) hn
      (fun _ => ⟨hc, by simpa using hobs⟩) (by simp) rfl rfl rfl rfl
  | gaveUp i wc₀ text n hn =>
    refine hi.jobStep order rfl rfl rfl (by simp [Job.connected]) (by simp) rfl
      ⟨k, hk, ?_, seen_append (by simp) hseen⟩
    obtain ⟨hc, hobs⟩ := count (by simp)
    exact hstay rfl rfl rfl rfl (by simp) pos bound (by simp) (fun _ => by rw [hc]; exact pos) rfl rfl rfl rfl
  | clear i wc₀ text n =>
    have hs' : s.clearInitialInjectGate 0 (.inject wc₀ text n) = { s with
        objects := s.objects.modify 0 fun ses : Session => { ses with initialInjectPending := false }
        jobs := s.jobs.set 0 ⟨.flush, .called⟩ } := by
      rw [InputState.clearInitialInjectGate, hi.order.session]
      rfl
    rw [hs'] at order ⊢
    refine hi.jobStep order rfl rfl (List.length_modify ..) rfl (by simp) rfl
      ⟨k, hk, ?_, seen_append (by simp) hseen⟩
    rw [List.append_nil]
    refine .cleared (set_zero job) (some_sent rfl) ?_ (fun _ => .inl rfl) ?_ ?_
    · obtain ⟨ses, hses⟩ := List.length_eq_one_iff.1 hi.one
      simp [InputState.object, hses]
    · simpa [Phase.entering] using accepted
    · rw [hsent rfl]

/-- A step of the flush that the injection has become. -/
theorem PromptInv.flushStep {text : Input} {h es : List InputEvent} {s s' : InputState} {k : ℕ}
    {p : Phase} {a : InputAction} (hi : PromptInv text h s) (hk : k ≤ orchestrationInjectMaxAttempts)
    (hseen : ∀ g g', h = g ++ .observed :: g' → (sentTexts g).flatten = (List.replicate k text).flatten)
    (job : s.jobs[0]? = some ⟨.flush, p⟩) (some_sent : 1 ≤ k)
    (gate : (s.object 0).initialInjectPending = false)
    (queue : s.pendingInput ≠ [] → p = .called ∨ p = .waiting 0 ∨ p = .locked 0)
    (accepted : acceptedTexts h = List.replicate k text ++ userTexts h)
    (sent : (List.replicate k text).flatten <+: (sentTexts h).flatten)
    (hs : s.JobStep 0 .flush p a s' es) (hg : gatedStep s a = true)
    (order : OrderInv 0 (h ++ es) s') : PromptInv text (h ++ es) s' := by
  have hconn := hi.connected _ (List.mem_of_getElem? job)
  have hstay {p' : Phase} {e : List InputEvent} (hobjects : s'.objects = s.objects)
      (hjobs : s'.jobs = s.jobs.set 0 ⟨.flush, p'⟩) (hac : acceptedTexts e = [])
      (hu : userTexts e = [])
      (queue : s'.pendingInput ≠ [] → p' = .called ∨ p' = .waiting 0 ∨ p' = .locked 0) :
      PromptStage text (h ++ e) s' k := by
    refine .cleared (by rw [hjobs]; exact set_zero job) some_sent ?_ queue ?_ ?_
    · rwa [InputState.object, hobjects]
    · rw [acceptedTexts_append, userTexts_append, hac, hu, accepted]
      simp
    · rw [sentTexts_append, List.flatten_append]
      exact sent.trans (List.prefix_append _ _)
  cases hs with
  | lookupGone i c hs => simp [hi.order.session] at hs
  | lookup i c o hs =>
    obtain rfl : 0 = o := Option.some.inj (hi.order.session.symm.trans hs)
    refine hi.jobStep order rfl rfl rfl rfl (by simp) rfl ⟨k, hk, ?_, seen_append (by simp) hseen⟩
    exact hstay rfl rfl rfl rfl fun _ => .inr (.inl rfl)
  | lock i c o ho =>
    obtain rfl : o = 0 := hi.order.object _ (List.mem_of_getElem? job) o rfl
    refine hi.jobStep order rfl rfl rfl rfl (by simp) rfl
      ⟨k, hk, ?_, seen_append (by simp [Call.accepted]) hseen⟩
    exact hstay rfl rfl rfl rfl fun _ => .inr (.inr rfl)
  | enterFlush i o =>
    obtain rfl : o = 0 := hi.order.object _ (List.mem_of_getElem? job) o rfl
    have hopen : sessionInjectGated (s.object 0) s.now = false := by simp [sessionInjectGated, gate]
    unfold InputState.enterFlush at order hstay ⊢
    simp only [hopen, Bool.false_eq_true, if_false, hi.wrapper] at order hstay ⊢
    split_ifs at order hstay ⊢
    · refine hi.jobStep order rfl hi.wrapper.symm rfl rfl (by simp) rfl
        ⟨k, hk, ?_, seen_append (by simp) hseen⟩
      exact hstay rfl rfl rfl rfl fun hne => absurd rfl hne
    · refine hi.jobStep order rfl hi.wrapper.symm rfl rfl (by simp) rfl
        ⟨k, hk, ?_, seen_append (by simp) hseen⟩
      exact hstay rfl rfl rfl rfl fun hne => absurd rfl hne
  | send i c o wc item rest delayed ok =>
    obtain rfl : ok = true := hg
    obtain ⟨w', rfl⟩ : ∃ w', wc = some w' :=
      Option.isSome_iff_exists.1 (Bool.and_eq_true_iff.1 hconn).1
    obtain ⟨p', chunk, hs', hp'⟩ := InputState.trySend_ok (s := s) (j := 0) (o := o)
      (c := .flush) w' item rest delayed
    rw [hs'] at order hstay ⊢
    have hconn' : Job.connected ⟨.flush, p'⟩ = true := by
      rcases hp' with rfl | ⟨items, d, rfl⟩ <;> rfl
    refine hi.jobStep order rfl rfl rfl hconn' (by simp) rfl ⟨k, hk, ?_, seen_append (by simp) hseen⟩
    refine hstay (e := [.sent chunk]) rfl rfl rfl rfl fun hne => ?_
    have := queue hne
    simp at this
  | store i c o items => simp [Job.connected] at hconn

/-- New users, and time, change nothing. -/
theorem PromptInv.grow {text : Input} {h : List InputEvent} {s s' : InputState} {n : List Job}
    (hi : PromptInv text h s) (order : OrderInv 0 h s') (jobs : s'.jobs = s.jobs ++ n)
    (wrapper : s'.wrapper = s.wrapper) (objects : s'.objects = s.objects)
    (pending : s'.pendingInput = s.pendingInput)
    (hnew : ∀ x ∈ n, x.phase = .called ∧ ∃ wc t, x.call = .submit (some wc) t) :
    PromptInv text h s' := by
  have hget {i : ℕ} {x : Job} (hx : (s.jobs ++ n)[i]? = some x) : s.jobs[i]? = some x ∨ x ∈ n := by
    rw [List.getElem?_append] at hx
    split_ifs at hx with hlt
    · exact .inl hx
    · exact .inr (List.mem_of_getElem? hx)
  have hzero {job : Job} (hj : s.jobs[0]? = some job) : s'.jobs[0]? = some job := by
    rw [jobs, List.getElem?_append_left (List.getElem?_eq_some_iff.1 hj).1, hj]
  refine ⟨order, wrapper.trans hi.wrapper, by rw [objects, hi.one], ?_, ?_, hi.kept, ?_⟩
  · intro x hx
    rw [jobs] at hx
    rcases List.mem_append.1 hx with hx | hx
    · exact hi.connected x hx
    · obtain ⟨hp, wc, t, hc⟩ := hnew x hx
      simp [Job.connected, hp, hc]
  · intro i x hi0 hx
    rw [jobs] at hx
    rcases hget hx with hx | hx
    · exact hi.submits i x hi0 hx
    · obtain ⟨-, wc, t, hc⟩ := hnew x hx
      exact ⟨_, _, hc⟩
  · obtain ⟨k, hk, hstage, hseen⟩ := hi.stage
    refine ⟨k, hk, ?_, hseen⟩
    cases hstage with
    | gated job going pos bound count sent gate waiting users accepted =>
      refine .gated (hzero job) going pos bound count sent (by rwa [InputState.object, objects]) ?_ ?_
        accepted
      · intro i x hi0 hx
        rw [jobs] at hx
        rcases hget hx with hx | hx
        · exact waiting i x hi0 hx
        · rw [(hnew x hx).1]
          rfl
      · have hnil : n.flatMap Job.undecided = [] := by
          rw [List.flatMap_eq_nil_iff]
          intro x hx
          obtain ⟨hp, wc, t, hc⟩ := hnew x hx
          rcases x with ⟨c, p⟩
          dsimp only at hp hc
          rw [hp, hc]
          rfl
        rw [users, jobs, pending, List.flatMap_append, hnil, List.append_nil]
    | cleared job sent gate queue accepted pre =>
      exact .cleared (hzero job) sent (by rwa [InputState.object, objects]) (by rwa [pending]) accepted pre

/-- The step lemma of the invariant. -/
theorem promptInv_step {text : Input} (h : List InputEvent) (s : InputState) (a : InputAction)
    (s' : InputState) (es : List InputEvent) (hi : PromptInv text h s)
    (hok : gatedStep s a = true ∧ promptAlone s a = true) (hs : inputStep s a = some (s', es)) :
    PromptInv text (h ++ es) s' := by
  have order : OrderInv 0 (h ++ es) s' := by
    refine orderInv_step h s a s' es hi.order ⟨?_, ?_⟩ hs <;> rintro rfl <;> simp [gatedStep] at hok
  rcases inputStep_cases hs with ⟨j, c, p, ha, hj, hstep⟩ | ⟨ha, rfl⟩
  · by_cases hj0 : j = 0
    · subst hj0
      obtain ⟨k, hk, hstage, hseen⟩ := hi.stage
      cases hstage with
      | gated job going pos bound count sent gate waiting users accepted =>
        obtain ⟨rfl, rfl⟩ : _ = c ∧ _ = p := by simpa using Option.some.inj (job.symm.trans hj)
        exact hi.injectStep hk hseen job pos bound count sent gate waiting users accepted hstep ha hok.1
          hok.2 order
      | cleared job sent gate queue accepted pre =>
        obtain ⟨rfl, rfl⟩ : _ = c ∧ _ = p := by simpa using Option.some.inj (job.symm.trans hj)
        exact hi.flushStep hk hseen job sent gate queue accepted pre hstep hok.1 order
    · obtain ⟨wc, t, rfl⟩ := hi.submits j _ hj0 hj
      exact hi.userStep hj0 hj hstep ha hok.1 hok.2 order
  · rw [List.append_nil] at order ⊢
    cases a with
    | tick ms =>
      obtain ⟨rfl, -⟩ := by simpa [inputStep] using hs
      exact hi.grow (n := []) order (List.append_nil _).symm rfl rfl rfl (by simp)
    | submit t =>
      obtain ⟨rfl, -⟩ := by simpa [inputStep] using hs
      refine hi.grow order rfl rfl rfl rfl fun x hx => ?_
      obtain rfl := List.mem_singleton.1 hx
      exact ⟨rfl, 0, t, by rw [hi.wrapper]⟩
    | inject | flush | disconnect | reattach | dismiss => simp [gatedStep] at hok
    | _ => simp [InputAction.job?] at ha

theorem promptInv_orchestrated (prompt : Input) (now : ℕ) :
    PromptInv (initialPromptText prompt) [] (orchestrated prompt now) := by
  refine ⟨(orderInv_fresh ..).start _ rfl, rfl, rfl, ?_, ?_, rfl, 0, by decide, ?_, by simp⟩
  · intro x hx
    obtain rfl := List.mem_singleton.1 hx
    rfl
  · intro i x hi0 hx
    have := List.getElem?_eq_some_iff.1 hx
    simp [orchestrated, registered, InputState.fresh, InputState.start] at this
    omega
  · refine .gated rfl (by simp) le_rfl (by decide) (fun _ => ⟨rfl, by simp⟩) (by simp) rfl ?_ rfl rfl
    intro i x hi0 hx
    have := List.getElem?_eq_some_iff.1 hx
    simp [orchestrated, registered, InputState.fresh, InputState.start] at this
    omega

/-- While the gate is closed the wrapper has got a part of the attempts. -/
theorem sent_prefix_of_gated {text : Input} {h : List InputEvent} {s : InputState} {wc : Option ℕ}
    {n k : ℕ} {p : Phase} (hi : PromptInv text h s) (job : s.jobs[0]? = some ⟨.inject wc text n, p⟩)
    (waiting : ∀ (i : ℕ) (x : Job), i ≠ 0 → s.jobs[i]? = some x → x.phase.busy = false)
    (users : userTexts h = s.pendingInput ++ s.jobs.flatMap Job.undecided)
    (accepted : acceptedTexts h = List.replicate k text ++ userTexts h ++
      if p.entering then [text] else []) :
    (sentTexts h).flatten <+: (List.replicate k text).flatten := by
  by_cases hph : p.holds = none
  · rw [entering_of_holds_none hph] at accepted
    rw [sent_of_gated hi.order hi.kept hi.submits job hph waiting users (by simpa using accepted)]
  -- the injection has the lock, so all text in hand is its own
  have hothers (i : ℕ) (x : Job) (hx : s.jobs[i]? = some x) (hne : i ≠ 0) : x.carried = [] := by
    refine carried_of_holds_none ?_
    by_contra hxh
    exact hne (hi.order.exclusive i 0 x _ hx job hxh hph)
  have hhand : s.inHand = Job.carried ⟨.inject wc text n, p⟩ :=
    (flatMap_set_of_others (w := ⟨.inject wc text n, p⟩) job hothers).1
  have hund : s.jobs.flatMap Job.undecided = [] :=
    (undecided_set (w := ⟨.inject wc text n, p⟩) hi.order job (.inl hph)).1
  have hlaw := hi.order.law
  rw [ledger_of_no_overflow hi.kept, accepted, users, hund, hhand, List.append_nil] at hlaw
  have hbusy := hi.order.busy _ (List.mem_of_getElem? job)
  cases p with
  | locked o =>
    have hlaw : (List.replicate k text).flatten ++ (s.pendingInput.flatten ++ text) =
        (sentTexts h).flatten ++ (s.pendingInput.flatten ++ text) := by
      simpa [Phase.entering, Job.carried, Call.text] using hlaw
    rw [List.append_cancel_right hlaw]
  | sending | storing =>
    exact ⟨_, by simpa [Phase.entering, hbusy rfl] using hlaw.symm⟩
  | _ => exact absurd rfl hph

/-- The initial prompt goes first, in every run in which its attempts find the
queue empty. -/
theorem initial_prompt_first {prompt : Input} {now : ℕ} {as : List InputAction} {s : InputState}
    {es : List InputEvent} (hg : Meets inputStep (gatedStep · ·) (orchestrated prompt now) as)
    (hp : Meets inputStep (promptAlone · ·) (orchestrated prompt now) as)
    (hx : exec inputStep (orchestrated prompt now) as = some (s, es)) :
    PromptFirst (initialPromptText prompt) es s := by
  have hi := exec_invariant (h := []) promptInv_step (promptInv_orchestrated prompt now) (hg.and hp) hx
  rw [List.nil_append] at hi
  obtain ⟨k, hk, hstage, hseen⟩ := hi.stage
  have hlaw := hi.order.law
  rw [ledger_of_no_overflow hi.kept] at hlaw
  cases hstage with
  | gated job going pos bound count sent gate waiting users accepted =>
    refine ⟨k, [], hk, .inl (sent_prefix_of_gated hi job waiting users accepted), List.nil_prefix, hseen,
      fun hq => ?_⟩
    have := List.all_eq_true.1 hq _ (List.mem_of_getElem? job)
    exact absurd (by simpa using this) going
  | @cleared p job sent gate queue accepted pre =>
    obtain ⟨v, hv⟩ := pre
    rw [accepted, List.flatten_append, ← hv, List.append_assoc, List.append_assoc] at hlaw
    have hlaw := List.append_cancel_left hlaw
    refine ⟨k, v, hk, .inr ⟨sent, hv.symm⟩, ⟨_, hlaw.symm⟩, hseen, fun hq => ⟨sent, ?_⟩⟩
    have hdone (x : Job) (hx : x ∈ s.jobs) : x.phase = .done := by
      simpa using List.all_eq_true.1 hq x hx
    have hpending : s.pendingInput = [] := by
      by_contra hne
      have hp : p = .done := hdone _ (List.mem_of_getElem? job)
      simpa [hp] using queue hne
    have hhand : s.inHand = [] := by
      rw [InputState.inHand, List.flatMap_eq_nil_iff]
      exact fun x hx => carried_of_holds_none (by rw [hdone x hx]; rfl)
    rw [hpending, hhand] at hlaw
    rw [← hv, hlaw]
    simp

/-- A user types between the first attempt and its echo. -/
def typedBetweenRun : List InputAction :=
  [.attempt 0 false, .lookup 0, .lock 0, .enter 0, .send 0 true, .send 0 true, .submit ['x'], .lookup 1,
    .lock 1, .enter 1, .echo 0 true, .clear 0, .lookup 0, .lock 0, .enter 0, .send 0 true]

theorem initial_prompt_first_typed_between :
    ∃ s es, exec inputStep (orchestrated ['p'] 0) typedBetweenRun = some (s, es) ∧
      PromptFirst (initialPromptText ['p']) es s :=
  ⟨_, _, rfl, initial_prompt_first
    (show Meets inputStep (gatedStep · ·) (orchestrated ['p'] 0) typedBetweenRun by decide) (by decide) rfl⟩

/-- A user types before the first attempt. Every attempt is queued behind the
text, no echo comes, and the text is the first thing sent. -/
def typedBeforeRun : List InputAction :=
  [.submit ['x'], .lookup 1, .lock 1, .enter 1] ++
    (List.replicate 4 [.attempt 0 false, .lookup 0, .lock 0, .enter 0, .echo 0 false]).flatten ++
    [.clear 0, .lookup 0, .lock 0, .enter 0, .send 0 true]

theorem typed_text_goes_first :
    ¬ ∀ prompt now as s es, Meets inputStep (gatedStep · ·) (orchestrated prompt now) as →
      exec inputStep (orchestrated prompt now) as = some (s, es) →
        PromptFirst (initialPromptText prompt) es s := by
  intro h
  have hrun : (exec inputStep (orchestrated ['p'] 0) typedBeforeRun).map (fun r => sentTexts r.2) =
      some [['x']] := by decide
  obtain ⟨⟨s, es⟩, hx, hs⟩ := Option.map_eq_some_iff.1 hrun
  obtain ⟨k, u, -, hfirst, -⟩ := h ['p'] 0 typedBeforeRun s es (by decide) hx
  rw [hs] at hfirst
  rcases k with _ | k
  · simp at hfirst
  · rw [List.replicate_succ] at hfirst
    simp [initialPromptText, bracketedPasteStart] at hfirst

end ManyAiCli.Hub
