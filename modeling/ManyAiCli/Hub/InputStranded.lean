import ManyAiCli.Hub.InputGate

/-! Can queued input be left behind? A queue is emptied by a flush, and a flush is
started by a reattach or at the end of an injection only. So the queue must be
covered as long as the wrapper works: a flush is on its way that the gate will
not turn back, or the gate is closed. Two steps can break this: time, when the
gate ages out over a queue, and a call that puts its text back too late, after
the flush of the next wrapper has gone by. -/

namespace ManyAiCli.Hub

open Runs

namespace InputState

/-- The session's wrapper is registered and no send to it has failed. -/
def live (s : InputState) : Bool :=
  match s.wrapper with
  | none => false
  | some wc => wc ∉ s.failed

/-- `sessionInjectGated` of the session map's entry. -/
def gated (s : InputState) : Bool :=
  match s.session with
  | none => false
  | some o => sessionInjectGated (s.object o) s.now

/-- A flush that has not taken the queue yet and that no gate will turn back, or
an injection, which ends with such a flush. -/
def willFlush (s : InputState) (job : Job) : Bool :=
  match job.call, job.phase with
  | .inject .., p => p ≠ .done
  | .flush, .called => true
  | .flush, .waiting o => s.session = some o || !sessionInjectGated (s.object o) s.now
  | .flush, .locked o => s.session = some o || !sessionInjectGated (s.object o) s.now
  | _, _ => false

def flushComing (s : InputState) : Bool := s.jobs.any s.willFlush

/-- Text in the queue would not be left behind. -/
def covered (s : InputState) : Bool := !s.live || s.flushComing || s.gated

end InputState

/-- The steps that may leave text behind do so under cover only: the gate does not
age out over a queue, no call of a stale session object starts a queue, and no
unsent text is put back where nothing will flush it. -/
def keepsCover (s : InputState) (a : InputAction) : Bool :=
  match a with
  | .tick ms => s.pendingInput = [] || { s with now := s.now + ms }.covered
  | .enter j =>
    match s.jobs[j]? with
    | some ⟨.submit .., .locked o⟩ =>
      s.pendingInput ≠ [] || !sessionInjectGated (s.object o) s.now || s.covered
    | _ => true
  | .store _ => s.covered
  | _ => true

/-- A queue of text is covered, and without a session there is no wrapper. -/
structure CoverInv (s : InputState) : Prop where
  covered : s.pendingInput ≠ [] → s.covered = true
  wrapper : s.session = none → s.wrapper = none

namespace InputState

variable {s s' : InputState} {j : ℕ} {c : Call} {p : Phase} {a : InputAction} {es : List InputEvent}

theorem covered_of_not_live (h : s.live = false) : s.covered = true := by simp [covered, h]

theorem covered_of_gated (h : s.gated = true) : s.covered = true := by simp [covered, h]

theorem covered_of_mem {x : Job} (hj : x ∈ s.jobs) (h : s.willFlush x = true) :
    s.covered = true := by
  have : s.flushComing = true := List.any_eq_true.2 ⟨x, hj, h⟩
  simp [covered, this]

theorem live_of_failed_subset (hw : s'.wrapper = s.wrapper) (hf : s.failed ⊆ s'.failed)
    (h : s'.live = true) : s.live = true := by
  unfold live at h ⊢
  rw [hw] at h
  cases hwc : s.wrapper with
  | none => simp [hwc] at h
  | some wc =>
    simp only [hwc, decide_eq_true_eq] at h ⊢
    exact fun hm => h (hf hm)

/-- A step of job `j` that changes neither session nor gate nor wrapper. -/
structure Frame (s s' : InputState) (j : ℕ) (job' : Job) : Prop where
  jobs : s'.jobs = s.jobs.set j job'
  now : s'.now = s.now
  objects : s'.objects = s.objects
  session : s'.session = s.session
  wrapper : s'.wrapper = s.wrapper
  failed : s.failed ⊆ s'.failed

theorem Frame.willFlush {job' : Job} (h : Frame s s' j job') : s'.willFlush = s.willFlush := by
  funext job
  simp only [InputState.willFlush, object, h.session, h.objects, h.now]

theorem Frame.gated {job' : Job} (h : Frame s s' j job') : s'.gated = s.gated := by
  simp only [InputState.gated, object, h.session, h.objects, h.now]

/-- Cover is kept by a call that will not flush, or that will do so still. -/
theorem Frame.covered {job job' : Job} (h : Frame s s' j job') (hj : s.jobs[j]? = some job)
    (hf : s.willFlush job = true → s.willFlush job' = true) (hc : s.covered = true) :
    s'.covered = true := by
  by_cases hl : s'.live = true
  · have hs := live_of_failed_subset h.wrapper h.failed hl
    simp only [InputState.covered, hs, Bool.not_true, Bool.false_or, Bool.or_eq_true] at hc
    rcases hc with hc | hc
    · obtain ⟨x, hx, hxf⟩ := List.any_eq_true.1 hc
      obtain ⟨i, hi⟩ := List.mem_iff_getElem?.1 hx
      by_cases hij : i = j
      · subst hij
        obtain rfl : x = job := Option.some.inj (hi.symm.trans hj)
        refine covered_of_mem (x := job') ?_ (by rw [h.willFlush]; exact hf hxf)
        rw [h.jobs]
        exact List.mem_set (List.getElem?_eq_some_iff.1 hi).1 _
      · refine covered_of_mem (x := x) ?_ (by rw [h.willFlush]; exact hxf)
        rw [h.jobs, List.mem_iff_getElem?]
        exact ⟨i, by rw [List.getElem?_set_ne (Ne.symm hij), hi]⟩
    · exact covered_of_gated (h.gated.trans hc)
  · exact covered_of_not_live (by simpa using hl)

theorem setPhase_frame (s : InputState) (j : ℕ) (c : Call) (p : Phase) :
    Frame s (s.setPhase j c p) j ⟨c, p⟩ :=
  ⟨rfl, rfl, rfl, rfl, rfl, List.Subset.refl _⟩

theorem Frame.putPending {job' : Job} (h : Frame s s' j job') (q : List Input) :
    Frame s (s'.putPending q).1 j job' :=
  ⟨h.jobs, h.now, h.objects, h.session, h.wrapper, h.failed⟩

/-- What is not an injection does not flush from a phase past the decision. -/
theorem willFlush_mono {p' : Phase} (hp : p.holds ≠ none) (hl : ∀ o, p ≠ .locked o)
    (hp' : p' ≠ .done ∨ p' = c.after) (h : s.willFlush ⟨c, p⟩ = true) :
    s.willFlush ⟨c, p'⟩ = true := by
  cases c with
  | inject wc text n =>
    rcases hp' with hp' | rfl
    · simpa [willFlush] using hp'
    · rfl
  | _ => cases p <;> simp_all [willFlush, Phase.holds]

theorem trySend_frame (o : ℕ) (wc : Option ℕ) (item : Input) (rest : List Input) (delayed ok : Bool) :
    ∃ p', Frame s (s.trySend j o c wc item rest delayed ok).1 j ⟨c, p'⟩ ∧
      (s.trySend j o c wc item rest delayed ok).1.pendingInput = s.pendingInput ∧
      (p' ≠ .done ∨ p' = c.after) := by
  have hnext (f : List ℕ) (hf : s.failed ⊆ f) :
      ∃ p', Frame s (sendNext { s with failed := f } j o c wc rest) j ⟨c, p'⟩ ∧
        (sendNext { s with failed := f } j o c wc rest).pendingInput = s.pendingInput ∧
        (p' ≠ .done ∨ p' = c.after) := by
    unfold sendNext
    split_ifs
    · exact ⟨c.after, ⟨rfl, rfl, rfl, rfl, rfl, hf⟩, rfl, .inr rfl⟩
    · exact ⟨.sending o wc rest false, ⟨rfl, rfl, rfl, rfl, rfl, hf⟩, rfl, .inl (by simp)⟩
  have hfail (rem : Input) : ∃ p', Frame s (s.sendFailed j o c wc rem rest) j ⟨c, p'⟩ ∧
      (s.sendFailed j o c wc rem rest).pendingInput = s.pendingInput ∧
      (p' ≠ .done ∨ p' = c.after) := by
    unfold sendFailed
    dsimp only
    split_ifs
    · exact hnext _ (List.subset_append_right _ _)
    · exact ⟨.storing o (rem :: rest), ⟨rfl, rfl, rfl, rfl, rfl, List.subset_append_right _ _⟩,
        rfl, .inl (by simp)⟩
  have hs := hnext s.failed (List.Subset.refl _)
  unfold trySend
  dsimp only
  split_ifs
  · exact hs
  · exact hfail _
  · exact hfail _
  · exact hs
  · exact ⟨_, setPhase_frame s j c _, rfl, .inl (by simp)⟩
  · exact hfail _

/-- A submit or an injection that queues its text does so behind other text, or
behind the gate of its session object. -/
theorem enterSubmit_cases (o : ℕ) (wc : Option ℕ) (text : Input) (bypass : Bool) :
    (∃ q, (s.enterSubmit j o c wc text bypass).1 = ((s.finish j c).putPending q).1 ∧
      (s.pendingInput = [] → bypass = false ∧ sessionInjectGated (s.object o) s.now = true)) ∨
      s.pendingInput = [] ∧ (s.enterSubmit j o c wc text bypass).1.pendingInput = [] ∧
        Frame s (s.enterSubmit j o c wc text bypass).1 j ⟨c, .sending o wc [text] false⟩ := by
  unfold enterSubmit
  dsimp only
  split_ifs with h
  · refine .inl ⟨_, rfl, fun he => ?_⟩
    simpa [he] using h
  · rw [not_or, not_not] at h
    exact .inr ⟨h.2, h.2, setPhase_frame ..⟩

/-- The step lemma for a step of a call. -/
theorem coverInv_jobStep (hi : CoverInv s) (hj : s.jobs[j]? = some ⟨c, p⟩)
    (h : JobStep s j c p a s' es) (hok : keepsCover s a = true) (ha : a.job? = some j) : CoverInv s' := by
  -- a step that writes no text keeps the cover there was
  have hkeep {job' : Job} (hf : Frame s s' j job') (hq : s'.pendingInput = s.pendingInput)
      (hw : s.willFlush ⟨c, p⟩ = true → s.willFlush job' = true) : CoverInv s' :=
    ⟨fun hne => hf.covered hj hw (hi.covered (hq ▸ hne)),
      fun hs => hf.wrapper.trans (hi.wrapper (hf.session ▸ hs))⟩
  have hput {job' : Job} (hf : Frame s s' j job')
      (hw : s.willFlush ⟨c, p⟩ = true → s.willFlush job' = true) (hc : s.covered = true) :
      CoverInv s' :=
    ⟨fun _ => hf.covered hj hw hc, fun hs => hf.wrapper.trans (hi.wrapper (hf.session ▸ hs))⟩
  cases h with
  | echoLate => exact hkeep (setPhase_frame ..) rfl fun _ => rfl
  | attempt => exact hkeep (setPhase_frame ..) rfl fun _ => rfl
  | echo => exact hkeep (setPhase_frame ..) rfl fun _ => rfl
  | retry => exact hkeep (setPhase_frame ..) rfl fun _ => rfl
  | gaveUp => exact hkeep (setPhase_frame ..) rfl fun _ => rfl
  | lookupGone i c hs =>
    refine ⟨fun _ => covered_of_not_live ?_, fun _ => hi.wrapper hs⟩
    have : (s.finish j c).wrapper = none := hi.wrapper hs
    simp [live, this]
  | lookup i c o hs =>
    refine hkeep (setPhase_frame ..) rfl fun h => ?_
    cases c <;> simp_all [willFlush]
  | lock i c o =>
    refine hkeep (setPhase_frame ..) rfl fun h => ?_
    cases c <;> simp_all [willFlush]
  | enterSubmit i o wc text =>
    obtain rfl : i = j := Option.some.inj ha
    obtain ⟨q, hq, hempty⟩ | ⟨hp, hp', hf⟩ :=
      enterSubmit_cases (s := s) (j := i) (c := .submit wc text) o wc text false
    · rw [hq]
      rw [hq] at hput
      refine hput ((setPhase_frame ..).putPending _) (by simp [willFlush]) ?_
      by_cases hne : s.pendingInput = []
      · simpa [keepsCover, hj, hne, (hempty hne).2] using hok
      · exact hi.covered hne
    · exact hkeep hf (hp'.trans hp.symm) (by simp [willFlush])
  | enterInject i o wc text n =>
    obtain ⟨q, hq, hempty⟩ | ⟨hp, hp', hf⟩ :=
      enterSubmit_cases (s := s) (j := j) (c := .inject wc text n) o wc text true
    · rw [hq]
      rw [hq] at hput
      exact hput ((setPhase_frame ..).putPending _) (fun _ => rfl)
        (hi.covered fun hne => absurd (hempty hne).1 (by simp))
    · exact hkeep hf (hp'.trans hp.symm) (fun _ => rfl)
  | enterFlush i o =>
    unfold enterFlush at hkeep hput ⊢
    dsimp only at hkeep hput ⊢
    split_ifs at hkeep hput ⊢ with hg he
    · by_cases hcur : s.session = some o
      · exact ⟨fun _ => covered_of_gated (by simp [gated, finish, setPhase, setJob, hcur]; exact hg),
          hi.wrapper⟩
      · exact hkeep (setPhase_frame ..) rfl (by simp [willFlush, hcur, hg])
    · exact ⟨fun h => absurd rfl h, hi.wrapper⟩
    · split
      · exact ⟨fun h => absurd rfl h, hi.wrapper⟩
      · exact ⟨fun h => absurd rfl h, hi.wrapper⟩
  | send i c o wc item rest delayed ok =>
    obtain ⟨p', hf, hq, hp'⟩ := trySend_frame (s := s) (j := j) (c := c) o wc item rest delayed ok
    exact hkeep hf hq (willFlush_mono (by simp [Phase.holds]) (by simp) hp')
  | store i c o items =>
    unfold storeUnsent at hput ⊢
    split at hput <;> exact hput ((setPhase_frame ..).putPending _)
      (willFlush_mono (by simp [Phase.holds]) (by simp) (.inr rfl)) hok
  | clear i wc text n =>
    unfold clearInitialInjectGate
    split
    · have hw : (s.setPhase j (.inject wc text n) .done).wrapper = none := hi.wrapper ‹_›
      exact ⟨fun _ => covered_of_not_live (by simp [live, hw]), fun _ => hw⟩
    · refine ⟨fun _ => covered_of_mem (x := ⟨.flush, .called⟩) ?_ rfl, hi.wrapper⟩
      exact List.mem_set (List.getElem?_eq_some_iff.1 hj).1 _

end InputState

/-- A call that starts does not lift the cover. -/
theorem CoverInv.start {s : InputState} (hi : CoverInv s) (c : Call) (p : Phase) :
    CoverInv (s.start c p) := by
  refine ⟨fun hne => ?_, hi.wrapper⟩
  have hc := hi.covered hne
  simp only [InputState.covered, Bool.or_eq_true, or_assoc] at hc ⊢
  refine hc.imp id (Or.imp (fun h => ?_) id)
  exact (List.any_append ..).trans (Bool.or_eq_true_iff.2 (.inl h))

theorem coverInv_step (s : InputState) (a : InputAction) (s' : InputState)
    (es : List InputEvent) (hi : CoverInv s) (hok : keepsCover s a = true)
    (hs : inputStep s a = some (s', es)) : CoverInv s' := by
  rcases inputStep_cases hs with ⟨j, c, p, ha, hj, hstep⟩ | ⟨ha, rfl⟩
  · exact InputState.coverInv_jobStep hi hj hstep hok ha
  cases a with
  | tick ms =>
    obtain ⟨rfl, -⟩ := by simpa [inputStep] using hs
    exact ⟨fun hne => by simpa [keepsCover, show s.pendingInput ≠ [] from hne] using hok, hi.wrapper⟩
  | submit | inject | flush =>
    obtain ⟨rfl, -⟩ := by simpa [inputStep] using hs
    exact hi.start _ _
  | disconnect wc =>
    obtain ⟨rfl, -⟩ := by simpa [inputStep] using hs
    split_ifs
    · exact ⟨fun _ => InputState.covered_of_not_live rfl, fun _ => rfl⟩
    · exact hi
  | reattach =>
    obtain ⟨rfl, -⟩ := by simpa [inputStep] using hs
    refine ⟨fun _ => InputState.covered_of_mem (x := ⟨.flush, .called⟩) ?_ rfl, by simp [InputState.reattach, InputState.start]⟩
    exact List.mem_append_right _ (List.mem_singleton_self _)
  | dismiss =>
    obtain ⟨rfl, -⟩ := by simpa [inputStep] using hs
    exact ⟨fun h => absurd rfl h, fun _ => rfl⟩
  | _ => simp [InputAction.job?] at ha

theorem quiet_not_flushComing {s : InputState} (h : s.quiet = true) : s.flushComing = false := by
  rw [InputState.quiet, List.all_eq_true] at h
  rw [InputState.flushComing, List.any_eq_false]
  intro job hj
  have hd : job.phase = .done := by simpa using h job hj
  rcases job with ⟨_ | _ | _, p⟩ <;> simp_all [InputState.willFlush]

/-- No input is left behind: after a run that keeps its cover, once all calls are
through, a working wrapper and an open gate leave the queue empty. -/
theorem no_stranded_input {gate : Bool} {now : ℕ} {as : List InputAction} {s : InputState}
    {es : List InputEvent} (hm : Meets inputStep (keepsCover · ·) (registered gate now) as)
    (hx : exec inputStep (registered gate now) as = some (s, es)) (hq : s.quiet = true)
    (hl : s.live = true) (hg : s.gated = false) : s.pendingInput = [] := by
  have hi : CoverInv s := exec_state_invariant coverInv_step
    ⟨fun h => absurd rfl h, fun h => by simp [registered, InputState.fresh] at h⟩ hm hx
  by_contra hne
  have hc := hi.covered hne
  simp [InputState.covered, hl, hg, quiet_not_flushComing hq] at hc

/-- A gate that is cleared in time: the text queued behind it is sent by the flush. -/
def clearedGateRun : List InputAction :=
  [.inject [], .attempt 0 false, .lookup 0, .lock 0, .enter 0, .send 0 true, .send 0 true,
    .submit ['x'], .lookup 1, .lock 1, .enter 1, .tick 90000, .echo 0 true, .clear 0, .lookup 0, .lock 0,
    .enter 0, .send 0 true]

theorem no_stranded_input_cleared_gate :
    ∃ s es, exec inputStep (registered true 0) clearedGateRun = some (s, es) ∧ s.pendingInput = [] :=
  ⟨_, _, rfl, no_stranded_input
    (show Meets inputStep (keepsCover · ·) (registered true 0) clearedGateRun by decide) rfl rfl rfl rfl⟩

/-- Text queued behind a gate that nobody clears stays queued when the gate has
aged out. -/
theorem stranded_by_aged_gate :
    ¬ ∀ gate now as s es, exec inputStep (registered gate now) as = some (s, es) → s.quiet = true →
      s.live = true → s.gated = false → s.pendingInput = [] := by
  intro h
  have hrun : (exec inputStep (registered true 0)
      [.submit ['x'], .lookup 0, .lock 0, .enter 0, .tick 90000]).map
        (fun r => (r.1.quiet, r.1.live, r.1.gated, r.1.pendingInput)) = some (true, true, false, [['x']]) := by
    decide
  obtain ⟨⟨s, es⟩, hx, hs⟩ := Option.map_eq_some_iff.1 hrun
  simp only [Prod.mk.injEq] at hs
  obtain ⟨hq, hl, hg, hp⟩ := hs
  rw [h _ _ _ s es hx hq hl hg] at hp
  cases hp

end ManyAiCli.Hub
