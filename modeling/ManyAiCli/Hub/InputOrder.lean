import ManyAiCli.Hub.InputGate
import ManyAiCli.Runs.Jobs

/-! Deferred input keeps its order. For one session object, the text the wrapper
got, then the queue, then what the call in the input lock has in hand, is the
text of all calls in the order they took the lock; only the oldest items of a
full queue are missing. The lock is what makes this work: while one call sends,
the queue is empty and stays so. -/

namespace ManyAiCli.Hub

open Runs

/-! ### Where the text is -/

def acceptedTexts (es : List InputEvent) : List Input :=
  es.filterMap fun | .accepted _ text => some text | _ => none

def sentTexts (es : List InputEvent) : List Input :=
  es.filterMap fun | .sent chunk => some chunk | _ => none

/-- What left the queue for good, in order: chunks sent and items dropped. -/
def ledger (es : List InputEvent) : List Input :=
  es.flatMap fun | .sent chunk => [chunk] | .queued dropped _ => dropped | _ => []

def droppedItems (es : List InputEvent) : List Input :=
  es.flatMap fun | .queued dropped _ => dropped | _ => []

def Call.text : Call → Input
  | submit _ combined => combined
  | inject _ text _ => text
  | flush => []

/-- The text a call still has in hand. -/
def Job.carried (job : Job) : Input :=
  match job.phase with
  | .locked _ => job.call.text
  | .sending _ _ (item :: rest) true => (splitBracketedPasteSubmit item).2 ++ rest.flatten
  | .sending _ _ items false => items.flatten
  | .storing _ items => items.flatten
  | _ => []

def InputState.inHand (s : InputState) : Input := s.jobs.flatMap Job.carried

/-- The call is past its decision and has the lock. -/
def Phase.busy : Phase → Bool
  | sending .. => true
  | storing .. => true
  | _ => false

/-- The session object a call works on. -/
def Phase.object : Phase → Option ℕ
  | waiting o => some o
  | p => p.holds

theorem splitBracketedPasteSubmit_append (text : Input) :
    (splitBracketedPasteSubmit text).1 ++ (splitBracketedPasteSubmit text).2 = text := by
  unfold splitBracketedPasteSubmit
  split_ifs with h
  · obtain ⟨t, rfl⟩ := h
    simp [← List.append_assoc]
  · exact List.append_nil _

theorem overflow_append_trimPending (q : List Input) : overflow q ++ trimPending q = q :=
  List.take_append_drop _ _

theorem trimPending_length (q : List Input) (h : overflow q ≠ []) :
    (trimPending q).length = maxPendingInputPerSession := by
  have : q.length - maxPendingInputPerSession ≠ 0 := fun h0 => h (by rw [overflow, h0, List.take_zero])
  rw [trimPending, List.length_drop]
  omega

theorem carried_of_holds_none {job : Job} (h : job.phase.holds = none) : job.carried = [] := by
  unfold Job.carried
  cases hp : job.phase <;> simp_all [Phase.holds]

theorem busy_holds {p : Phase} (h : p.busy = true) : p.holds ≠ none := by
  cases p <;> simp_all [Phase.busy, Phase.holds]

/-! ### One step of a call -/

/-- What a step of job `j` does to the text and to the lock. -/
structure TextStep (s s' : InputState) (j : ℕ) (job job' : Job) (es : List InputEvent) : Prop where
  jobs : s'.jobs = s.jobs.set j job'
  session : s'.session = s.session
  law : s.pendingInput.flatten ++ job.carried ++ (acceptedTexts es).flatten =
    (ledger es).flatten ++ s'.pendingInput.flatten ++ job'.carried
  busy : job'.phase.busy = true → s'.pendingInput = []
  lock : job'.phase.holds = job.phase.holds ∨ job'.phase.holds = none ∨
    ∃ o, job.phase = .waiting o ∧ job'.phase = .locked o ∧ s.locked o = false
  object : job'.phase.object = job.phase.object ∨ job'.phase.object = none ∨
    job'.phase.object = s.session
  quiet : job.phase.holds = none → s'.pendingInput = s.pendingInput ∧ ledger es = [] ∧
    (job'.phase.holds = none → acceptedTexts es = [])
  queued : ∀ d k, .queued d k ∈ es → ∃ q, d = overflow q ∧ k = trimPending q

namespace InputState

variable {s s' : InputState} {j o : ℕ} {c : Call} {p : Phase} {es : List InputEvent}

theorem finish_jobs (s : InputState) (j : ℕ) (c : Call) :
    ∃ job' : Job, s.finish j c = s.setJob j job' ∧ job'.phase.holds = none ∧
      job'.phase.object = none ∧ job'.carried = [] ∧ job'.phase.busy = false := by
  cases c <;> exact ⟨_, rfl, rfl, rfl, rfl, rfl⟩

/-- A call that ends by writing the queue. -/
theorem finish_putPending_text (q : List Input) (hp : p.holds ≠ none)
    (hq : s.pendingInput.flatten ++ Job.carried ⟨c, p⟩ = q.flatten) :
    ∃ job', TextStep s ((s.finish j c).putPending q).1 j ⟨c, p⟩ job' ((s.finish j c).putPending q).2 := by
  obtain ⟨job', hf, hh, ho, hc, hb⟩ := finish_jobs s j c
  refine ⟨job', ⟨?_, ?_, ?_, ?_, .inr (.inl hh), .inr (.inl ho), fun h => absurd h hp, ?_⟩⟩
  · rw [hf]; rfl
  · rw [hf]; rfl
  · have : (ledger ((s.finish j c).putPending q).2).flatten = (overflow q).flatten := by
      simp [putPending, ledger]
    rw [this, hc, hq]
    simp only [putPending, acceptedTexts, List.filterMap_cons, List.filterMap_nil, List.flatten_nil,
      List.append_nil, ← List.flatten_append, overflow_append_trimPending]
  · simp [hb]
  · simp only [putPending, List.mem_singleton, InputEvent.queued.injEq]
    rintro d k ⟨rfl, rfl⟩
    exact ⟨q, rfl, rfl⟩

theorem enterSubmit_text (wc : Option ℕ) (combined : Input) (bypass : Bool)
    (hc : c.text = combined) :
    ∃ job', TextStep s (s.enterSubmit j o c wc combined bypass).1 j ⟨c, .locked o⟩ job'
      (s.enterSubmit j o c wc combined bypass).2 := by
  unfold enterSubmit
  dsimp only
  split_ifs with h
  · exact finish_putPending_text _ (by simp [Phase.holds]) (by simp [Job.carried, hc])
  · rw [not_or, not_not] at h
    refine ⟨⟨c, .sending o wc [combined] false⟩, ⟨rfl, rfl, ?_, fun _ => h.2, .inl rfl, .inl rfl,
      fun h => absurd h (by simp [Phase.holds]), by simp⟩⟩
    simp [acceptedTexts, ledger, setPhase, setJob, h.2, Job.carried, hc]

/-- A step without text: the queue stays, nothing is in hand before or after. -/
theorem textStep_silent {job job' : Job} (hj : s'.jobs = s.jobs.set j job')
    (hs : s'.session = s.session) (hq : s'.pendingInput = s.pendingInput)
    (ha : acceptedTexts es = []) (hl : ledger es = []) (hk : ∀ d k, .queued d k ∉ es)
    (hc : job.carried = job'.carried) (hb : job'.phase.busy = false)
    (hh : job'.phase.holds = none)
    (ho : job'.phase.object = none ∨ job'.phase.object = s.session) :
    TextStep s s' j job job' es :=
  ⟨hj, hs, by rw [ha, hl, hq, hc]; simp, fun h => by simp [hb] at h, .inr (.inl hh),
    .inr ho, fun _ => ⟨hq, hl, fun _ => ha⟩, fun d k h => absurd h (hk d k)⟩

theorem enterFlush_text :
    ∃ job', TextStep s (s.enterFlush j o .flush).1 j ⟨.flush, .locked o⟩ job'
      (s.enterFlush j o .flush).2 := by
  have hn : (Job.mk .flush (.locked o)).phase.holds ≠ none := by simp [Phase.holds]
  unfold enterFlush
  dsimp only
  split_ifs with hg he
  · exact ⟨_, textStep_silent rfl rfl rfl rfl rfl (by simp) rfl rfl rfl (.inl rfl)⟩
  · refine ⟨_, textStep_silent rfl rfl ?_ rfl rfl (by simp) rfl rfl rfl (.inl rfl)⟩
    exact he.symm
  · rcases s.wrapper with _ | wc
    · refine ⟨⟨.flush, .storing o s.pendingInput⟩, ⟨rfl, rfl, ?_, fun _ => rfl, .inl rfl, .inl rfl,
        fun h => absurd h hn, by simp⟩⟩
      simp [acceptedTexts, ledger, setPhase, setJob, Job.carried, Call.text]
    · refine ⟨⟨.flush, .sending o (some wc) s.pendingInput false⟩, ⟨rfl, rfl, ?_, fun _ => rfl,
        .inl rfl, .inl rfl, fun h => absurd h hn, by simp⟩⟩
      simp [acceptedTexts, ledger, setPhase, setJob, Job.carried, Call.text]

/-- The rest of the items is sent next, or the call ends. -/
theorem sendNext_text {wc : Option ℕ} {rest : List Input} {f : List ℕ} (hp : p.holds = some o)
    (hq : s.pendingInput = []) (ha : acceptedTexts es = []) (hk : ∀ d k, .queued d k ∉ es)
    (hl : Job.carried ⟨c, p⟩ = (ledger es).flatten ++ rest.flatten) :
    ∃ job', TextStep s (sendNext { s with failed := f } j o c wc rest) j ⟨c, p⟩ job' es := by
  have hn : p.holds ≠ none := by simp [hp]
  unfold sendNext
  split_ifs with hr
  · obtain ⟨job', hf, hh, ho, hc, hb⟩ := finish_jobs { s with failed := f } j c
    refine ⟨job', ⟨by rw [hf]; rfl, by rw [hf]; rfl, ?_, by simp [hb], .inr (.inl hh),
      .inr (.inl ho), fun h => absurd h hn, fun d k h => absurd h (hk d k)⟩⟩
    rw [hf, hl, ha, hc, hr]
    simp [setJob, hq]
  · refine ⟨⟨c, .sending o wc rest false⟩, ⟨rfl, rfl, ?_, fun _ => hq, .inl hp.symm, ?_,
      fun h => absurd h hn, fun d k h => absurd h (hk d k)⟩⟩
    · rw [hl, ha]
      simp [setPhase, setJob, hq, Job.carried]
    · cases p <;> simp_all [Phase.holds, Phase.object]

theorem sendFailed_text {wc : Option ℕ} {rem : Input} {rest : List Input} (hp : p.holds = some o)
    (hq : s.pendingInput = []) (hl : Job.carried ⟨c, p⟩ = rem ++ rest.flatten) :
    ∃ job', TextStep s (s.sendFailed j o c wc rem rest) j ⟨c, p⟩ job' [] := by
  unfold sendFailed
  dsimp only
  split_ifs with hr
  · exact sendNext_text hp hq rfl (by simp) (by rw [hl, hr]; rfl)
  · refine ⟨⟨c, .storing o (rem :: rest)⟩, ⟨rfl, rfl, ?_, fun _ => hq, .inl hp.symm, ?_,
      fun h => absurd h (by simp [hp]), by simp⟩⟩
    · rw [hl]
      simp [acceptedTexts, ledger, setPhase, setJob, hq, Job.carried]
    · cases p <;> simp_all [Phase.holds, Phase.object]

/-- A write to the wrapper takes the chunk off what the call has in hand, or
fails and takes nothing. -/
theorem trySend_text {wc : Option ℕ} {item : Input} {rest : List Input} {delayed : Bool}
    (hq : s.pendingInput = []) (ok : Bool) :
    ∃ job', TextStep s (s.trySend j o c wc item rest delayed ok).1 j
      ⟨c, .sending o wc (item :: rest) delayed⟩ job' (s.trySend j o c wc item rest delayed ok).2 := by
  have hsplit := splitBracketedPasteSubmit_append item
  have hs (chunk : Input) : ∀ d k, InputEvent.queued d k ∉ [InputEvent.sent chunk] := by simp
  unfold trySend
  dsimp only
  rcases delayed with _ | _
  · rw [if_neg Bool.false_ne_true]
    split_ifs with hwc hok hdel
    · exact sendFailed_text rfl hq rfl
    · refine sendNext_text rfl hq rfl (hs _) ?_
      rw [hdel, List.append_nil] at hsplit
      simp [ledger, Job.carried, hsplit]
    · refine ⟨⟨c, .sending o wc (item :: rest) true⟩, ⟨rfl, rfl, ?_, fun _ => hq, .inl rfl, .inl rfl,
        fun h => absurd h (by simp [Phase.holds]), fun d k h => absurd h (hs _ d k)⟩⟩
      simp [setPhase, setJob, hq, Job.carried, acceptedTexts, ledger, ← List.append_assoc, hsplit]
    · exact sendFailed_text rfl hq rfl
  · rw [if_pos rfl]
    split_ifs with hok
    · exact sendNext_text rfl hq rfl (hs _) (by simp [ledger, Job.carried])
    · exact sendFailed_text rfl hq rfl

theorem storeUnsent_text {items : List Input} (hq : s.pendingInput = []) :
    ∃ job', TextStep s (s.storeUnsent j c items).1 j ⟨c, .storing o items⟩ job'
      (s.storeUnsent j c items).2 := by
  have hn : (Phase.storing o items).holds ≠ none := by simp [Phase.holds]
  unfold storeUnsent
  split
  · exact finish_putPending_text _ hn (by simp [hq, Job.carried])
  · exact finish_putPending_text _ hn (by simp [hq, Job.carried])

theorem clearInitialInjectGate_text (hp : p = .clearing) :
    ∃ job', TextStep s (s.clearInitialInjectGate j c) j ⟨c, p⟩ job' [] := by
  subst hp
  unfold clearInitialInjectGate
  split <;> exact ⟨_, textStep_silent rfl rfl rfl rfl rfl (by simp) rfl rfl rfl (.inl rfl)⟩

/-- Every step of a call moves text by the law. -/
theorem jobStep_text {a : InputAction} (h : JobStep s j c p a s' es)
    (hb : p.busy = true → s.pendingInput = []) : ∃ job', TextStep s s' j ⟨c, p⟩ job' es := by
  cases h with
  | lookupGone =>
    obtain ⟨job', hf, hh, ho, hc, hb⟩ := finish_jobs s j c
    rw [hf]
    exact ⟨job', textStep_silent rfl rfl rfl rfl rfl (by simp) hc.symm hb hh (.inl ho)⟩
  | lookup i c o hs =>
    exact ⟨_, textStep_silent rfl rfl rfl rfl rfl (by simp) rfl rfl rfl (.inr hs.symm)⟩
  | lock i c o ho =>
    refine ⟨⟨c, .locked o⟩, ⟨rfl, rfl, ?_, by simp [Phase.busy], .inr (.inr ⟨o, rfl, rfl, ho⟩),
      .inl rfl, fun _ => ⟨rfl, ?_, fun h => absurd h (by simp [Phase.holds])⟩, ?_⟩⟩
    · cases c <;> simp [Call.accepted, acceptedTexts, ledger, setPhase, setJob, Job.carried, Call.text]
    · cases c <;> simp [Call.accepted, ledger]
    · cases c <;> simp [Call.accepted]
  | enterSubmit i o wc combined => exact enterSubmit_text wc combined false rfl
  | enterInject i o wc text n => exact enterSubmit_text wc text true rfl
  | enterFlush => exact enterFlush_text
  | send i c o wc item rest delayed ok => exact trySend_text (hb rfl) ok
  | store => exact storeUnsent_text (hb rfl)
  | clear => exact clearInitialInjectGate_text rfl
  | _ => exact ⟨_, textStep_silent rfl rfl rfl rfl rfl (by simp) rfl rfl rfl (.inl rfl)⟩

end InputState

/-! ### A run of one session object -/

/-- Steps that leave the ID with its session object. -/
def oneSession (_ : InputState) (a : InputAction) : Prop := a ≠ .reattach ∧ a ≠ .dismiss

instance (s : InputState) (a : InputAction) : Decidable (oneSession s a) :=
  inferInstanceAs (Decidable (_ ∧ _))

/-- The text of all calls so far is where it should be, at most one call has the
lock, and while it is busy the queue is empty. -/
structure OrderInv (o : ℕ) (es : List InputEvent) (s : InputState) : Prop where
  session : s.session = some o
  object : ∀ job ∈ s.jobs, ∀ o', job.phase.object = some o' → o' = o
  exclusive : ∀ (i j : ℕ) (x y : Job), s.jobs[i]? = some x → s.jobs[j]? = some y → x.phase.holds ≠ none →
    y.phase.holds ≠ none → i = j
  busy : ∀ job ∈ s.jobs, job.phase.busy = true → s.pendingInput = []
  law : (acceptedTexts es).flatten = (ledger es).flatten ++ s.pendingInput.flatten ++ s.inHand
  queued : ∀ d k, .queued d k ∈ es → ∃ q, d = overflow q ∧ k = trimPending q

theorem acceptedTexts_append (es es' : List InputEvent) :
    acceptedTexts (es ++ es') = acceptedTexts es ++ acceptedTexts es' := List.filterMap_append

theorem ledger_append (es es' : List InputEvent) : ledger (es ++ es') = ledger es ++ ledger es' :=
  List.flatMap_append

theorem InputState.holds_none_of_not_locked {s : InputState} {o : ℕ} (h : s.locked o = false)
    {job : Job} (hj : job ∈ s.jobs) : job.phase.holds ≠ some o := by
  intro hh
  simp only [InputState.locked, List.any_eq_false, decide_eq_true_eq] at h
  exact h job hj hh

theorem holds_object {p : Phase} (h : p.holds ≠ none) : p.object = p.holds := by
  cases p <;> simp_all [Phase.holds, Phase.object]

/-- The step lemma for a step of a call. -/
theorem OrderInv.textStep {o : ℕ} {h : List InputEvent} {s s' : InputState} {j : ℕ} {job job' : Job}
    {es : List InputEvent} (hi : OrderInv o h s) (hj : s.jobs[j]? = some job)
    (ht : TextStep s s' j job job' es) : OrderInv o (h ++ es) s' := by
  have hmem : job ∈ s.jobs := List.mem_of_getElem? hj
  have hobj (x : Job) (hx : x ∈ s.jobs) (hh : x.phase.holds ≠ none) : x.phase.holds = some o := by
    obtain ⟨o', ho'⟩ := Option.ne_none_iff_exists'.1 hh
    rw [ho', hi.object x hx o' (by rw [holds_object hh, ho'])]
  -- when the job has the lock before or after, no other one has it
  have hothers (hh : job.phase.holds ≠ none ∨ job'.phase.holds ≠ none) (i : ℕ) (x : Job)
      (hx : s.jobs[i]? = some x) (hne : i ≠ j) : x.phase.holds = none := by
    by_contra hxh
    have hx' : x.phase.holds = some o := hobj x (List.mem_of_getElem? hx) hxh
    by_cases hjh : job.phase.holds = none
    · obtain heq | hnone | ⟨o', hw, hl, hfree⟩ := ht.lock
      · simp [heq, hjh] at hh
      · simp [hnone, hjh] at hh
      · obtain rfl : o' = o := hi.object job hmem o' (by rw [hw]; rfl)
        exact InputState.holds_none_of_not_locked hfree (List.mem_of_getElem? hx) hx'
    · exact hne (hi.exclusive i j x job hx hj hxh hjh)
  refine ⟨ht.session.trans hi.session, ?_, ?_, ?_, ?_, ?_⟩
  · intro x hx o' ho'
    rw [ht.jobs] at hx
    rcases List.mem_or_eq_of_mem_set hx with hx | rfl
    · exact hi.object x hx o' ho'
    · obtain heq | hnone | hses := ht.object
      · exact hi.object job hmem o' (heq ▸ ho')
      · simp [hnone] at ho'
      · rw [hses, hi.session] at ho'
        exact (Option.some.inj ho').symm
  · intro i k x y hx hy hxh hyh
    rw [ht.jobs] at hx hy
    rcases getElem?_set_cases hx with ⟨hij, hx'⟩ | ⟨hij, hx'⟩ <;>
      rcases getElem?_set_cases hy with ⟨hkj, hy'⟩ | ⟨hkj, hy'⟩
    · exact hij.trans hkj.symm
    · exact absurd (hothers (.inr (hx' ▸ hxh)) k y hy' hkj) hyh
    · exact absurd (hothers (.inr (hy' ▸ hyh)) i x hx' hij) hxh
    · exact hi.exclusive i k x y hx' hy' hxh hyh
  · intro x hx hb
    rw [ht.jobs] at hx
    obtain ⟨i, hx⟩ := List.mem_iff_getElem?.1 hx
    rcases getElem?_set_cases hx with ⟨-, rfl⟩ | ⟨hne, hx⟩
    · exact ht.busy hb
    · have hjh : job.phase.holds = none := by
        by_contra hjh
        exact busy_holds hb (hothers (.inl hjh) i x hx hne)
      rw [(ht.quiet hjh).1]
      exact hi.busy x (List.mem_of_getElem? hx) hb
  · rw [acceptedTexts_append, ledger_append, List.flatten_append, List.flatten_append, hi.law]
    unfold InputState.inHand
    rw [ht.jobs]
    by_cases hh : job.phase.holds ≠ none ∨ job'.phase.holds ≠ none
    · obtain ⟨h1, h2⟩ := flatMap_set_of_others (w := job') hj fun i x hx hne =>
        carried_of_holds_none (hothers hh i x hx hne)
      rw [h1, h2]
      simpa only [List.append_assoc, List.append_cancel_left_eq] using ht.law
    · rw [not_or, not_not, not_not] at hh
      obtain ⟨hq, hl, ha⟩ := ht.quiet hh.1
      rw [flatMap_set_of_eq hj ((carried_of_holds_none hh.2).trans (carried_of_holds_none hh.1).symm), hq, hl,
        ha hh.2]
      simp
  · intro d k hd
    rcases List.mem_append.1 hd with hd | hd
    · exact hi.queued d k hd
    · exact ht.queued d k hd

/-- A new call has nothing in hand and no lock. -/
theorem OrderInv.start {o : ℕ} {h : List InputEvent} {s : InputState} (hi : OrderInv o h s) (c : Call)
    {p : Phase} (hp : p.object = none) : OrderInv o h (s.start c p) := by
  have hh : p.holds = none := by
    by_contra hh
    exact hh ((holds_object hh).symm.trans hp)
  have hc : Job.carried ⟨c, p⟩ = [] := carried_of_holds_none hh
  have hold (i : ℕ) (x : Job) (hx : (s.jobs ++ [⟨c, p⟩])[i]? = some x) (hxh : x.phase.holds ≠ none) :
      s.jobs[i]? = some x := by
    rcases List.getElem?_append .. ▸ hx with hx
    split_ifs at hx with hlt
    · exact hx
    · obtain rfl : x = ⟨c, p⟩ := by simpa using List.mem_of_getElem? hx
      exact absurd hh hxh
  refine ⟨hi.session, ?_, ?_, ?_, ?_, hi.queued⟩
  · intro x hx o' ho'
    rcases List.mem_append.1 hx with hx | hx
    · exact hi.object x hx o' ho'
    · obtain rfl := List.mem_singleton.1 hx
      simp [hp] at ho'
  · intro i k x y hx hy hxh hyh
    exact hi.exclusive i k x y (hold i x hx hxh) (hold k y hy hyh) hxh hyh
  · intro x hx hb
    obtain ⟨i, hi'⟩ := List.mem_iff_getElem?.1 hx
    exact hi.busy x (List.mem_of_getElem? (hold i x hi' (busy_holds hb))) hb
  · simp only [hi.law, InputState.inHand, InputState.start, List.flatMap_append, List.flatMap_cons,
      List.flatMap_nil, hc, List.append_nil]

theorem orderInv_step {o : ℕ} (h : List InputEvent) (s : InputState) (a : InputAction) (s' : InputState)
    (es : List InputEvent) (hi : OrderInv o h s) (hok : oneSession s a)
    (hs : inputStep s a = some (s', es)) : OrderInv o (h ++ es) s' := by
  rcases inputStep_cases hs with ⟨j, c, p, -, hj, hstep⟩ | ⟨ha, rfl⟩
  · obtain ⟨job', ht⟩ := InputState.jobStep_text hstep fun hb =>
      hi.busy _ (List.mem_of_getElem? hj) hb
    exact hi.textStep hj ht
  · rw [List.append_nil]
    cases a with
    | tick | submit | inject | flush | disconnect | reattach | dismiss =>
      obtain ⟨rfl, -⟩ := by simpa [inputStep] using hs
      first
        | exact hi.start _ rfl
        | exact absurd rfl hok.1
        | exact absurd rfl hok.2
        | (split_ifs <;> exact ⟨hi.session, hi.object, hi.exclusive, hi.busy, hi.law, hi.queued⟩)
        | exact ⟨hi.session, hi.object, hi.exclusive, hi.busy, hi.law, hi.queued⟩
    | _ => simp [InputAction.job?] at ha

theorem orderInv_fresh (now : ℕ) (objects : List Session) (o : ℕ) (wrapper : Option ℕ)
    (failed : List ℕ) : OrderInv o [] (.fresh now objects o wrapper failed) :=
  ⟨rfl, by simp [InputState.fresh], by simp [InputState.fresh], by simp [InputState.fresh], rfl,
    by simp⟩

theorem ledger_of_no_overflow {es : List InputEvent} (h : droppedItems es = []) :
    ledger es = sentTexts es := by
  induction es with
  | nil => rfl
  | cons e es ih =>
    obtain ⟨he, hes⟩ := List.append_eq_nil_iff.1 h
    cases e with
    | queued d k =>
      obtain rfl : d = [] := he
      simpa [ledger, sentTexts] using ih hes
    | _ => simpa [ledger, sentTexts] using ih hes

theorem inHand_of_idle {s : InputState} (h : ∀ o, s.locked o = false) : s.inHand = [] := by
  rw [InputState.inHand, List.flatMap_eq_nil_iff]
  intro job hj
  apply carried_of_holds_none
  by_contra hh
  obtain ⟨o, ho⟩ := Option.ne_none_iff_exists'.1 hh
  exact InputState.holds_none_of_not_locked (h o) hj ho

/-- Deferred input is neither lost, duplicated nor reordered. After any run of one
session object, what went to wrappers, the queue and the text in hand of the call
in the lock, if there is one, make up the text of all calls in the order in which
they took the lock. A queue write that loses items loses the oldest of a queue
that stays full. -/
theorem deferred_input_in_order {now : ℕ} {objects : List Session} {o : ℕ} {wrapper : Option ℕ}
    {failed : List ℕ} {as : List InputAction} {s : InputState} {es : List InputEvent}
    (hm : Meets inputStep oneSession (.fresh now objects o wrapper failed) as)
    (hx : exec inputStep (.fresh now objects o wrapper failed) as = some (s, es)) :
    (acceptedTexts es).flatten = (ledger es).flatten ++ s.pendingInput.flatten ++ s.inHand ∧
      (droppedItems es = [] →
        (sentTexts es).flatten ++ s.pendingInput.flatten ++ s.inHand = (acceptedTexts es).flatten) ∧
      ((∀ o', s.locked o' = false) → s.inHand = []) ∧
      ∀ d k, .queued d k ∈ es → d ≠ [] → k.length = maxPendingInputPerSession := by
  have hi := exec_invariant (h := []) (orderInv_step (o := o)) (orderInv_fresh ..) hm hx
  rw [List.nil_append] at hi
  refine ⟨hi.law, fun h => ?_, inHand_of_idle, fun d k hd => ?_⟩
  · rw [hi.law, ledger_of_no_overflow h]
  · obtain ⟨q, rfl, rfl⟩ := hi.queued d k hd
    exact trimPending_length q

/-- A paste of which only the enter key fails is completed by the next flush. -/
def brokenPasteRun : List InputAction :=
  [.submit (bracketedPasteEnd ++ ['\r']), .lookup 0, .lock 0, .enter 0, .send 0 true, .send 0 false,
    .store 0, .flush, .lookup 1, .lock 1, .enter 1, .send 1 true]

theorem deferred_input_in_order_broken_paste :
    ∃ s es, exec inputStep (registered false 0) brokenPasteRun = some (s, es) ∧
      (sentTexts es).flatten ++ s.pendingInput.flatten ++ s.inHand = bracketedPasteEnd ++ ['\r'] :=
  ⟨_, _, rfl, (deferred_input_in_order (o := 0)
    (show Meets inputStep oneSession (.fresh 0 [⟨false, 0⟩] 0 (some 0) []) brokenPasteRun by decide)
    rfl).2.1 (by decide)⟩

end ManyAiCli.Hub
