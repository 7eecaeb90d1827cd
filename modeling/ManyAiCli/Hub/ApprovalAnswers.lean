import ManyAiCli.Hub.OneTapToken
import ManyAiCli.Runs.Jobs

/-! The answers that the server gives to approvals. A batch request and the policy choose
an answer, consume its approval and hand the answer over at three different moments, and a
one-tap action looks its session up before it locks it. An approval is answered at most
once, while it is pending, as long as nothing comes between. -/

namespace ManyAiCli.Hub.Approvals

open Text Approval Runs

/-! ### Answers and detections -/

/-- Whether an approval is pending for the one who answers it: it was the last to be
detected and nobody else has consumed it since. -/
def pendingStep (who : Option ℕ) (sig : List Char) (pending : Bool) : Event → Bool
  | .detected sig' => sig' = sig
  | .consumed who' sig' => pending && (sig' ≠ sig || who' = who)
  | _ => pending

def pendingFor (who : Option ℕ) (sig : List Char) (h : List Event) : Bool :=
  h.foldl (pendingStep who sig) false

/-- The answers that the wrapper was given since the last detection. -/
def answersStep (sig : List Char) (n : ℕ) : Event → ℕ
  | .detected sig' => if sig' = sig then 0 else n
  | .handed _ sig' _ _ delivered => if sig' = sig && delivered then n + 1 else n
  | _ => n

def answersSince (sig : List Char) (h : List Event) : ℕ := h.foldl (answersStep sig) 0

/-- An answer is handed over while its approval is on the screen and pending, and it is
the first that gets to the wrapper since the approval was detected. -/
def Timely (h : List Event) : Event → Prop
  | .handed who sig _ shown delivered =>
    shown = true ∧ pendingFor (some who) sig h = true ∧ (delivered = true → answersSince sig h = 0)
  | _ => True

instance (h : List Event) : (e : Event) → Decidable (Timely h e)
  | .handed .. => inferInstanceAs (Decidable (_ ∧ _ ∧ (_ → _)))
  | .detected _ | .consumed .. | .tapped .. => .isTrue trivial

/-- All answers of a run are timely. -/
def Answered (h : List Event) : List Event → Prop
  | [] => True
  | e :: es => Timely h e ∧ Answered (h ++ [e]) es

instance Answered.decidable (h es : List Event) : Decidable (Answered h es) :=
  match es with
  | [] => .isTrue trivial
  | e :: es =>
    have := Answered.decidable (h ++ [e]) es
    inferInstanceAs (Decidable (Timely h e ∧ Answered (h ++ [e]) es))

def AnsweredOnce (es : List Event) : Prop := Answered [] es

instance (es : List Event) : Decidable (AnsweredOnce es) := Answered.decidable [] es

variable {who : Option ℕ} {sig : List Char} {h es : List Event} {e : Event}

theorem answered_append (g : List Event) : Answered h (es ++ g) ↔ Answered h es ∧ Answered (h ++ es) g := by
  induction es generalizing h with
  | nil => simp [Answered]
  | cons e es ih => rw [List.cons_append, Answered, ih, Answered, and_assoc, List.append_assoc]; rfl

theorem answeredOnce_append (g : List Event) : AnsweredOnce (es ++ g) ↔ AnsweredOnce es ∧ Answered es g :=
  answered_append g

theorem pendingFor_append :
    pendingFor who sig (h ++ es) = es.foldl (pendingStep who sig) (pendingFor who sig h) :=
  List.foldl_append

theorem answersSince_append : answersSince sig (h ++ es) = es.foldl (answersStep sig) (answersSince sig h) :=
  List.foldl_append

/-- An approval with the signature is pending, for all who may answer it. -/
structure Pending (h : List Event) (sig : List Char) : Prop where
  forAll : ∀ who, pendingFor who sig h = true
  unanswered : answersSince sig h = 0

theorem pending_detected : Pending (h ++ [.detected sig]) sig :=
  ⟨fun who => by simp [pendingFor_append, pendingStep], by simp [answersSince_append, answersStep]⟩

theorem Pending.consumed {sig' : List Char} (hp : Pending h sig) (hne : sig' ≠ sig) :
    Pending (h ++ [.consumed who sig']) sig :=
  ⟨fun who' => by simp [pendingFor_append, pendingStep, hp.forAll, hne],
    by simpa [answersSince_append, answersStep] using hp.unanswered⟩

namespace Job

/-- The approval that was consumed for an answer on its way to the wrapper. -/
def onWay : Job → Option (List Char)
  | .consumed sig _ _ => some sig
  | _ => none

end Job

namespace State

variable (sha256Hex : List Char → List Char) (info : SessionInfo)

/-- The answers on their way are for what the lines show. -/
def showsOnWay (s : State) (lines : List Line) : Bool :=
  s.jobs.all fun job => job.onWay.all fun sig =>
    (detectNativeApproval sha256Hex info.provider lines).any (·.sig = sig)

/-- Nothing comes between: an approval is consumed while it is pending in the session and on
the screen, and until its answer is handed over it stays on the screen, it is not consumed
again and nothing is detected anew; a one-tap action gets as far as the wrapper with the
session that has the ID now, and with a good token. -/
def undisturbed (s : State) : Action → Bool
  | .consume j =>
    match s.jobs[j]? with
    | some (.answer sig _ _) => s.current.any (·.nativeApprovalSig = sig) && s.shows sha256Hex info sig
    | _ => true
  | .output lines _ | .resize lines | .historyReset lines | .reattach lines =>
    s.showsOnWay sha256Hex info lines
  | .dismiss => s.jobs.all fun job => job.onWay.isNone
  | .uiConsumed sig => s.jobs.all fun job => job.onWay ≠ some sig
  | .handle j =>
    match s.jobs[j]?, s.current with
    | some (.scanned approval false), some ses =>
      !(detection s.now approval ses).2 || s.jobs.all fun job => job.onWay.isNone
    | _, _ => true
  | .apply j ok okDelayed =>
    match s.jobs[j]? with
    | some (.tapping claim o) =>
      match (s.objects[o]?).map (s.oneTapInput sha256Hex info claim) with
      | some (.ok _) => s.session = some o && s.tokenGood sha256Hex info (.apply j ok okDelayed)
      | _ => true
    | _ => true
  | _ => true

/-! ### Jobs and the current session -/

variable {sha256Hex info} {s t : State} {f : Session → Session} {j k : ℕ} {job : Job} {ses : Session}
  {sig' : List Char}

/-- Job `j` has consumed an approval and is about to hand over its answer. -/
def OnWay (s : State) (j : ℕ) (sig : List Char) : Prop := (s.jobs[j]?).bind Job.onWay = some sig

theorem onWay_setJob (hk : (s.setJob j job).OnWay k sig) :
    (k = j ∧ job.onWay = some sig) ∨ (k ≠ j ∧ s.OnWay k sig) := by
  obtain ⟨job', hjob, hsig⟩ := Option.bind_eq_some_iff.mp hk
  rcases getElem?_set_cases hjob with ⟨hkj, rfl⟩ | ⟨hne, hjob⟩
  · exact .inl ⟨hkj, hsig⟩
  · exact .inr ⟨hne, Option.bind_eq_some_iff.mpr ⟨job', hjob, hsig⟩⟩

theorem onWay_of_setJob (hj : job.onWay = none) (hk : (s.setJob j job).OnWay k sig) :
    k ≠ j ∧ s.OnWay k sig := by
  refine (onWay_setJob hk).resolve_left fun h => ?_
  rw [hj] at h
  cases h.2

theorem onWay_of_start (hj : job.onWay = none) (hk : (s.start job).OnWay k sig) : s.OnWay k sig := by
  unfold OnWay start at *
  rw [List.getElem?_append] at hk
  split_ifs at hk with hlt
  · exact hk
  · rw [List.getElem?_singleton] at hk
    split_ifs at hk with hzero
    · rw [Option.bind_some, hj] at hk
      cases hk
    · cases hk

theorem mem_of_onWay (hk : s.OnWay k sig) : ∃ job ∈ s.jobs, job.onWay = some sig := by
  obtain ⟨job, hjob, hsig⟩ := Option.bind_eq_some_iff.mp hk
  exact ⟨job, List.mem_of_getElem? hjob, hsig⟩

@[simp] theorem onWay_modifyCurrent : (s.modifyCurrent f).OnWay k sig ↔ s.OnWay k sig := by
  rw [OnWay, modifyCurrent_jobs, OnWay]

theorem current_modifyCurrent : (s.modifyCurrent f).current = s.current.map f := by
  unfold modifyCurrent current
  cases hs : s.session with
  | none => simp only [hs, Option.bind_none, Option.map_none]
  | some o => simp only [Option.bind_some, List.getElem?_modify, if_true]; rfl

theorem shows_iff : s.shows sha256Hex info sig = true ↔ ∃ ses approval,
    s.current = some ses ∧ onScreen sha256Hex info ses = some approval ∧ approval.sig = sig := by
  unfold shows
  cases hs : s.current.bind (onScreen sha256Hex info) with
  | none =>
    refine ⟨fun h => Bool.noConfusion h, fun ⟨ses, approval, hses, hon, _⟩ => ?_⟩
    rw [hses, Option.bind_some, hon] at hs
    cases hs
  | some approval =>
    obtain ⟨ses, hses, hon⟩ := Option.bind_eq_some_iff.mp hs
    rw [decide_eq_true_eq]
    constructor
    · exact fun h => ⟨ses, approval, hses, hon, h⟩
    · rintro ⟨ses', approval', hses', hon', rfl⟩
      rw [hses', Option.bind_some, hon'] at hs
      rw [Option.some_inj.mp hs]

theorem shows_modifyCurrent (hvt : ∀ ses, (f ses).vt = ses.vt) :
    (s.modifyCurrent f).shows sha256Hex info sig = s.shows sha256Hex info sig := by
  unfold shows
  rw [current_modifyCurrent]
  cases s.current with
  | none => rfl
  | some ses => simp only [Option.map_some, Option.bind_some, onScreen, hvt]

/-- An approval has a signature. -/
theorem sig_ne_nil (hsha : ∀ text, sha256Hex text ≠ []) (hs : s.shows sha256Hex info sig = true) :
    sig ≠ [] := by
  obtain ⟨ses, approval, -, hon, rfl⟩ := shows_iff.mp hs
  obtain ⟨lines, -, hd⟩ := Option.bind_eq_some_iff.mp hon
  simp only [detectNativeApproval] at hd
  split at hd
  · cases hd
  · split_ifs at hd
    obtain rfl := Option.some_inj.mp hd
    simpa using hsha _

/-! ### What holds on the way -/

/-- What the session calls its approval is pending, and so is what has been consumed for the
one answer on its way. -/
structure AnswerInv (sha256Hex : List Char → List Char) (info : SessionInfo) (h : List Event) (s : State) :
    Prop where
  answered : AnsweredOnce h
  pending : ∀ ses, s.current = some ses → ses.nativeApprovalSig ≠ [] → Pending h ses.nativeApprovalSig
  shown : ∀ j sig, s.OnWay j sig → s.shows sha256Hex info sig = true
  consumed : ∀ j sig, s.OnWay j sig → pendingFor (some j) sig h = true ∧ answersSince sig h = 0
  cleared : ∀ j sig ses, s.OnWay j sig → s.current = some ses → ses.nativeApprovalSig = []
  one : ∀ j k sig sig', s.OnWay j sig → s.OnWay k sig' → j = k

/-- Jobs end or start, approvals are forgotten. -/
theorem AnswerInv.frame (hi : AnswerInv sha256Hex info h s) (hjobs : ∀ j sig, t.OnWay j sig → s.OnWay j sig)
    (hses : ∀ ses, t.current = some ses → ses.nativeApprovalSig ≠ [] →
      ∃ ses', s.current = some ses' ∧ ses'.nativeApprovalSig = ses.nativeApprovalSig)
    (hshows : ∀ j sig, t.OnWay j sig → t.shows sha256Hex info sig = true) : AnswerInv sha256Hex info h t where
  answered := hi.answered
  pending ses hs hne := by
    obtain ⟨ses', hs', heq⟩ := hses ses hs hne
    rw [← heq]
    exact hi.pending ses' hs' (heq ▸ hne)
  shown := hshows
  consumed j sig hj := hi.consumed j sig (hjobs j sig hj)
  cleared j sig ses hj hs := by
    by_contra hne
    obtain ⟨ses', hs', heq⟩ := hses ses hs hne
    exact hne (heq ▸ hi.cleared j sig ses' (hjobs j sig hj) hs')
  one j k sig sig' hj hk := hi.one j k sig sig' (hjobs j sig hj) (hjobs k sig' hk)

/-- A step without events. -/
theorem answerInv_quiet {u : State} (hs : some (u, ([] : List Event)) = some (t, es))
    (hi : AnswerInv sha256Hex info h u) : AnswerInv sha256Hex info (h ++ es) t := by
  obtain ⟨rfl, rfl⟩ := Prod.mk.inj (Option.some_inj.mp hs)
  rwa [List.append_nil]

/-- The session is left alone. -/
theorem AnswerInv.same (hi : AnswerInv sha256Hex info h s) (hcur : t.current = s.current)
    (hjobs : ∀ j sig, t.OnWay j sig → s.OnWay j sig) : AnswerInv sha256Hex info h t :=
  hi.frame hjobs (fun ses hs _ => ⟨ses, hcur ▸ hs, rfl⟩) fun j sig hj => by
    rw [shows, hcur]
    exact hi.shown j sig (hjobs j sig hj)

theorem AnswerInv.setJob (hi : AnswerInv sha256Hex info h s) (hj : job.onWay = none) :
    AnswerInv sha256Hex info h (s.setJob j job) :=
  hi.same rfl fun _ _ hk => (onWay_of_setJob hj hk).2

theorem AnswerInv.start (hi : AnswerInv sha256Hex info h s) (hj : job.onWay = none) :
    AnswerInv sha256Hex info h (s.start job) :=
  hi.same rfl fun _ _ hk => onWay_of_start hj hk

/-- The session map's session changes, but not its screen, and keeps or forgets its approval. -/
theorem AnswerInv.modifyCurrent (hi : AnswerInv sha256Hex info h s) (hvt : ∀ ses, (f ses).vt = ses.vt)
    (hf : ∀ ses, s.current = some ses →
      (f ses).nativeApprovalSig = ses.nativeApprovalSig ∨ (f ses).nativeApprovalSig = []) :
    AnswerInv sha256Hex info h (s.modifyCurrent f) := by
  refine hi.frame (fun _ _ => onWay_modifyCurrent.mp) (fun ses hs hne => ?_) fun j sig hj => ?_
  · rw [current_modifyCurrent] at hs
    obtain ⟨ses', hs', rfl⟩ := Option.map_eq_some_iff.mp hs
    exact ⟨ses', hs', ((hf ses' hs').resolve_right hne).symm⟩
  · rw [shows_modifyCurrent hvt]
    exact hi.shown j sig (onWay_modifyCurrent.mp hj)

/-- No answer is on its way and the session has no approval. -/
theorem answerInv_idle (ha : AnsweredOnce h) (hno : ∀ k sig, ¬ s.OnWay k sig)
    (hclear : ∀ ses, s.current = some ses → ses.nativeApprovalSig = []) : AnswerInv sha256Hex info h s where
  answered := ha
  pending ses hs hne := absurd (hclear ses hs) hne
  shown k sig hk := absurd hk (hno k sig)
  consumed k sig hk := absurd hk (hno k sig)
  cleared k sig _ hk := absurd hk (hno k sig)
  one j _ sig _ hj := absurd hj (hno j sig)

theorem answerInv_registered (now : ℕ) : AnswerInv sha256Hex info [] (registered now) := by
  refine answerInv_idle trivial (fun k sig hk => ?_) fun ses hs => ?_
  · cases hk
  · cases hs
    rfl

/-- While the session has an approval, no answer is on its way. -/
theorem AnswerInv.not_onWay (hi : AnswerInv sha256Hex info h s) (hs : s.current = some ses)
    (hne : ses.nativeApprovalSig ≠ []) (hk : s.OnWay k sig) : False := hne (hi.cleared k sig ses hk hs)

/-! ### The screen -/

theorem shows_of_showsOnWay {lines : List Line} (hok : s.showsOnWay sha256Hex info lines = true)
    (hk : s.OnWay k sig) (hs : t.current = some ses) (hvt : ses.vt = some lines) :
    t.shows sha256Hex info sig = true := by
  obtain ⟨job, hm, hsig⟩ := mem_of_onWay hk
  have hjob := List.all_eq_true.mp hok job hm
  rw [hsig, Option.all_some] at hjob
  obtain ⟨approval, hd, heq⟩ := Option.any_eq_true _ _ |>.mp hjob
  exact shows_iff.mpr ⟨ses, approval, hs, by rw [onScreen, hvt]; exact hd, of_decide_eq_true heq⟩

/-- The screen changes to lines that still show what is to be answered. -/
theorem AnswerInv.screen {lines : List Line} (hi : AnswerInv sha256Hex info h s)
    (hok : s.showsOnWay sha256Hex info lines = true)
    (hvt : ∀ ses old, ses.vt = some old → (f ses).vt = some lines)
    (hf : ∀ ses, (f ses).nativeApprovalSig = ses.nativeApprovalSig ∨ (f ses).nativeApprovalSig = []) :
    AnswerInv sha256Hex info h (s.modifyCurrent f) := by
  refine hi.frame (fun _ _ => onWay_modifyCurrent.mp) (fun ses hs hne => ?_) fun j sig hj => ?_
  · rw [current_modifyCurrent] at hs
    obtain ⟨ses', hs', rfl⟩ := Option.map_eq_some_iff.mp hs
    exact ⟨ses', hs', ((hf ses').resolve_right hne).symm⟩
  · have hj := onWay_modifyCurrent.mp hj
    obtain ⟨ses, approval, hs, hon, -⟩ := shows_iff.mp (hi.shown j sig hj)
    obtain ⟨old, hold, -⟩ := Option.bind_eq_some_iff.mp hon
    refine shows_of_showsOnWay hok hj ?_ (hvt ses old hold)
    rw [current_modifyCurrent, hs, Option.map_some]

theorem AnswerInv.output {lines : List Line} (hi : AnswerInv sha256Hex info h s) (scan : Bool)
    (hok : s.showsOnWay sha256Hex info lines = true) :
    AnswerInv sha256Hex info h (s.output sha256Hex info lines scan) := by
  unfold State.output
  split
  · exact hi
  · have hscreen : AnswerInv sha256Hex info h (s.modifyCurrent fun ses => { ses with vt := some lines }) :=
      hi.screen hok (fun _ _ _ => rfl) fun _ => .inl rfl
    dsimp only
    split_ifs
    · exact hscreen.start rfl
    · exact hscreen

theorem AnswerInv.reattach {lines : List Line} (hi : AnswerInv sha256Hex info h s)
    (hok : s.showsOnWay sha256Hex info lines = true) : AnswerInv sha256Hex info h (s.reattach lines) := by
  have hcur : (s.reattach lines).current = some (.new (some lines)) := by
    simp [State.reattach, current]
  refine hi.frame (fun _ _ hj => hj) (fun ses hs hne => ?_) fun j sig hj => ?_
  · rw [hcur] at hs
    obtain rfl := Option.some_inj.mp hs
    exact absurd rfl hne
  · exact shows_of_showsOnWay hok hj hcur rfl

theorem not_onWay_of_all (hok : (s.jobs.all fun job => job.onWay.isNone) = true) : ¬ s.OnWay k sig := by
  intro hk
  obtain ⟨job, hm, hsig⟩ := mem_of_onWay hk
  have hjob := List.all_eq_true.mp hok job hm
  rw [hsig] at hjob
  cases hjob

theorem AnswerInv.dismiss (hi : AnswerInv sha256Hex info h s)
    (hok : (s.jobs.all fun job => job.onWay.isNone) = true) :
    AnswerInv sha256Hex info h { s with session := none, wrapper := none } :=
  answerInv_idle hi.answered (fun _ _ hk => not_onWay_of_all hok hk) fun _ hs => by cases hs

/-! ### Detection and consumption -/

/-- An event that is no detection, no consumption and no answer that gets to the wrapper. -/
theorem AnswerInv.silent (hi : AnswerInv sha256Hex info h s) (ht : Timely h e)
    (hpending : ∀ who sig b, pendingStep who sig b e = b) (hanswers : ∀ sig n, answersStep sig n e = n) :
    AnswerInv sha256Hex info (h ++ [e]) s := by
  have hp : ∀ who sig, pendingFor who sig (h ++ [e]) = pendingFor who sig h := fun who sig =>
    pendingFor_append.trans (hpending who sig _)
  have ha : ∀ sig, answersSince sig (h ++ [e]) = answersSince sig h := fun sig =>
    answersSince_append.trans (hanswers sig _)
  refine ⟨(answeredOnce_append _).mpr ⟨hi.answered, ht, trivial⟩, fun ses hs hne => ?_, hi.shown,
    fun k sig hk => ?_, hi.cleared, hi.one⟩
  · obtain ⟨hforAll, hunanswered⟩ := hi.pending ses hs hne
    exact ⟨fun who => (hp who _).trans (hforAll who), (ha _).trans hunanswered⟩
  · rw [hp, ha]
    exact hi.consumed k sig hk

theorem AnswerInv.tapped (hi : AnswerInv sha256Hex info h s) (nonce : ℕ) (err : Option OneTapError)
    (wrote kept : Bool) : AnswerInv sha256Hex info (h ++ [.tapped nonce err wrote kept]) s :=
  hi.silent trivial (fun _ _ _ => rfl) fun _ _ => rfl

theorem AnswerInv.undelivered (hi : AnswerInv sha256Hex info h s) (hp : Pending h sig) (j : ℕ)
    (input : List Char) : AnswerInv sha256Hex info (h ++ [.handed j sig input true false]) s :=
  hi.silent ⟨rfl, hp.forAll _, nofun⟩ (fun _ _ _ => rfl) fun _ _ => by simp [answersStep]

/-- What a result of a scan does to the session's approval, if it is not found anew. -/
theorem detection_sig {now : ℕ} {approval : Option NativeApproval}
    (hold : (detection now approval ses).2 = false) :
    (detection now approval ses).1.nativeApprovalSig = ses.nativeApprovalSig ∨
      (detection now approval ses).1.nativeApprovalSig = [] := by
  unfold detection at hold ⊢
  cases approval with
  | none => dsimp only; split_ifs <;> simp
  | some approval =>
    dsimp only at hold ⊢
    split_ifs at hold ⊢
    · exact .inl rfl
    · exact .inl rfl
    · exact .inl (not_not.mp (of_decide_eq_false hold)).symm

theorem detection_new {now : ℕ} {approval : NativeApproval}
    (hnew : (detection now (some approval) ses).2 = true) :
    (detection now (some approval) ses).1.nativeApprovalSig = approval.sig := by
  unfold detection at hnew ⊢
  dsimp only at hnew ⊢
  split_ifs at hnew ⊢
  rfl

theorem detection_vt (now : ℕ) (approval : Option NativeApproval) (ses : Session) :
    (detection now approval ses).1.vt = ses.vt := by
  unfold detection
  cases approval with
  | none => dsimp only; split_ifs <;> rfl
  | some approval => dsimp only; split_ifs <;> rfl

theorem detection_none (now : ℕ) (ses : Session) : (detection now none ses).2 = false := by
  unfold detection
  dsimp only
  split_ifs <;> rfl

/-- A result of a scan that is not found anew. -/
theorem AnswerInv.rescanned {approval : Option NativeApproval} (hi : AnswerInv sha256Hex info h s)
    (hses : s.current = some ses) (hold : (detection s.now approval ses).2 = false) :
    AnswerInv sha256Hex info h (s.modifyCurrent fun ses => (detection s.now approval ses).1) := by
  refine hi.modifyCurrent (detection_vt s.now approval) fun ses' hs' => ?_
  obtain rfl := Option.some_inj.mp (hses.symm.trans hs')
  exact detection_sig hold

/-- An approval found anew is pending. -/
theorem answerInv_detected (ha : AnsweredOnce h) (hno : ∀ k sig, ¬ s.OnWay k sig)
    (hsig : ∀ ses, s.current = some ses → ses.nativeApprovalSig = sig) :
    AnswerInv sha256Hex info (h ++ [.detected sig]) s where
  answered := (answeredOnce_append _).mpr ⟨ha, trivial, trivial⟩
  pending ses hs _ := by
    rw [hsig ses hs]
    exact pending_detected
  shown k sig hk := absurd hk (hno k sig)
  consumed k sig hk := absurd hk (hno k sig)
  cleared k sig _ hk := absurd hk (hno k sig)
  one k _ sig _ hk := absurd hk (hno k sig)

theorem AnswerInv.handleNativeApprovalDetection (hi : AnswerInv sha256Hex info h s)
    {approval : Option NativeApproval} (hj : s.jobs[j]? = some (.scanned approval false))
    (hok : s.undisturbed sha256Hex info (.handle j) = true) :
    AnswerInv sha256Hex info (h ++ (s.handleNativeApprovalDetection j approval).2)
      (s.handleNativeApprovalDetection j approval).1 := by
  unfold State.handleNativeApprovalDetection
  cases hses : s.current with
  | none =>
    dsimp only
    rw [List.append_nil]
    exact hi.setJob rfl
  | some ses =>
    simp only [undisturbed, hj, hses] at hok
    cases approval with
    | none =>
      dsimp only
      rw [List.append_nil]
      exact (hi.rescanned hses (detection_none s.now ses)).setJob rfl
    | some approval =>
      dsimp only
      split_ifs with hnew
      · have hidle : (s.jobs.all fun job => job.onWay.isNone) = true := by
          rw [hnew] at hok
          exact hok
        refine (answerInv_detected hi.answered (fun k sig hk => ?_) fun ses' hs' => ?_).setJob rfl
        · exact not_onWay_of_all hidle (onWay_modifyCurrent.mp hk)
        · rw [current_modifyCurrent, hses, Option.map_some] at hs'
          rw [← Option.some_inj.mp hs']
          exact detection_new hnew
      · dsimp only
        rw [List.append_nil]
        exact (hi.rescanned hses (Bool.not_eq_true _ ▸ hnew)).setJob rfl

theorem AnswerInv.handle (hi : AnswerInv sha256Hex info h s) (hs : s.handle j = some (t, es))
    (hok : s.undisturbed sha256Hex info (.handle j) = true) : AnswerInv sha256Hex info (h ++ es) t := by
  unfold State.handle at hs
  split at hs
  · next approval keep hj =>
    cases keep with
    | true =>
      obtain ⟨rfl, rfl⟩ := Prod.mk.inj (Option.some_inj.mp hs)
      rw [List.append_nil]
      refine AnswerInv.setJob ?_ rfl
      exact hi.modifyCurrent (fun _ => rfl) fun _ _ => .inl rfl
    | false =>
      have hd := hi.handleNativeApprovalDetection hj hok
      rw [if_neg Bool.false_ne_true] at hs
      rwa [Option.some_inj.mp hs] at hd
  · cases hs

/-- A session whose approval is consumed. -/
def markConsumed (now : ℕ) (sig : List Char) (ses : Session) : Session :=
  let ses := { ses with nativeApprovalConsumed := sig, nativeApprovalConsumedAt := now }
  if ses.nativeApprovalSig = sig then { ses with nativeApprovalSig := [], nativeApprovalClearMisses := 0 }
  else ses

theorem markConsumed_vt (now : ℕ) (sig : List Char) (ses : Session) :
    (markConsumed now sig ses).vt = ses.vt := by
  unfold markConsumed
  dsimp only
  split_ifs <;> rfl

theorem markConsumed_sig (now : ℕ) (sig : List Char) (ses : Session) :
    (ses.nativeApprovalSig ≠ sig ∧ (markConsumed now sig ses).nativeApprovalSig = ses.nativeApprovalSig) ∨
      (markConsumed now sig ses).nativeApprovalSig = [] := by
  unfold markConsumed
  dsimp only
  split_ifs with heq
  · exact .inr rfl
  · exact .inl ⟨heq, rfl⟩

theorem markConsumed_ne (hnil : sig ≠ []) (now : ℕ) (ses : Session) :
    (markConsumed now sig ses).nativeApprovalSig ≠ sig := by
  rcases markConsumed_sig now sig ses with ⟨hne, heq⟩ | heq
  · rwa [heq]
  · rw [heq]
    exact hnil.symm

/-- An approval that nobody holds on to is consumed. -/
theorem AnswerInv.consumedBy (hi : AnswerInv sha256Hex info h s) (who : Option ℕ) (hno : ∀ k, ¬ s.OnWay k sig)
    (hne : ∀ ses, s.current = some ses → ses.nativeApprovalSig ≠ sig) :
    AnswerInv sha256Hex info (h ++ [.consumed who sig]) s where
  answered := (answeredOnce_append _).mpr ⟨hi.answered, trivial, trivial⟩
  pending ses hs hnil := (hi.pending ses hs hnil).consumed (hne ses hs).symm
  shown := hi.shown
  consumed k sig' hk := by
    have hsig : sig ≠ sig' := by
      rintro rfl
      exact hno k hk
    simpa [pendingFor_append, answersSince_append, pendingStep, answersStep, hsig] using hi.consumed k sig' hk
  cleared := hi.cleared
  one := hi.one

/-- The approval is consumed, and no answer to it is on its way. -/
theorem AnswerInv.markNativeApprovalConsumed (hi : AnswerInv sha256Hex info h s) (who : Option ℕ)
    (hno : ∀ k, ¬ s.OnWay k sig) :
    AnswerInv sha256Hex info (h ++ (s.markNativeApprovalConsumed who sig).2)
      (s.markNativeApprovalConsumed who sig).1 := by
  unfold State.markNativeApprovalConsumed
  split
  · rwa [List.append_nil]
  · split_ifs with hnil
    · rwa [List.append_nil]
    · have hmod : AnswerInv sha256Hex info h (s.modifyCurrent (markConsumed s.now sig)) :=
        hi.modifyCurrent (markConsumed_vt s.now sig) fun ses _ =>
          (markConsumed_sig s.now sig ses).imp_left And.right
      refine hmod.consumedBy who (fun k hk => hno k (onWay_modifyCurrent.mp hk)) fun ses hs => ?_
      rw [current_modifyCurrent] at hs
      obtain ⟨ses', -, rfl⟩ := Option.map_eq_some_iff.mp hs
      exact markConsumed_ne hnil s.now ses'

theorem AnswerInv.uiConsumed (hi : AnswerInv sha256Hex info h s)
    (hok : (s.jobs.all fun job => job.onWay ≠ some sig) = true) :
    AnswerInv sha256Hex info (h ++ (s.markNativeApprovalConsumed none sig).2)
      (s.markNativeApprovalConsumed none sig).1 := by
  refine hi.markNativeApprovalConsumed none fun k hk => ?_
  obtain ⟨job, hm, hsig⟩ := mem_of_onWay hk
  exact of_decide_eq_true (List.all_eq_true.mp hok job hm) hsig

/-! ### Answers -/

theorem markNativeApprovalConsumed_eq (hses : s.current = some ses) (hnil : sig ≠ []) :
    s.markNativeApprovalConsumed who sig =
      (s.modifyCurrent (markConsumed s.now sig), [.consumed who sig]) := by
  simp only [State.markNativeApprovalConsumed, hses, if_neg hnil]
  rfl

/-- The consumption for the only answer on its way. -/
theorem AnswerInv.consume (hsha : ∀ text, sha256Hex text ≠ []) (hi : AnswerInv sha256Hex info h s)
    (hs : s.consume j = some (t, es)) (hok : s.undisturbed sha256Hex info (.consume j) = true) :
    AnswerInv sha256Hex info (h ++ es) t := by
  unfold State.consume at hs
  split at hs
  · next sig input wc hj =>
    simp only [undisturbed, hj, Bool.and_eq_true] at hok
    obtain ⟨hcur, hshown⟩ := hok
    have hnil : sig ≠ [] := sig_ne_nil hsha hshown
    obtain ⟨ses, hses, hsig⟩ := (Option.any_eq_true _ _).mp hcur
    have hsig : ses.nativeApprovalSig = sig := of_decide_eq_true hsig
    have hno : ∀ k sig', ¬ s.OnWay k sig' := fun k sig' hk => hi.not_onWay hses (hsig ▸ hnil) hk
    have hp : Pending h sig := hsig ▸ hi.pending ses hses (hsig ▸ hnil)
    have hmark := hi.markNativeApprovalConsumed (some j) fun k => hno k sig
    rw [markNativeApprovalConsumed_eq hses hnil] at hs hmark
    obtain ⟨rfl, rfl⟩ := Prod.mk.inj (Option.some_inj.mp hs)
    have honly : ∀ k sig',
        ((s.modifyCurrent (markConsumed s.now sig)).setJob j (.consumed sig input wc)).OnWay k sig' →
          k = j ∧ sig' = sig := fun k sig' hk => by
      rcases onWay_setJob hk with ⟨hkj, hjob⟩ | ⟨-, hk⟩
      · exact ⟨hkj, (Option.some_inj.mp hjob).symm⟩
      · exact absurd (onWay_modifyCurrent.mp hk) (hno k sig')
    refine ⟨hmark.answered, hmark.pending, fun k sig' hk => ?_, fun k sig' hk => ?_,
      fun k sig' ses' hk hs' => ?_,
      fun k l sig' sig'' hk hl => (honly k sig' hk).1.trans (honly l sig'' hl).1.symm⟩
    · obtain ⟨-, rfl⟩ := honly k sig' hk
      exact (shows_modifyCurrent (markConsumed_vt s.now sig')).trans hshown
    · obtain ⟨rfl, rfl⟩ := honly k sig' hk
      simp [pendingFor_append, answersSince_append, pendingStep, answersStep, hp.forAll, hp.unanswered]
    · obtain hs' : (s.modifyCurrent (markConsumed s.now sig)).current = some ses' := hs'
      rw [current_modifyCurrent, hses, Option.map_some] at hs'
      rw [← Option.some_inj.mp hs']
      exact (markConsumed_sig s.now sig ses).resolve_left fun hne => hne.1 hsig
  · cases hs

theorem AnswerInv.submit (hi : AnswerInv sha256Hex info h s) (hs : s.submit sha256Hex info j = some (t, es)) :
    AnswerInv sha256Hex info (h ++ es) t := by
  unfold State.submit at hs
  split at hs
  · next sig input wc hj =>
    obtain ⟨rfl, rfl⟩ := Prod.mk.inj (Option.some_inj.mp hs)
    have hon : s.OnWay j sig := by rw [OnWay, hj]; rfl
    obtain ⟨hp, hn⟩ := hi.consumed j sig hon
    refine answerInv_idle ?_ (fun k sig' hk => ?_) fun ses hses => hi.cleared j sig ses hon hses
    · exact (answeredOnce_append _).mpr ⟨hi.answered, ⟨hi.shown j sig hon, hp, fun _ => hn⟩, trivial⟩
    · obtain ⟨hkj, hk⟩ := onWay_of_setJob rfl hk
      exact hkj (hi.one k j sig' sig hk hon)
  · cases hs

/-- What `applyOneTapApproval` has checked. -/
theorem oneTapInput_pending {claim : OneTapApprovalClaim} {input : List Char}
    (h : s.oneTapInput sha256Hex info claim ses = .ok input) :
    ses.nativeApprovalSig = claim.approvalSig ∧
      ∃ approval, onScreen sha256Hex info ses = some approval ∧ approval.sig = claim.approvalSig := by
  unfold oneTapInput at h
  split_ifs at h with hsig
  obtain ⟨hsig, -⟩ : ses.nativeApprovalSig = claim.approvalSig ∧ claim.approvalID = claim.approvalSig := by
    simpa using hsig
  split at h
  · cases h
  · next approval hon =>
    split_ifs at h with hne
    exact ⟨hsig, approval, hon, not_not.mp hne⟩

theorem AnswerInv.apply (hsha : ∀ text, sha256Hex text ≠ []) {ok okDelayed : Bool}
    (hi : AnswerInv sha256Hex info h s) (hs : s.apply sha256Hex info j ok okDelayed = some (t, es))
    (hok : s.undisturbed sha256Hex info (.apply j ok okDelayed) = true) :
    AnswerInv sha256Hex info (h ++ es) t := by
  obtain ⟨claim, o, ses, hj, ho, hstep⟩ := apply_cases hs
  simp only [undisturbed, hj, ho, Option.map_some] at hok
  have hready : ∀ input, s.oneTapInput sha256Hex info claim ses = .ok input →
      s.session = some o ∧ s.shows sha256Hex info claim.approvalSig = true ∧ Pending h claim.approvalSig ∧
        ∀ k sig, ¬ s.OnWay k sig := fun input hin => by
    rw [hin] at hok
    have hsession : s.session = some o := of_decide_eq_true (Bool.and_eq_true _ _ ▸ hok).1
    have hcur : s.current = some ses := by rw [current, hsession, Option.bind_some, ho]
    obtain ⟨hsig, approval, hon, heq⟩ := oneTapInput_pending hin
    have hshown := shows_iff.mpr ⟨ses, approval, hcur, hon, heq⟩
    have hne : ses.nativeApprovalSig ≠ [] := hsig ▸ sig_ne_nil hsha hshown
    exact ⟨hsession, hshown, hsig ▸ hi.pending ses hcur hne, fun k sig hk => hi.not_onWay hcur hne hk⟩
  cases hstep with
  | rejected hin => exact (hi.tapped ..).setJob rfl
  | @unsent input hin hfail =>
    obtain ⟨-, hshown, hp, -⟩ := hready input hin
    rw [hshown, ← List.singleton_append, ← List.append_assoc]
    exact ((hi.undelivered hp j input).tapped ..).setJob rfl
  | @refused input err kept hin hsent he =>
    -- a good token is not refused
    rw [hin] at hok
    have hgood := (Bool.and_eq_true _ _ ▸ hok).2
    simp only [tokenGood, hj, ho, Option.map_some, hin, hsent, Bool.not_true, Bool.false_or, Bool.and_eq_true,
      Bool.not_eq_true', List.contains_eq_mem, decide_eq_false_iff_not] at hgood
    have hnone : (consumeNonce s.used s.now claim).2 = none := consumeNonce_eq_none.mpr ⟨hgood.1, fun hm => by
      obtain ⟨u, hu, hnonce⟩ := List.mem_map.mp hm
      exact hgood.2 (List.mem_map.mpr ⟨u, (State.mem_purge.mp hu).1, hnonce⟩)⟩
    rw [hnone] at he
    cases he
  | @answered input kept hin hsent he =>
    obtain ⟨hsession, hshown, hp, hno⟩ := hready input hin
    refine answerInv_idle ?_ (fun k sig hk => hno k sig (onWay_of_setJob rfl hk).2) fun ses' hses' => ?_
    · exact (answeredOnce_append _).mpr
        ⟨hi.answered, ⟨hshown, hp.forAll _, fun _ => hp.unanswered⟩, trivial, trivial, trivial⟩
    · simp only [current, State.setJob, answer, hsession, Option.bind_some, List.getElem?_modify, if_true,
        ho] at hses'
      obtain rfl := Option.some_inj.mp hses'
      rfl

/-! ### The other steps -/

theorem AnswerInv.maybeAutoApprove {allowed : Bool} (hi : AnswerInv sha256Hex info h s)
    (hs : s.maybeAutoApprove j allowed = some (t, es)) : AnswerInv sha256Hex info (h ++ es) t := by
  unfold State.maybeAutoApprove at hs
  split at hs
  · split at hs
    · dsimp only at hs
      split_ifs at hs
      · exact answerInv_quiet hs (hi.setJob rfl)
      · exact answerInv_quiet hs (hi.setJob rfl)
    · exact answerInv_quiet hs (hi.setJob rfl)
  · cases hs

theorem AnswerInv.handleApprovalBatch (hi : AnswerInv sha256Hex info h s) (req : ApprovalBatchRequest) :
    AnswerInv sha256Hex info h (s.handleApprovalBatch sha256Hex info req) := by
  unfold State.handleApprovalBatch
  split
  · dsimp only
    split_ifs
    · exact hi
    · exact hi.start rfl
  · exact hi

theorem AnswerInv.post {nonce : ℕ} (hi : AnswerInv sha256Hex info h s)
    (hs : s.post info nonce = some (t, es)) : AnswerInv sha256Hex info (h ++ es) t := by
  unfold State.post at hs
  split at hs
  · split_ifs at hs
    exact answerInv_quiet hs (hi.start rfl)
  · cases hs

theorem AnswerInv.lookup (hi : AnswerInv sha256Hex info h s) (hs : s.lookup j = some (t, es)) :
    AnswerInv sha256Hex info (h ++ es) t := by
  unfold State.lookup at hs
  split at hs
  · split at hs
    · exact answerInv_quiet hs (hi.setJob rfl)
    · obtain ⟨rfl, rfl⟩ := Prod.mk.inj (Option.some_inj.mp hs)
      exact (hi.tapped ..).setJob rfl
  · cases hs

theorem AnswerInv.issue {claim : OneTapApprovalClaim} (hi : AnswerInv sha256Hex info h s)
    (hs : s.issue claim = some (t, es)) : AnswerInv sha256Hex info (h ++ es) t := by
  unfold State.issue at hs
  split_ifs at hs
  exact answerInv_quiet hs (hi.same rfl fun _ _ => id)

theorem AnswerInv.tapElsewhere {nonce : ℕ} (hi : AnswerInv sha256Hex info h s)
    (hs : s.tapElsewhere info nonce = some (t, es)) : AnswerInv sha256Hex info (h ++ es) t := by
  unfold State.tapElsewhere at hs
  split at hs
  · split_ifs at hs
    exact answerInv_quiet hs (hi.same rfl fun _ _ => id)
  · cases hs

theorem answerInv_step (hsha : ∀ text, sha256Hex text ≠ []) {a : Action} (hi : AnswerInv sha256Hex info h s)
    (hok : s.undisturbed sha256Hex info a = true) (hs : s.step sha256Hex info a = some (t, es)) :
    AnswerInv sha256Hex info (h ++ es) t := by
  cases a with
  | handle j => exact hi.handle hs hok
  | consume j => exact hi.consume hsha hs hok
  | submit j => exact hi.submit hs
  | apply j ok okDelayed => exact hi.apply hsha hs hok
  | uiConsumed sig =>
    have hu := hi.uiConsumed hok
    rwa [Option.some_inj.mp hs] at hu
  | autoApprove j allowed => exact hi.maybeAutoApprove hs
  | post nonce => exact hi.post hs
  | lookup j => exact hi.lookup hs
  | issue claim => exact hi.issue hs
  | tapElsewhere nonce => exact hi.tapElsewhere hs
  | tick | disconnect => exact answerInv_quiet hs (hi.same rfl fun _ _ => id)
  | output lines scan => exact answerInv_quiet hs (hi.output scan hok)
  | resize lines => exact answerInv_quiet hs (hi.screen hok (fun _ _ _ => rfl) fun _ => .inl rfl)
  | historyReset lines =>
    refine answerInv_quiet hs (hi.screen hok (fun ses old hold => ?_) fun _ => .inr rfl)
    simp only [Session.new, hold, Option.map_some]
  | reattach lines => exact answerInv_quiet hs (hi.reattach hok)
  | dismiss => exact answerInv_quiet hs (hi.dismiss hok)
  | batch req => exact answerInv_quiet hs (hi.handleApprovalBatch req)

/-- The server answers an approval at most once after each detection, while it is pending
and on the screen, in every run in which no answer is disturbed. -/
theorem answeredOnce_of_undisturbed (hsha : ∀ text, sha256Hex text ≠ []) {now : ℕ} {as : List Action}
    (hm : Meets (step sha256Hex info) (fun s a => s.undisturbed sha256Hex info a = true) (registered now) as)
    (hx : exec (step sha256Hex info) (registered now) as = some (t, es)) : AnsweredOnce es :=
  (exec_invariant (fun _ _ _ _ _ hi hok hs => answerInv_step hsha hi hok hs) (answerInv_registered now)
    hm hx).answered

/-- A batch request that approves the prompt below. -/
def approveLs : Action :=
  .batch ⟨approvalBatchSignature lsInfo.provider lsInfo.cwd ⟨"ls".toList, .low, []⟩, .approve, 0⟩

/-- A batch request answers the prompt, which then goes. -/
def answeredByBatch : List Action :=
  [.output (proceedPrompt "Run: ls") true, .handle 0, .autoApprove 0 false, approveLs, .consume 1, .submit 1,
    .output ["total 0".toList] true]

theorem answeredOnce_answeredByBatch :
    ∃ r, exec (step lsDigest lsInfo) (registered 0) answeredByBatch = some r ∧ AnsweredOnce r.2 := by
  obtain ⟨r, hr⟩ := Option.isSome_iff_exists.mp
    (by decide +kernel : (exec (step lsDigest lsInfo) (registered 0) answeredByBatch).isSome = true)
  have hsha : ∀ text, lsDigest text ≠ [] := fun _ => (by decide : lsDigest [] ≠ [])
  exact ⟨r, hr, answeredOnce_of_undisturbed hsha (by decide +kernel) hr⟩

/-- Two batch requests find the prompt; when the second one answers, it has gone. -/
def answeredByBoth : List Action :=
  [.output (proceedPrompt "Run: ls") true, .handle 0, .autoApprove 0 false, approveLs, approveLs, .consume 1,
    .submit 1, .output ["total 0".toList] false, .consume 2, .submit 2]

theorem answered_twice :
    ¬ ∀ info now as t es, exec (step lsDigest info) (registered now) as = some (t, es) → AnsweredOnce es := by
  intro h
  have hbad : (exec (step lsDigest lsInfo) (registered 0) answeredByBoth).any
      (fun r => !decide (AnsweredOnce r.2)) = true := by decide +kernel
  obtain ⟨r, hr, hn⟩ := (Option.any_eq_true _ _).mp hbad
  simp [h lsInfo 0 _ r.1 r.2 hr] at hn

end State

end ManyAiCli.Hub.Approvals
