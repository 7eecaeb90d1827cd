import ManyAiCli.Hub.ApprovalRisk
import ManyAiCli.Hub.NativeApproval
import Mathlib.Data.List.Nodup

/-! One-tap tokens at the wrapper. Their nonce is checked after the input was sent, so
a token is good for one input exactly as long as no answer with a nonce that was used
or has expired gets as far as the wrapper. -/

namespace ManyAiCli.Hub.Approvals

open Text Approval Runs

/-! ### What the keys of a menu send -/

def keyTexts : List (List Char) :=
  [[], ['y'], ['p'], ['n'], ['!'], ['#'], ['?'], ['\x1b'], ['\t'], ['\x1b', '[', 'Z'], ['\r'],
    ['\x1b', '[', 'C', '\r'], ['\x1b', '[', 'C', '\x1b', '[', 'C', '\r']]

theorem approvalShortcutSendText_mem (provider : String) (label : List Char) :
    approvalShortcutSendText provider label ∈ keyTexts := by
  simp only [approvalShortcutSendText]
  split_ifs <;> simp [keyTexts]

theorem cursorAgentKeyBinding_mem (key : List Char) : (cursorAgentKeyBinding key).1 ∈ keyTexts := by
  simp only [cursorAgentKeyBinding]
  split_ifs <;> simp [keyTexts]

theorem parseNumberedOption_sendText {provider : String} {groups : ℕ → List Char} {opt : ApprovalOption}
    (h : parseNumberedOption provider groups = some opt) : opt.sendText ∈ keyTexts := by
  simp only [parseNumberedOption] at h
  split_ifs at h
  cases h
  exact approvalShortcutSendText_mem _ _

theorem parseCursorAgentShortcutOption_sendText {line : Line} {opt : ApprovalOption}
    (h : parseCursorAgentShortcutOption line = some opt) : opt.sendText ∈ keyTexts := by
  simp only [parseCursorAgentShortcutOption] at h
  split at h
  · cases h
  · split_ifs at h
    cases h
    exact cursorAgentKeyBinding_mem _

theorem parseShortcutOption_sendText {provider : String} {line : Line} {opt : ApprovalOption}
    (h : parseShortcutOption provider line = some opt) : opt.sendText ∈ keyTexts := by
  simp only [parseShortcutOption] at h
  split at h
  · cases h
  · split_ifs at h
    cases h
    exact approvalShortcutSendText_mem _ _

theorem parseNativeApprovalOption_sendText {provider : String} {line : Line} {opt : ApprovalOption}
    (h : parseNativeApprovalOption provider line = some opt) : opt.sendText ∈ keyTexts := by
  simp only [parseNativeApprovalOption] at h
  split_ifs at h <;> split at h
  · exact parseNumberedOption_sendText h
  · exact parseCursorAgentShortcutOption_sendText h
  · exact parseNumberedOption_sendText h
  · exact parseShortcutOption_sendText h
  · exact parseNumberedOption_sendText h
  · cases h

theorem optionLines_sendText {provider : String} {k : ℕ} {lines : List Line} {x : ApprovalOption × ℕ}
    (h : x ∈ optionLines provider k lines) : x.1.sendText ∈ keyTexts := by
  induction lines generalizing k with
  | nil => cases h
  | cons line lines ih =>
    simp only [optionLines] at h
    split at h
    · rename_i opt ho
      rcases List.mem_cons.1 h with rfl | h
      · exact parseNativeApprovalOption_sendText ho
      · exact ih h
    · exact ih h

theorem distinctOptions_subset (seen : List (List Char)) (opts : List ApprovalOption) :
    distinctOptions seen opts ⊆ opts := by
  induction opts generalizing seen with
  | nil => simp [distinctOptions]
  | cons opt opts ih =>
    simp only [distinctOptions]
    split_ifs
    · exact List.subset_cons_of_subset _ (ih _)
    · exact List.cons_subset_cons _ (ih _)

theorem menuOf_subset {cluster : List (ApprovalOption × ℕ)} {opts : List ApprovalOption} {start last : ℕ}
    (h : menuOf cluster = some (opts, start, last)) : opts ⊆ cluster.map Prod.fst := by
  cases cluster with
  | nil => cases h
  | cons first rest =>
    obtain ⟨opts', ho, heq⟩ := Option.map_eq_some_iff.1 h
    obtain rfl : opts' = opts := by simpa using congrArg Prod.fst heq
    simp only [menuOptions] at ho
    split_ifs at ho
    cases ho
    exact distinctOptions_subset _ _

theorem extract_sendText {provider : String} {lines : List Line} {opts : List ApprovalOption}
    {start last : ℕ} (h : extractNativeApprovalOptions provider lines = some (opts, start, last)) :
    ∀ opt ∈ opts, opt.sendText ∈ keyTexts := by
  simp only [extractNativeApprovalOptions] at h
  split_ifs at h
  · simp only [extractOpenCodeApprovalOptions] at h
    split_ifs at h
    · obtain rfl : openCodeOptions = opts := by simpa using congrArg (Option.map Prod.fst) h
      decide
    · cases h
  · intro opt ho
    obtain ⟨x, hx, rfl⟩ := List.mem_map.1 (menuOf_subset h ho)
    exact optionLines_sendText ((bestCluster_contiguous _).subset hx)

theorem detectNativeApproval_sendText {sha256Hex : List Char → List Char} {provider : String}
    {lines : List Line} {r : NativeApproval} (h : detectNativeApproval sha256Hex provider lines = some r) :
    ∀ opt ∈ r.options, opt.sendText ∈ keyTexts := by
  simp only [detectNativeApproval] at h
  split at h
  · cases h
  · rename_i hx
    split_ifs at h
    cases h
    exact extract_sendText hx

theorem inputFor_mem (tokens jaTokens : List String) {options : List ApprovalOption}
    (h : ∀ opt ∈ options, opt.sendText ∈ keyTexts) : inputFor tokens jaTokens options ∈ keyTexts := by
  induction options with
  | nil => simp [inputFor, keyTexts]
  | cons opt options ih =>
    have ih := ih fun o ho => h o (List.mem_cons_of_mem _ ho)
    simp only [inputFor]
    split_ifs
    · exact ih
    · exact h opt List.mem_cons_self
    · decide
    · exact ih

theorem trySendInput_key {input : List Char} (h : input ∈ keyTexts) (ok okDelayed : Bool) :
    trySendInput input ok okDelayed = (ok, ok) := by
  have hd : ∀ input ∈ keyTexts, (splitBracketedPasteSubmit input).2 = [] := by decide
  simp [trySendInput, hd input h]

/-! ### What a run may do with tokens -/

/-- The nonce a one-tap action has written input for. -/
def Event.writtenNonce : Event → Option ℕ
  | .tapped nonce _ true _ => some nonce
  | _ => none

/-- The token an action is under way with. -/
def Job.claim : Job → Option OneTapApprovalClaim
  | .tap claim => some claim
  | .tapping claim _ => some claim
  | _ => none

/-- No input and no change with an error. -/
def Event.clean : Event → Bool
  | .tapped _ (some _) wrote kept => !wrote && kept
  | _ => true

/-- A token writes input at most once, and an action that fails has done nothing. -/
structure OneShot (h : List Event) : Prop where
  once : (h.filterMap Event.writtenNonce).Nodup
  clean : ∀ e ∈ h, e.clean = true

namespace State

variable (sha256Hex : List Char → List Char) (info : SessionInfo)

/-- A one-tap action about to get as far as the wrapper has a token that has not
expired and was not used. -/
def tokenGood (s : State) : Action → Bool
  | .apply j ok _ =>
    match s.jobs[j]? with
    | some (.tapping claim o) =>
      match (s.objects[o]?).map (s.oneTapInput sha256Hex info claim) with
      | some (.ok _) => !ok || (!expired claim s.now && !(s.used.map Prod.fst).contains claim.nonce)
      | _ => true
    | _ => true
  | _ => true

/-! ### Steps that use no token -/

variable {sha256Hex info} {s t : State} {a : Action} {es h : List Event} {f : Session → Session}
  {j : ℕ} {job : Job} {claim : OneTapApprovalClaim}

@[simp] theorem modifyCurrent_now : (s.modifyCurrent f).now = s.now := by
  simp only [modifyCurrent]; split <;> rfl

@[simp] theorem modifyCurrent_issued : (s.modifyCurrent f).issued = s.issued := by
  simp only [modifyCurrent]; split <;> rfl

@[simp] theorem modifyCurrent_used : (s.modifyCurrent f).used = s.used := by
  simp only [modifyCurrent]; split <;> rfl

@[simp] theorem modifyCurrent_jobs : (s.modifyCurrent f).jobs = s.jobs := by
  simp only [modifyCurrent]; split <;> rfl

/-- The tokens under way were issued. -/
def Held (issued : List OneTapApprovalClaim) (jobs : List Job) : Prop :=
  ∀ job ∈ jobs, ∀ claim, job.claim = some claim → claim ∈ issued

theorem Held.set {issued : List OneTapApprovalClaim} {jobs : List Job} (hh : Held issued jobs)
    (hj : ∀ claim, job.claim = some claim → claim ∈ issued) : Held issued (jobs.set j job) := by
  intro job' hm
  rcases List.mem_or_eq_of_mem_set hm with hm | rfl
  · exact hh job' hm
  · exact hj

theorem Held.append {issued : List OneTapApprovalClaim} {jobs : List Job} (hh : Held issued jobs)
    (hj : ∀ claim, job.claim = some claim → claim ∈ issued) : Held issued (jobs ++ [job]) := by
  intro job' hm
  rcases List.mem_append.1 hm with hm | hm
  · exact hh job' hm
  · rw [List.mem_singleton.1 hm]
    exact hj

/-- The step leaves the tokens alone; it may start work on one. -/
structure Quiet (s t : State) (es : List Event) : Prop where
  issued : t.issued = s.issued
  used : t.used = s.used
  now : s.now ≤ t.now
  held : Held s.issued s.jobs → Held s.issued t.jobs
  silent : ∀ e ∈ es, e.writtenNonce = none ∧ e.clean = true

theorem quiet_same (hi : t.issued = s.issued) (hu : t.used = s.used) (hn : s.now ≤ t.now)
    (hj : t.jobs = s.jobs) (he : ∀ e ∈ es, e.writtenNonce = none ∧ e.clean = true) : Quiet s t es :=
  ⟨hi, hu, hn, by rw [hj]; exact id, he⟩

theorem Quiet.setJob (hq : Quiet s t es) (hj : ∀ claim, job.claim = some claim → Held s.issued s.jobs →
    claim ∈ s.issued) : Quiet s (t.setJob j job) es :=
  ⟨hq.issued, hq.used, hq.now, fun hh => (hq.held hh).set fun claim hc => hj claim hc hh, hq.silent⟩

theorem Quiet.start (hq : Quiet s t es) (hj : ∀ claim, job.claim = some claim → claim ∈ s.issued) :
    Quiet s (t.start job) es :=
  ⟨hq.issued, hq.used, hq.now, fun hh => (hq.held hh).append hj, hq.silent⟩

theorem quiet_modify (he : ∀ e ∈ es, e.writtenNonce = none ∧ e.clean = true) :
    Quiet s (s.modifyCurrent f) es := quiet_same (by simp) (by simp) (by simp) (by simp) he

theorem quiet_refl : Quiet s s [] := quiet_same rfl rfl le_rfl rfl (by simp)

theorem quiet_output (lines : List Line) (scan : Bool) :
    Quiet s (s.output sha256Hex info lines scan) [] := by
  simp only [output]
  split
  · exact quiet_refl
  · split_ifs
    · exact (quiet_modify (by simp)).start (by simp [Job.claim])
    · exact quiet_modify (by simp)

theorem quiet_handle (h : s.handle j = some (t, es)) : Quiet s t es := by
  simp only [handle, handleNativeApprovalDetection] at h
  split at h
  · split_ifs at h
    · cases h
      exact (quiet_modify (by simp)).setJob (by simp [Job.claim])
    · split at h
      · cases h
        exact quiet_refl.setJob (by simp [Job.claim])
      · split at h
        · split_ifs at h <;> cases h <;>
            exact (quiet_modify (by simp [Event.writtenNonce, Event.clean])).setJob (by simp [Job.claim])
        · cases h
          exact (quiet_modify (by simp)).setJob (by simp [Job.claim])
  · cases h

theorem quiet_maybeAutoApprove {allowed : Bool} (h : s.maybeAutoApprove j allowed = some (t, es)) :
    Quiet s t es := by
  simp only [maybeAutoApprove] at h
  split at h
  · split at h
    · split_ifs at h <;> cases h <;> exact quiet_refl.setJob (by simp [Job.claim])
    · cases h
      exact quiet_refl.setJob (by simp [Job.claim])
  · cases h

theorem quiet_handleApprovalBatch (req : ApprovalBatchRequest) :
    Quiet s (s.handleApprovalBatch sha256Hex info req) [] := by
  simp only [handleApprovalBatch]
  split
  · split_ifs
    · exact quiet_refl
    · exact quiet_refl.start (by simp [Job.claim])
  · exact quiet_refl

theorem quiet_markNativeApprovalConsumed (who : Option ℕ) (sig : List Char) :
    Quiet s (s.markNativeApprovalConsumed who sig).1 (s.markNativeApprovalConsumed who sig).2 := by
  simp only [markNativeApprovalConsumed]
  split
  · exact quiet_refl
  · split_ifs
    · exact quiet_refl
    · exact quiet_modify (by simp [Event.writtenNonce, Event.clean])

theorem quiet_consume (h : s.consume j = some (t, es)) : Quiet s t es := by
  simp only [consume] at h
  split at h
  · cases h
    exact (quiet_markNativeApprovalConsumed _ _).setJob (by simp [Job.claim])
  · cases h

theorem quiet_submit (h : s.submit sha256Hex info j = some (t, es)) : Quiet s t es := by
  simp only [submit] at h
  split at h
  · cases h
    exact (quiet_same rfl rfl le_rfl rfl (by simp [Event.writtenNonce, Event.clean])).setJob
      (by simp [Job.claim])
  · cases h

theorem quiet_post {nonce : ℕ} (h : s.post info nonce = some (t, es)) : Quiet s t es := by
  simp only [post, findClaim] at h
  split at h
  · rename_i claim hf
    split_ifs at h
    cases h
    refine quiet_refl.start fun claim' hc => ?_
    obtain rfl : claim = claim' := by simpa [Job.claim] using hc
    exact List.mem_of_find?_eq_some hf
  · cases h

theorem quiet_lookup (h : s.lookup j = some (t, es)) : Quiet s t es := by
  simp only [lookup] at h
  split at h
  · rename_i claim hj
    have hm : Job.tap claim ∈ s.jobs := List.mem_of_getElem? hj
    split at h <;> cases h
    · refine quiet_refl.setJob fun claim' hc hh => hh _ hm claim' ?_
      simpa [Job.claim] using hc
    · exact (quiet_same rfl rfl le_rfl rfl (by simp [Event.writtenNonce, Event.clean])).setJob
        (by simp [Job.claim])
  · cases h

/-- All other steps leave the tokens alone. -/
def usesToken : Action → Bool
  | .issue _ | .apply _ _ _ | .tapElsewhere _ => true
  | _ => false

theorem quiet_step (ha : usesToken a = false) (h : s.step sha256Hex info a = some (t, es)) :
    Quiet s t es := by
  cases a with
  | issue | apply | tapElsewhere => cases ha
  | handle j => exact quiet_handle h
  | autoApprove j allowed => exact quiet_maybeAutoApprove h
  | consume j => exact quiet_consume h
  | submit j => exact quiet_submit h
  | post nonce => exact quiet_post h
  | lookup j => exact quiet_lookup h
  | tick ms =>
    cases h
    exact quiet_same rfl rfl (by simp) rfl (by simp)
  | output lines scan =>
    cases h
    exact quiet_output lines scan
  | batch req =>
    cases h
    exact quiet_handleApprovalBatch req
  | uiConsumed sig =>
    have hq := quiet_markNativeApprovalConsumed (s := s) none sig
    rw [Option.some.inj h] at hq
    exact hq
  | resize | historyReset =>
    cases h
    exact quiet_modify (by simp)
  | disconnect | reattach | dismiss =>
    cases h
    exact quiet_same rfl rfl le_rfl rfl (by simp)

/-! ### The tokens that were used -/

theorem expired_mono {now now' : ℕ} (hn : now ≤ now') (h : expired claim now = true) :
    expired claim now' = true := by
  simp only [expired, decide_eq_true_eq] at h ⊢
  omega

/-- The nonce is among the used ones, or is forgotten since its token has expired. -/
def Spent (s : State) (nonce : ℕ) : Prop :=
  ∃ claim ∈ s.issued, claim.nonce = nonce ∧
    (expired claim s.now = true ∨ nonce ∈ s.used.map Prod.fst)

structure TokenInv (h : List Event) (s : State) : Prop where
  oneShot : OneShot h
  distinct : ∀ claim ∈ s.issued, ∀ claim' ∈ s.issued, claim.nonce = claim'.nonce → claim = claim'
  held : Held s.issued s.jobs
  used : ∀ u ∈ s.used, ∃ claim ∈ s.issued, u = (claim.nonce, claim.expiresAt)
  spent : ∀ nonce ∈ h.filterMap Event.writtenNonce, s.Spent nonce

theorem oneShot_append : OneShot (h ++ es) ↔ OneShot h ∧ OneShot es ∧
    (h.filterMap Event.writtenNonce).Disjoint (es.filterMap Event.writtenNonce) := by
  constructor
  · rintro ⟨ho, hc⟩
    rw [List.filterMap_append, List.nodup_append'] at ho
    exact ⟨⟨ho.1, fun e he => hc e (by simp [he])⟩, ⟨ho.2.1, fun e he => hc e (by simp [he])⟩, ho.2.2⟩
  · rintro ⟨⟨ho, hc⟩, ⟨ho', hc'⟩, hd⟩
    refine ⟨?_, ?_⟩
    · rw [List.filterMap_append, List.nodup_append']
      exact ⟨ho, ho', hd⟩
    · intro e he
      rcases List.mem_append.1 he with he | he
      · exact hc e he
      · exact hc' e he

theorem filterMap_silent (hs : ∀ e ∈ es, e.writtenNonce = none ∧ e.clean = true) :
    es.filterMap Event.writtenNonce = [] := by
  rw [List.filterMap_eq_nil_iff]
  exact fun e he => (hs e he).1

theorem TokenInv.quiet (hi : TokenInv h s) (hq : Quiet s t es) : TokenInv (h ++ es) t := by
  have hw := filterMap_silent hq.silent
  refine ⟨?_, ?_, ?_, ?_, ?_⟩
  · refine oneShot_append.2 ⟨hi.oneShot, ⟨by simp [hw], fun e he => (hq.silent e he).2⟩, by simp [hw]⟩
  · rw [hq.issued]
    exact hi.distinct
  · rw [hq.issued]
    exact hq.held hi.held
  · rw [hq.used, hq.issued]
    exact hi.used
  · intro nonce hn
    rw [List.filterMap_append, hw, List.append_nil] at hn
    obtain ⟨claim, hc, he, hx⟩ := hi.spent nonce hn
    refine ⟨claim, by rwa [hq.issued], he, ?_⟩
    rw [hq.used]
    exact hx.imp_left (expired_mono hq.now)

theorem mem_purge {used : List (ℕ × ℕ)} {now : ℕ} {u : ℕ × ℕ} :
    u ∈ purge used now ↔ u ∈ used ∧ u.2 * 1000 > now := by simp [purge]

/-- A nonce that is forgotten was that of an expired token. -/
theorem TokenInv.mem_purge (hi : TokenInv h s) {nonce : ℕ} (hc : claim ∈ s.issued)
    (hn : claim.nonce = nonce) (hu : nonce ∈ s.used.map Prod.fst) :
    expired claim s.now = true ∨ nonce ∈ (purge s.used s.now).map Prod.fst := by
  obtain ⟨u, hm, he⟩ := List.mem_map.1 hu
  obtain ⟨claim', hc', rfl⟩ := hi.used u hm
  obtain rfl := hi.distinct claim hc claim' hc' (hn.trans he.symm)
  by_cases hx : claim.expiresAt * 1000 > s.now
  · exact .inr (List.mem_map.2 ⟨_, State.mem_purge.2 ⟨hm, hx⟩, he⟩)
  · refine .inl ?_
    simp only [expired, decide_eq_true_eq]
    omega

/-- What `consume` leaves of the used nonces. -/
theorem consumeNonce_used (used : List (ℕ × ℕ)) (now : ℕ) (claim : OneTapApprovalClaim) :
    (consumeNonce used now claim).1 = purge used now ∨
      (consumeNonce used now claim).1 = (claim.nonce, claim.expiresAt) :: purge used now := by
  simp only [consumeNonce]
  split_ifs <;> simp

theorem consumeNonce_used_of_none {used : List (ℕ × ℕ)} {now : ℕ} (h : (consumeNonce used now claim).2 = none) :
    (consumeNonce used now claim).1 = (claim.nonce, claim.expiresAt) :: purge used now := by
  simp only [consumeNonce] at h ⊢
  split_ifs at h ⊢
  rfl

theorem consumeNonce_eq_none {used : List (ℕ × ℕ)} {now : ℕ} :
    (consumeNonce used now claim).2 = none ↔
      expired claim now = false ∧ claim.nonce ∉ (purge used now).map Prod.fst := by
  simp only [consumeNonce, List.contains_eq_mem, decide_eq_true_eq]
  split_ifs with hx hm <;> simp_all

theorem TokenInv.consumeNonce_eq_none_iff (hi : TokenInv h s) (hc : claim ∈ s.issued) :
    (consumeNonce s.used s.now claim).2 = none ↔
      expired claim s.now = false ∧ claim.nonce ∉ s.used.map Prod.fst := by
  rw [consumeNonce_eq_none]
  refine and_congr_right fun hx => not_congr ⟨fun hm => ?_, fun hm => ?_⟩
  · obtain ⟨u, hu, hn⟩ := List.mem_map.1 hm
    exact List.mem_map.2 ⟨u, (State.mem_purge.1 hu).1, hn⟩
  · rcases hi.mem_purge hc rfl hm with he | hm
    · rw [hx] at he
      cases he
    · exact hm

/-- Using a nonce, in this session or another. -/
theorem TokenInv.consume (hi : TokenInv h s) (hc : claim ∈ s.issued) (objects : List Session) {jobs : List Job}
    (hj : Held s.issued jobs) :
    TokenInv h { s with used := (consumeNonce s.used s.now claim).1, objects := objects, jobs := jobs } := by
  refine ⟨hi.oneShot, hi.distinct, hj, ?_, ?_⟩
  · intro u hu
    have hp : ∀ u ∈ purge s.used s.now, ∃ claim ∈ s.issued, u = (claim.nonce, claim.expiresAt) :=
      fun u hu => hi.used u (State.mem_purge.1 hu).1
    rcases consumeNonce_used s.used s.now claim with he | he
    · exact hp u (he ▸ hu)
    · rcases List.mem_cons.1 (he ▸ hu : u ∈ _ :: _) with rfl | hu
      · exact ⟨claim, hc, rfl⟩
      · exact hp u hu
  · intro nonce hn
    obtain ⟨claim', hc', he, hx⟩ := hi.spent nonce hn
    refine ⟨claim', hc', he, ?_⟩
    rcases hx with hx | hx
    · exact .inl hx
    · refine (hi.mem_purge hc' he hx).imp_right fun hm => ?_
      rcases consumeNonce_used s.used s.now claim with hu | hu
      · exact hu ▸ hm
      · exact hu ▸ List.mem_cons_of_mem _ hm

/-! ### Applying a token -/

theorem oneTapInput_mem {ses : Session} {input : List Char}
    (h : s.oneTapInput sha256Hex info claim ses = .ok input) : input ∈ keyTexts := by
  simp only [oneTapInput, onScreen] at h
  split_ifs at h
  split at h
  · cases h
  · rename_i approval ha
    obtain ⟨lines, -, hd⟩ := Option.bind_eq_some_iff.1 ha
    have hkeys := detectNativeApproval_sendText hd
    split_ifs at h
    cases h
    split
    · exact inputFor_mem _ _ hkeys
    · exact inputFor_mem _ _ hkeys

/-- The session object after an answer with the token. -/
def answer (s : State) (o : ℕ) (sig : List Char) : List Session :=
  s.objects.modify o fun ses =>
    { ses with
      nativeApprovalConsumed := sig
      nativeApprovalConsumedAt := s.now
      nativeApprovalSig := []
      nativeApprovalClearMisses := 0 }

/-- What `applyOneTapApproval` does: its checks fail, the wrapper does not take the
input, the nonce is refused, or all goes well. -/
inductive ApplyStep (sha256Hex : List Char → List Char) (info : SessionInfo) (s : State) (j : ℕ) (ok : Bool)
    (claim : OneTapApprovalClaim) (o : ℕ) (ses : Session) : State → List Event → Prop
  | rejected {err : OneTapError} (h : s.oneTapInput sha256Hex info claim ses = .error err) :
    ApplyStep sha256Hex info s j ok claim o ses (s.setJob j .done) [.tapped claim.nonce (some err) false true]
  | unsent {input : List Char} (h : s.oneTapInput sha256Hex info claim ses = .ok input) (hok : ok = false) :
    ApplyStep sha256Hex info s j ok claim o ses (s.setJob j .done)
      [.handed j claim.approvalSig input (s.shows sha256Hex info claim.approvalSig) false,
        .tapped claim.nonce (some .noInput) false true]
  | refused {input : List Char} {err : OneTapError} {kept : Bool}
      (h : s.oneTapInput sha256Hex info claim ses = .ok input) (hok : ok = true)
      (he : (consumeNonce s.used s.now claim).2 = some err) :
    ApplyStep sha256Hex info s j ok claim o ses
      ({ s with used := (consumeNonce s.used s.now claim).1 }.setJob j .done)
      [.handed j claim.approvalSig input (s.shows sha256Hex info claim.approvalSig) true,
        .tapped claim.nonce (some err) true kept]
  | answered {input : List Char} {kept : Bool} (h : s.oneTapInput sha256Hex info claim ses = .ok input)
      (hok : ok = true) (he : (consumeNonce s.used s.now claim).2 = none) :
    ApplyStep sha256Hex info s j ok claim o ses
      ({ s with used := (consumeNonce s.used s.now claim).1, objects := s.answer o claim.approvalSig }.setJob
        j .done)
      [.handed j claim.approvalSig input (s.shows sha256Hex info claim.approvalSig) true,
        .consumed (some j) claim.approvalSig, .tapped claim.nonce none true kept]

theorem apply_cases {ok okDelayed : Bool} (h : s.apply sha256Hex info j ok okDelayed = some (t, es)) :
    ∃ claim o ses, s.jobs[j]? = some (.tapping claim o) ∧ s.objects[o]? = some ses ∧
      ApplyStep sha256Hex info s j ok claim o ses t es := by
  simp only [apply] at h
  split at h
  · rename_i claim o hj
    split at h
    · rename_i ses ho
      refine ⟨claim, o, ses, hj, ho, ?_⟩
      simp only [applyOneTapApproval] at h
      cases hin : s.oneTapInput sha256Hex info claim ses with
      | error err =>
        simp only [hin, decide_true, Bool.and_self] at h
        cases h
        exact .rejected hin
      | ok input =>
        simp only [hin, trySendInput_key (oneTapInput_mem hin)] at h
        cases ok with
        | false =>
          simp only [Bool.not_false, if_true, decide_true, Bool.and_self] at h
          cases h
          exact .unsent hin rfl
        | true =>
          simp only [Bool.not_true, Bool.false_eq_true, if_false] at h
          cases hc : consumeNonce s.used s.now claim with
          | mk used err =>
            cases err with
            | some err =>
              simp only [hc] at h
              cases h
              have := @ApplyStep.refused sha256Hex info s j true claim o ses input err
              rw [hc] at this
              exact this hin rfl rfl
            | none =>
              simp only [hc] at h
              cases h
              have := @ApplyStep.answered sha256Hex info s j true claim o ses input
              rw [hc] at this
              exact this hin rfl rfl
    · cases h
  · cases h

theorem Held.done {issued : List OneTapApprovalClaim} {jobs : List Job} (hh : Held issued jobs) :
    Held issued (jobs.set j .done) := hh.set (by simp [Job.claim])

theorem TokenInv.apply (hi : TokenInv h s) {ok okDelayed : Bool}
    (hs : s.apply sha256Hex info j ok okDelayed = some (t, es)) :
    (s.tokenGood sha256Hex info (.apply j ok okDelayed) = true → TokenInv (h ++ es) t) ∧
      (OneShot (h ++ es) → s.tokenGood sha256Hex info (.apply j ok okDelayed) = true) := by
  obtain ⟨claim, o, ses, hj, ho, hstep⟩ := apply_cases hs
  have hc : claim ∈ s.issued := hi.held _ (List.mem_of_getElem? hj) claim rfl
  have hquiet : ∀ es, (∀ e ∈ es, e.writtenNonce = none ∧ e.clean = true) →
      TokenInv (h ++ es) (s.setJob j .done) := fun es he =>
    hi.quiet ((quiet_same rfl rfl le_rfl rfl he).setJob (by simp [Job.claim]))
  simp only [tokenGood, hj, ho, Option.map_some]
  cases hstep with
  | rejected hin =>
    rw [hin]
    exact ⟨fun _ => hquiet _ (by simp [Event.writtenNonce, Event.clean]), fun _ => rfl⟩
  | unsent hin hok =>
    rw [hin, hok]
    exact ⟨fun _ => hquiet _ (by simp [Event.writtenNonce, Event.clean]), fun _ => rfl⟩
  | refused hin hok he =>
    -- the nonce is looked at too late: the input is out
    rw [hin, hok]
    refine ⟨fun hg => ?_, fun hQ => ?_⟩
    · have hn := (hi.consumeNonce_eq_none_iff hc).2 (by simpa using hg)
      rw [he] at hn
      cases hn
    · have := hQ.clean (.tapped claim.nonce _ true _) (by simp; exact Or.inr ⟨rfl, rfl⟩)
      cases this
  | answered hin hok he =>
    rw [hin, hok]
    have hgood := (hi.consumeNonce_eq_none_iff hc).1 he
    refine ⟨fun _ => ?_, fun _ => by simpa using hgood⟩
    have hi' := hi.consume hc (s.answer o claim.approvalSig) (hi.held.done (j := j))
    refine ⟨?_, hi'.distinct, hi'.held, hi'.used, ?_⟩
    · refine oneShot_append.2 ⟨hi.oneShot, ⟨?_, ?_⟩, ?_⟩
      · exact List.nodup_singleton claim.nonce
      · simp [Event.clean]
      rw [show List.filterMap Event.writtenNonce [_, _, _] = [claim.nonce] from rfl, List.disjoint_singleton]
      intro hm
      obtain ⟨claim', hc', hn, hx⟩ := hi.spent _ hm
      obtain rfl := hi.distinct claim' hc' claim hc hn
      rcases hx with hx | hx
      · rw [hgood.1] at hx
        cases hx
      · exact hgood.2 hx
    · intro nonce hn
      rw [List.filterMap_append, List.mem_append] at hn
      rcases hn with hn | hn
      · exact hi'.spent nonce hn
      · obtain rfl : claim.nonce = nonce := by simpa [Event.writtenNonce] using hn
        exact ⟨claim, hc, rfl, .inr (by simp [setJob, consumeNonce_used_of_none he])⟩

theorem TokenInv.issue (hi : TokenInv h s) (hs : s.issue claim = some (t, es)) : TokenInv (h ++ es) t := by
  simp only [State.issue] at hs
  split_ifs at hs with hc
  cases hs
  have hnew : ∀ claim' ∈ s.issued, claim'.nonce ≠ claim.nonce := by
    rw [Bool.and_eq_true] at hc
    simpa using hc.2
  rw [List.append_nil]
  refine ⟨hi.oneShot, ?_, fun job hm claim' hj => List.mem_cons_of_mem _ (hi.held job hm claim' hj),
    fun u hu => ?_, fun nonce hn => ?_⟩
  · intro c hm c' hm' he
    rw [List.mem_cons] at hm hm'
    rcases hm with rfl | hm <;> rcases hm' with rfl | hm'
    · rfl
    · exact absurd he.symm (hnew c' hm')
    · exact absurd he (hnew c hm)
    · exact hi.distinct c hm c' hm' he
  · obtain ⟨c, hc, he⟩ := hi.used u hu
    exact ⟨c, List.mem_cons_of_mem _ hc, he⟩
  · obtain ⟨c, hc, he⟩ := hi.spent nonce hn
    exact ⟨c, List.mem_cons_of_mem _ hc, he⟩

theorem TokenInv.tapElsewhere {nonce : ℕ} (hi : TokenInv h s) (hs : s.tapElsewhere info nonce = some (t, es)) :
    TokenInv (h ++ es) t := by
  simp only [State.tapElsewhere, findClaim] at hs
  split at hs
  · rename_i claim hf
    split_ifs at hs
    cases hs
    rw [List.append_nil]
    exact hi.consume (List.mem_of_find?_eq_some hf) s.objects hi.held
  · cases hs

theorem tokenInv_step (h : List Event) (s : State) (a : Action) (t : State) (es : List Event)
    (hi : TokenInv h s) (hs : s.step sha256Hex info a = some (t, es)) :
    (s.tokenGood sha256Hex info a = true → TokenInv (h ++ es) t) ∧
      (OneShot (h ++ es) → s.tokenGood sha256Hex info a = true) := by
  cases a with
  | issue claim => exact ⟨fun _ => hi.issue hs, fun _ => rfl⟩
  | tapElsewhere nonce => exact ⟨fun _ => hi.tapElsewhere hs, fun _ => rfl⟩
  | apply j ok okDelayed => exact hi.apply hs
  | _ => exact ⟨fun _ => hi.quiet (quiet_step rfl hs), fun _ => rfl⟩

theorem tokenInv_registered (now : ℕ) : TokenInv [] (registered now) :=
  ⟨⟨List.nodup_nil, by simp⟩, by simp [registered], by simp [Held, registered], by simp [registered],
    by simp⟩

/-- On any run, every token writes input at most once and every action that fails has
done nothing, exactly if each action that gets as far as the wrapper has a token that
has not expired and was not used. -/
theorem one_tap_once_iff {now : ℕ} {as : List Action} (hx : exec (step sha256Hex info) (registered now) as =
    some (t, es)) : OneShot es ↔
      Meets (step sha256Hex info) (fun s a => s.tokenGood sha256Hex info a = true) (registered now) as := by
  have := history_iff_meets (I := TokenInv) (Q := OneShot) (fun h es hQ => (oneShot_append.1 hQ).1)
    (fun h s hi => hi.oneShot) tokenInv_step (tokenInv_registered now) hx
  rwa [List.nil_append] at this

/-- The SHA-256 sum of the prompt below; other texts do not come up. -/
def lsDigest (_ : List Char) : List Char :=
  "cfc60624144a12328480dedac152ab1e6efdcd0671e417d7be77c10778ce0e17".toList

def lsInfo : SessionInfo := ⟨1, "claude", "/home/user".toList⟩

/-- Its approval is answered with a token, which is posted once more. -/
def tappedTwice : List Action :=
  let sig := (lsDigest []).take 16
  [.output (proceedPrompt "Run: ls") true, .handle 0, .autoApprove 0 false,
    .issue ⟨1, sig, sig, .approve, 120, 7⟩, .post 7, .lookup 1, .apply 1 true true,
    .post 7, .lookup 2, .apply 2 true true]

theorem one_tap_once_iff_tapped_twice :
    ∃ r, exec (step lsDigest lsInfo) (registered 0) tappedTwice = some r ∧ OneShot r.2 := by
  obtain ⟨r, hr⟩ := Option.isSome_iff_exists.1
    (by decide +kernel : (exec (step lsDigest lsInfo) (registered 0) tappedTwice).isSome = true)
  exact ⟨r, hr, (one_tap_once_iff hr).2 (by decide +kernel)⟩

/-- Ten seconds after the answer the same prompt is detected again. -/
def tappedAgainLater : List Action :=
  tappedTwice ++ [.tick approvalConsumedTTL, .output (proceedPrompt "Run: ls") true, .handle 3,
    .autoApprove 3 false, .post 7, .lookup 4, .apply 4 true true]

theorem one_tap_writes_again :
    ¬ ∀ info now as t es, exec (step lsDigest info) (registered now) as = some (t, es) → OneShot es := by
  intro h
  have hw : (exec (step lsDigest lsInfo) (registered 0) tappedAgainLater).map
      (fun r => r.2.filterMap Event.writtenNonce) = some [7, 7] := by decide +kernel
  obtain ⟨r, hr, hf⟩ := Option.map_eq_some_iff.1 hw
  have hn := (h lsInfo 0 _ r.1 r.2 hr).once
  rw [hf] at hn
  exact absurd hn (by decide)

end State

end ManyAiCli.Hub.Approvals
