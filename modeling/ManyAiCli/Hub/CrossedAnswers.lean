import ManyAiCli.Hub.NativeApproval

/-! Approving and rejecting through the labels of a menu. Both look for words anywhere in a
label, in the order of the menu, and answer for the first option that has one and can be
answered. -/

namespace ManyAiCli.Hub.CrossedAnswers

open Text Approvals

/-! ### What an input does in the menu -/

/-- A key chooses its option, and enter the option with the cursor. -/
def Selects (input : List Char) (o : ApprovalOption) : Prop :=
  o.sendText ≠ [] ∧ input = o.sendText ∨ o.isCurrent = true ∧ input = ['\r']

instance (input : List Char) (o : ApprovalOption) : Decidable (Selects input o) :=
  inferInstanceAs (Decidable (_ ∨ _))

/-- The words of a label, as `autoApprovalInput` and `oneTapRejectInput` look for them. -/
def named (tokens jaTokens : List String) (o : ApprovalOption) : Bool :=
  (tokens.any fun token => contains (toLower (trimSpace o.label)) token.toList) ||
    jaTokens.any fun token => contains o.label token.toList

def affirmative (o : ApprovalOption) : Bool := named positiveTokens positiveJaTokens o

def negative (o : ApprovalOption) : Bool := named negativeTokens negativeJaTokens o

/-- One of the words stands alone. -/
def hasWord (word label : List Char) : Bool := (label.splitOnP fun c => !c.isAlpha).any (· = word)

/-- The option says no. -/
def refusal (o : ApprovalOption) : Bool :=
  hasWord "no".toList (toLower o.label) ||
    named ["reject", "deny", "cancel", "skip", "don't allow"] negativeJaTokens o

/-- The option allows more than this once. -/
def broaderGrant (o : ApprovalOption) : Bool :=
  named ["always", "don't ask again", "auto-run everything"] [] o

/-- The input selects an option of the menu, and none without the property. -/
def SelectsOnly (options : List ApprovalOption) (input : List Char) (P : ApprovalOption → Prop) : Prop :=
  (∃ o ∈ options, Selects input o) ∧ ∀ o ∈ options, Selects input o → P o

/-- Approving approves this once, rejecting rejects, and they are not the same. -/
structure NeverCross (options : List ApprovalOption) : Prop where
  reject : oneTapRejectInput options ≠ [] →
    SelectsOnly options (oneTapRejectInput options) fun o => affirmative o = false
  approve : oneTapApproveInput options ≠ [] →
    SelectsOnly options (oneTapApproveInput options) fun o => refusal o = false ∧ broaderGrant o = false
  differ : oneTapApproveInput options ≠ [] → oneTapApproveInput options ≠ oneTapRejectInput options

/-! ### The first option with a word -/

def answerable (o : ApprovalOption) : Bool := o.sendText ≠ [] || o.isCurrent

/-- The input that answers for an option. -/
def answer (o : ApprovalOption) : List Char := if o.sendText ≠ [] then o.sendText else ['\r']

/-- It is the first option that has one of the words and can be answered. -/
def IsFirst (word : ApprovalOption → Bool) (options : List ApprovalOption) (o : ApprovalOption) : Prop :=
  ∃ before after, options = before ++ o :: after ∧ word o = true ∧ answerable o = true ∧
    ∀ o' ∈ before, word o' = true → answerable o' = false

/-- What the answer of the first option with a negative word selects has no positive word;
what the answer of the first option with a positive word selects is no refusal and grants
no more. -/
structure Separate (options : List ApprovalOption) : Prop where
  negative : ∀ o, IsFirst negative options o → ∀ o' ∈ options, Selects (answer o) o' → affirmative o' = false
  positive : ∀ o, IsFirst affirmative options o →
    ∀ o' ∈ options, Selects (answer o) o' → refusal o' = false ∧ broaderGrant o' = false

variable {options : List ApprovalOption} {tokens jaTokens : List String} {o : ApprovalOption}

theorem answer_ne_nil (o : ApprovalOption) : answer o ≠ [] := by
  rw [answer]
  split_ifs with h
  · exact h
  · exact List.cons_ne_nil _ _

theorem selects_answer (h : answerable o = true) : Selects (answer o) o := by
  by_cases hs : o.sendText = []
  · right
    simp only [answerable, hs, ne_eq, not_true_eq_false, decide_false, Bool.false_or] at h
    exact ⟨h, by rw [answer, if_neg (not_not.2 hs)]⟩
  · left
    exact ⟨hs, by rw [answer, if_pos hs]⟩

/-- The text is the answer of the first option with a word, if there is one. -/
theorem inputFor_eq (tokens jaTokens : List String) (options : List ApprovalOption) :
    inputFor tokens jaTokens options =
      ((options.find? fun o => named tokens jaTokens o && answerable o).map answer).getD [] := by
  induction options with
  | nil => rfl
  | cons o options ih =>
    rw [inputFor, List.find?_cons, ih]
    cases hn : named tokens jaTokens o with
    | false =>
      rw [named] at hn
      simp [hn]
    | true =>
      rw [named] at hn
      by_cases hs : o.sendText = []
      · cases hc : o.isCurrent <;> simp [hn, hs, hc, answerable, answer]
      · simp [hn, hs, answerable, answer]

theorem find?_eq_some_iff_isFirst {word : ApprovalOption → Bool} :
    (options.find? fun o => word o && answerable o) = some o ↔ IsFirst word options o := by
  rw [List.find?_eq_some_iff_append]
  constructor
  · rintro ⟨h, before, after, rfl, hno⟩
    rw [Bool.and_eq_true] at h
    refine ⟨before, after, rfl, h.1, h.2, fun o' ho' hw => ?_⟩
    have := hno o' ho'
    simpa [hw] using this
  · rintro ⟨before, after, rfl, hw, ha, hno⟩
    refine ⟨by rw [hw, ha]; rfl, before, after, rfl, fun o' ho' => ?_⟩
    cases hw' : word o' with
    | false => rfl
    | true => simp [hno o' ho' hw']

/-- An input is the answer of a first option. -/
theorem inputFor_cases (tokens jaTokens : List String) (options : List ApprovalOption) :
    (inputFor tokens jaTokens options = [] ∧ ∀ o, ¬ IsFirst (named tokens jaTokens) options o) ∨
      ∃ o, IsFirst (named tokens jaTokens) options o ∧ inputFor tokens jaTokens options = answer o := by
  rw [inputFor_eq]
  cases hf : options.find? fun o => named tokens jaTokens o && answerable o with
  | none =>
    refine .inl ⟨rfl, fun o ho => ?_⟩
    rw [find?_eq_some_iff_isFirst.2 ho] at hf
    exact Option.some_ne_none o hf
  | some o => exact .inr ⟨o, find?_eq_some_iff_isFirst.1 hf, rfl⟩

theorem IsFirst.unique {word : ApprovalOption → Bool} {o' : ApprovalOption} (h : IsFirst word options o)
    (h' : IsFirst word options o') : o = o' :=
  Option.some.inj ((find?_eq_some_iff_isFirst.2 h).symm.trans (find?_eq_some_iff_isFirst.2 h'))

theorem IsFirst.mem {word : ApprovalOption → Bool} (h : IsFirst word options o) : o ∈ options := by
  obtain ⟨before, after, rfl, -⟩ := h
  exact List.mem_append_right _ (List.mem_cons_self ..)

theorem IsFirst.word {word : ApprovalOption → Bool} (h : IsFirst word options o) : word o = true := by
  obtain ⟨_, _, _, hw, -⟩ := h
  exact hw

theorem IsFirst.answerable {word : ApprovalOption → Bool} (h : IsFirst word options o) :
    CrossedAnswers.answerable o = true := by
  obtain ⟨_, _, _, _, ha, -⟩ := h
  exact ha

/-- The input of one of the choosers selects only options with the property exactly if the
answer of its first option does. -/
theorem selectsOnly_iff (tokens jaTokens : List String) (options : List ApprovalOption) (P : ApprovalOption → Prop) :
    (inputFor tokens jaTokens options ≠ [] → SelectsOnly options (inputFor tokens jaTokens options) P) ↔
      ∀ o, IsFirst (named tokens jaTokens) options o → ∀ o' ∈ options, Selects (answer o) o' → P o' := by
  rcases inputFor_cases tokens jaTokens options with ⟨hnil, hno⟩ | ⟨o, ho, heq⟩
  · rw [hnil]
    exact ⟨fun _ o ho => absurd ho (hno o), fun _ h => absurd rfl h⟩
  · rw [heq]
    constructor
    · intro h o' ho'
      obtain rfl := ho.unique ho'
      exact (h (answer_ne_nil _)).2
    · exact fun h _ => ⟨⟨o, ho.mem, selects_answer ho.answerable⟩, h o ho⟩

/-- Approving and rejecting do not cross exactly when the first option with a negative word
and the first one with a positive word are clear, and so are the options with their keys. -/
theorem neverCross_iff (options : List ApprovalOption) : NeverCross options ↔ Separate options := by
  have hreject := selectsOnly_iff negativeTokens negativeJaTokens options fun o => affirmative o = false
  have happrove := selectsOnly_iff positiveTokens positiveJaTokens options
    fun o => refusal o = false ∧ broaderGrant o = false
  constructor
  · exact fun h => ⟨hreject.1 h.reject, happrove.1 h.approve⟩
  · intro h
    refine ⟨hreject.2 h.negative, happrove.2 h.positive, fun hne heq => ?_⟩
    -- the option approved by this input is affirmative, and the input rejects too
    rcases inputFor_cases positiveTokens positiveJaTokens options with ⟨hnil, -⟩ | ⟨o, ho, hanswer⟩
    · exact hne hnil
    · have hsel : Selects (oneTapRejectInput options) o := by
        rw [← heq, oneTapApproveInput, autoApprovalInput, hanswer]
        exact selects_answer ho.answerable
      have hne' : oneTapRejectInput options ≠ [] := heq ▸ hne
      have hno := (hreject.2 h.negative hne').2 o ho.mem hsel
      exact absurd ho.word (by rw [← affirmative, hno]; exact Bool.false_ne_true)

/-- With the cursor on an option that runs a program whose name begins with "no", rejecting
sends enter and runs it. -/
theorem reject_runs_node : ∃ options,
    ["❯ 1. Run node".toList, "2. No".toList].mapM (parseNativeApprovalOption "claude") = some options ∧
      oneTapRejectInput options = ['\r'] ∧ oneTapApproveInput options = ['\r'] ∧ ¬ NeverCross options := by
  refine ⟨[⟨1, "Run node".toList, true, [], false⟩, ⟨2, "No".toList, false, [], false⟩], by decide +kernel,
    by decide, by decide, fun h => ?_⟩
  exact h.differ (by decide) (by decide)

end ManyAiCli.Hub.CrossedAnswers
