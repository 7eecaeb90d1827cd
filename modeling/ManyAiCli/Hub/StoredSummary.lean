import ManyAiCli.Hub.CardMessages
import ManyAiCli.SessionLog.MaskedLines
import ManyAiCli.SessionStore.Sessions
import ManyAiCli.Text.Trim

/-! The first and the last message of a session in memory and in its row of the store. Both are taken from
the same input, each under rules of its own: memory waits for a turn to be ended, takes the marks of a paste
away and forgets at `/clear`; the store looks at each input by itself. -/

namespace ManyAiCli.Hub.StoredSummary

open Text CardMessages SessionLog SessionStore

/-! ### The store -/

def isLineEnd (c : Char) : Bool := c = '\r' || c = '\n'

/-- `strings.TrimRight(text, "\r\n")`. -/
def cutLineEnds (s : List Char) : List Char := trimRight isLineEnd s

def isDigitsText (s : List Char) : Bool := isDigitsOnly s

/-- What a digit is to the last message, it is not to the first. -/
def lastOf (text : List Char) : List Char := if isDigitsText text then [] else text

/-- The branch `user_input` of `updateSessionForEvent`. -/
def updateSessionForEvent (t : Sessions) (liveSessionID : ℕ) (event : List Char) : Sessions :=
  let text := cutLineEnds event
  if trimSpace text = [] then t
  else t.updateWhere (isLive liveSessionID) fun r => { r with
    firstMessage := if r.firstMessage = [] then text else r.firstMessage
    lastMessage := if lastOf text = [] then r.lastMessage else lastOf text }

/-! ### Memory and store -/

structure State where
  srv : Server
  sessions : Sessions

/-- `handleInput` with the event that it logs, when the event has been stored. -/
def step (id : ℤ) (s : State) (text : Input) : State where
  srv := (handleInput s.srv id text).1
  sessions := updateSessionForEvent s.sessions id.toNat (maskSecrets text)

/-- The row of the session says what the session says. -/
def Same (id : ℤ) (s : State) : Prop :=
  ∀ ses, s.srv.sessions id = some ses → ∀ row ∈ s.sessions.rows, isLive id.toNat row.val = true →
    row.val.firstMessage = ses.firstMessage ∧ row.val.lastMessage = ses.lastMessage

/-- An input that the rules treat alike. -/
inductive Alike (ses : CardMessages.Session) (text : Input) : Prop
  /-- White space; if it ends a turn, nothing but line ends. -/
  | blank (hBlank : ∀ c ∈ text, isSpace c = true)
      (hEnter : text.getLast? = some '\r' → ∀ c ∈ text, c ∈ lineEnds)
  /-- A turn without the marks of a paste, that is not `/clear`. -/
  | line (hEnter : text.getLast? = some '\r') (hText : ∃ c ∈ text, isSpace c = false)
      (hStart : ¬ bracketedPasteStart <:+: text) (hEnd : ¬ bracketedPasteEnd <:+: text)
      (hClear : cutLineEnds text ≠ clearCommand)
  /-- Digits that end no turn, when there is a first message. -/
  | digits (hDigits : isDigitsOnly (cutLineEnds text) = true) (hEnter : text.getLast? ≠ some '\r')
      (hFirst : ses.firstMessage ≠ [])

/-- Along a run. -/
def AllAlike (id : ℤ) : State → List Input → Prop
  | _, [] => True
  | s, text :: rest =>
    (∀ ses, s.srv.sessions id = some ses → Alike ses text) ∧ AllAlike id (step id s text) rest

/-! ### Texts -/

theorem trimSpace_eq_nil {s : List Char} : trimSpace s = [] ↔ ∀ c ∈ s, isSpace c = true := by
  constructor
  · intro h c hc
    obtain ⟨a, b, ha, hb, hs⟩ := exists_eq_append_trimSpace s
    rw [h, List.nil_append] at hs
    rw [hs] at hc
    exact (List.mem_append.1 hc).elim (ha c) (hb c)
  · intro h
    have hAll := trimSpace_append_of_pos h []
    rwa [List.nil_append] at hAll

theorem dull_of_isSpace {c : Char} (h : isSpace c = true) : c ∈ dull := by
  obtain ⟨v, hv⟩ : ∃ v, c.toNat = v := ⟨_, rfl⟩
  have hChar : Char.ofNat v = c := by rw [← hv, Char.ofNat_toNat]
  rw [← hChar]
  simp only [isSpace, hv, Bool.or_eq_true, Bool.and_eq_true, decide_eq_true_eq] at h
  have hCases : v ∈ [0x09, 0x0A, 0x0B, 0x0C, 0x0D, 0x20, 0x85, 0xA0, 0x1680, 0x2000, 0x2001, 0x2002, 0x2003,
      0x2004, 0x2005, 0x2006, 0x2007, 0x2008, 0x2009, 0x200A, 0x2028, 0x2029, 0x202F, 0x205F, 0x3000] := by
    simp only [List.mem_cons, List.not_mem_nil, or_false]
    omega
  have hAll : ∀ n ∈ [0x09, 0x0A, 0x0B, 0x0C, 0x0D, 0x20, 0x85, 0xA0, 0x1680, 0x2000, 0x2001, 0x2002, 0x2003,
      0x2004, 0x2005, 0x2006, 0x2007, 0x2008, 0x2009, 0x200A, 0x2028, 0x2029, 0x202F, 0x205F, 0x3000],
      Char.ofNat n ∈ dull := by decide
  exact hAll v hCases

theorem dull_of_digit {c : Char} (h : ('0' ≤ c && c ≤ '9') = true) : c ∈ dull := by
  rw [Bool.and_eq_true, decide_eq_true_eq, decide_eq_true_eq] at h
  obtain ⟨v, hv⟩ : ∃ v, c.toNat = v := ⟨_, rfl⟩
  have hChar : Char.ofNat v = c := by rw [← hv, Char.ofNat_toNat]
  have hLow : 48 ≤ v := hv ▸ h.1
  have hHigh : v ≤ 57 := hv ▸ h.2
  have hAll : ∀ n < 10, Char.ofNat (n + 48) ∈ dull := by decide
  rw [← hChar, show v = v - 48 + 48 by omega]
  exact hAll (v - 48) (by omega)

/-- Nothing is removed where nothing is found. -/
theorem removeAll_of_not_within {sub s : List Char} (h : ¬ sub <:+: s) : removeAll sub 0 s = s := by
  induction s with
  | nil => rfl
  | cons c s ih =>
    have hNot : ¬ hasPrefix (c :: s) sub = true := by
      intro hPrefix
      exact h (List.isPrefixOf_iff_prefix.1 hPrefix).isInfix
    rw [removeAll, if_neg hNot]
    exact congrArg (c :: ·) (ih fun hIn => h (hIn.trans (List.suffix_cons c s).isInfix))

theorem mem_lineEnds {c : Char} : c ∈ lineEnds ↔ isLineEnd c = true := by
  rw [lineEnds, List.mem_cons, List.mem_singleton, isLineEnd, Bool.or_eq_true, decide_eq_true_eq,
    decide_eq_true_eq]

theorem isSpace_of_lineEnd {c : Char} (h : c ∈ lineEnds) : isSpace c = true := by
  rcases List.mem_cons.1 h with rfl | h
  · rfl
  · rw [List.mem_singleton.1 h]
    rfl

/-- The text and the line ends behind it. -/
theorem exists_cut (s : List Char) : ∃ y, s = cutLineEnds s ++ y ∧ ∀ c ∈ y, c ∈ lineEnds :=
  ⟨s.rtakeWhile isLineEnd, List.rdropWhile_append_rtakeWhile.symm, fun _ hc => mem_lineEnds.2 (List.mem_rtakeWhile_imp hc)⟩

theorem solid_cut (s : List Char) : Regexp.Solid lineEnds (cutLineEnds s) := by
  intro c hc hIn
  obtain ⟨t, ht⟩ := List.getLast?_eq_some_iff.1 hc
  have hTwice : cutLineEnds (cutLineEnds s) = cutLineEnds s := List.rdropWhile_idempotent isLineEnd s
  rw [ht, cutLineEnds, trimRight, List.rdropWhile_concat_pos isLineEnd t c (mem_lineEnds.1 hIn)] at hTwice
  have hShort := (List.rdropWhile_prefix isLineEnd t).length_le
  rw [hTwice, List.length_append, List.length_singleton] at hShort
  omega

theorem cut_of_solid {s : List Char} (h : Regexp.Solid lineEnds s) : cutLineEnds s = s := by
  rw [cutLineEnds, trimRight, List.rdropWhile_eq_self_iff]
  intro hne hLast
  exact h _ (List.getLast?_eq_getLast_of_ne_nil hne) (mem_lineEnds.2 hLast)

/-- Masking and cutting off the line ends go together. -/
theorem cut_maskSecrets (s : List Char) : cutLineEnds (maskSecrets s) = maskSecrets (cutLineEnds s) := by
  obtain ⟨y, hs, hy⟩ := exists_cut s
  conv_lhs => rw [hs, maskSecrets_append hy]
  rw [cutLineEnds, trimRight, rdropWhile_append_of_pos fun c hc => mem_lineEnds.1 (hy c hc)]
  exact cut_of_solid (solid_maskSecrets (solid_cut s))

theorem maskSecrets_of_digits {s : List Char} (h : isDigitsOnly s = true) : maskSecrets s = s := by
  rw [isDigitsOnly, Bool.and_eq_true] at h
  exact maskSecrets_of_dull fun c hc => dull_of_digit (List.all_eq_true.1 h.2 c hc)

theorem isDigitsOnly_maskSecrets (s : List Char) : isDigitsOnly (maskSecrets s) = isDigitsOnly s := by
  cases hDigits : isDigitsOnly s with
  | true => rw [maskSecrets_of_digits hDigits, hDigits]
  | false =>
    rcases maskSecrets_eq_or_star s with hSame | hStar
    · rw [hSame, hDigits]
    · rw [isDigitsOnly, Bool.and_eq_false_iff]
      right
      rw [List.all_eq_false]
      exact ⟨'*', hStar, by decide⟩

theorem trimSpace_maskSecrets {s : List Char} (h : ∃ c ∈ s, isSpace c = false) : trimSpace (maskSecrets s) ≠ [] := by
  intro hNil
  have hAll := trimSpace_eq_nil.1 hNil
  rcases maskSecrets_eq_or_star s with hSame | hStar
  · obtain ⟨c, hc, hNot⟩ := h
    rw [hSame] at hAll
    rw [hAll c hc] at hNot
    exact Bool.false_ne_true hNot.symm
  · exact Bool.false_ne_true (hAll '*' hStar)

/-! ### One input in memory -/

section Memory

variable {srv : Server} {id : ℤ} {ses : CardMessages.Session} {text : Input}

theorem suffix_enter : hasSuffix text ['\r'] = true ↔ text.getLast? = some '\r' := by
  rw [hasSuffix, List.isSuffixOf_iff_suffix, List.getLast?_eq_some_iff]
  constructor
  · rintro ⟨t, ht⟩
    exact ⟨t, ht.symm⟩
  · rintro ⟨t, ht⟩
    exact ⟨t, ht.symm⟩

/-- The last mark of a paste ends with a character that is neither white space nor a digit. -/
theorem tilde_mem_of_suffix (h : hasSuffix text bracketedPasteEnd = true) : '~' ∈ cutLineEnds text := by
  obtain ⟨t, ht⟩ := List.isSuffixOf_iff_suffix.1 h
  have hEnd : bracketedPasteEnd = ['\x1b', '[', '2', '0', '1'] ++ ['~'] := rfl
  rw [← ht, hEnd, ← List.append_assoc, cut_of_solid]
  · exact List.mem_append_right _ (List.mem_singleton_self _)
  · intro c hc
    rw [List.getLast?_concat] at hc
    rw [← Option.some.inj hc]
    decide

theorem cut_subset : cutLineEnds text ⊆ text := (List.rdropWhile_prefix _ text).subset

theorem turnText_line (hEnter : text.getLast? = some '\r') (hStart : ¬ bracketedPasteStart <:+: text)
    (hEnd : ¬ bracketedPasteEnd <:+: text) : turnText text = some (cutLineEnds text) := by
  have hCut (sub : Input) (h : ¬ sub <:+: text) : removeAll sub 0 (cutLineEnds text) = cutLineEnds text :=
    removeAll_of_not_within fun hIn => h (hIn.trans (List.rdropWhile_prefix _ text).isInfix)
  rw [turnText, suffix_enter.2 hEnter, Bool.true_or, if_pos rfl]
  show some (removeAll bracketedPasteEnd 0 (removeAll bracketedPasteStart 0 (cutLineEnds text))) = _
  rw [hCut _ hStart, hCut _ hEnd]

theorem handleInput_line (hses : srv.sessions id = some ses) (hTurn : turnText text = some (cutLineEnds text))
    (hClear : cutLineEnds text ≠ clearCommand) (hNil : cutLineEnds text ≠ []) :
    (handleInput srv id text).1.sessions id = some (ses.takeTurn (cutLineEnds text)) := by
  rw [handleInput, hses, hTurn]
  simp only [if_neg hClear, if_pos hNil]
  show (if id ∈ [id] then (srv.sessions id).map _ else _) = _
  rw [if_pos (List.mem_singleton_self id), hses, Option.map_some]

/-- Nothing happens where no turn ends, or the turn is empty. -/
theorem handleInput_quiet (h : turnText text = none ∨ turnText text = some []) :
    (handleInput srv id text).1 = srv := by
  cases hses : srv.sessions id with
  | none => rw [handleInput, hses]
  | some ses =>
    rcases h with h | h
    · rw [handleInput, hses, h]
    · rw [handleInput, hses, h]
      rfl

theorem turnText_blank (hBlank : ∀ c ∈ text, isSpace c = true)
    (hEnter : text.getLast? = some '\r' → ∀ c ∈ text, c ∈ lineEnds) :
    turnText text = none ∨ turnText text = some [] := by
  have hNoEnd : hasSuffix text bracketedPasteEnd = false := by
    by_contra hEnd
    have hSpace := hBlank '~' (cut_subset (tilde_mem_of_suffix (eq_true_of_ne_false hEnd)))
    exact Bool.false_ne_true hSpace
  rw [turnText, hNoEnd, Bool.or_false]
  split_ifs with hTurn
  · right
    have hNil : cutLineEnds text = [] :=
      List.rdropWhile_eq_nil_iff.2 fun c hc => mem_lineEnds.1 (hEnter (suffix_enter.1 hTurn) c hc)
    show some (removeAll bracketedPasteEnd 0 (removeAll bracketedPasteStart 0 (cutLineEnds text))) = _
    rw [hNil]
    rfl
  · exact .inl rfl

theorem turnText_digits (hDigits : isDigitsOnly (cutLineEnds text) = true)
    (hEnter : text.getLast? ≠ some '\r') : turnText text = none := by
  have hNoEnd : hasSuffix text bracketedPasteEnd = false := by
    by_contra hEnd
    rw [isDigitsOnly, Bool.and_eq_true] at hDigits
    have hDigit := List.all_eq_true.1 hDigits.2 '~' (tilde_mem_of_suffix (eq_true_of_ne_false hEnd))
    exact Bool.false_ne_true hDigit
  have hNoEnter : hasSuffix text ['\r'] = false := by
    by_contra h
    exact hEnter (suffix_enter.1 (eq_true_of_ne_false h))
  rw [turnText, hNoEnter, hNoEnd, Bool.or_false]
  exact if_neg Bool.false_ne_true

end Memory

/-! ### One input in the store -/

section Store

variable {t : Sessions} {live : ℕ} {text : Input}

/-- An input of white space is not stored. -/
theorem update_blank (h : ∀ c ∈ text, isSpace c = true) :
    updateSessionForEvent t live (maskSecrets text) = t := by
  have hMask : maskSecrets text = text := maskSecrets_of_dull fun c hc => dull_of_isSpace (h c hc)
  have hCut : trimSpace (cutLineEnds text) = [] := trimSpace_eq_nil.2 fun c hc => h c (cut_subset hc)
  rw [updateSessionForEvent, hMask]
  exact if_pos hCut

/-- A row that was updated, from the row before. -/
theorem exists_of_mem_update (h : ∃ c ∈ cutLineEnds text, isSpace c = false) {row : Tables.Numbered Str SessionRow}
    (hRow : row ∈ (updateSessionForEvent t live (maskSecrets text)).rows) (hLive : isLive live row.val = true) :
    ∃ old ∈ t.rows, isLive live old.val = true ∧
      row.val.firstMessage =
        (if old.val.firstMessage = [] then maskSecrets (cutLineEnds text) else old.val.firstMessage) ∧
      row.val.lastMessage =
        if isDigitsOnly (cutLineEnds text) then old.val.lastMessage else maskSecrets (cutLineEnds text) := by
  have hText := trimSpace_maskSecrets h
  have hNe : maskSecrets (cutLineEnds text) ≠ [] := by
    intro hNil
    rw [hNil] at hText
    exact hText rfl
  rw [updateSessionForEvent, cut_maskSecrets] at hRow
  simp only [if_neg hText] at hRow
  obtain ⟨old, hOld, rfl⟩ := Tables.Table.mem_updateWhere.1 hRow
  by_cases hWas : isLive live old.val = true
  · simp only [if_pos hWas]
    refine ⟨old, hOld, hWas, rfl, ?_⟩
    rw [lastOf, isDigitsText, isDigitsOnly_maskSecrets]
    by_cases hDigits : isDigitsOnly (cutLineEnds text) = true
    · rw [if_pos hDigits, if_pos hDigits, if_pos rfl]
    · rw [if_neg hDigits, if_neg hDigits, if_neg hNe]
  · simp only [if_neg hWas] at hLive
    exact absurd hLive hWas

/-- The row stays that of the session. -/
theorem exists_live_row {old : Tables.Numbered Str SessionRow} (hOld : old ∈ t.rows)
    (hLive : isLive live old.val = true) (event : List Char) :
    ∃ row ∈ (updateSessionForEvent t live event).rows, isLive live row.val = true := by
  rw [updateSessionForEvent]
  by_cases hBlank : trimSpace (cutLineEnds event) = []
  · simp only [if_pos hBlank]
    exact ⟨old, hOld, hLive⟩
  · simp only [if_neg hBlank]
    refine ⟨_, Tables.Table.mem_updateWhere.2 ⟨old, hOld, rfl⟩, ?_⟩
    simp only [if_pos hLive]
    exact hLive

end Store

/-! ### Runs -/

/-- An input that is treated alike keeps memory and store the same. -/
theorem same_step {id : ℤ} {s : State} {text : Input} (h : Same id s)
    (hAlike : ∀ ses, s.srv.sessions id = some ses → Alike ses text) : Same id (step id s text) := by
  cases hses : s.srv.sessions id with
  | none =>
    intro ses hNow
    have hNone : (handleInput s.srv id text).1 = s.srv := by
      rw [handleInput, hses]
    rw [step, hNone, hses] at hNow
    exact absurd hNow.symm (Option.some_ne_none _)
  | some ses =>
    cases hAlike ses hses with
    | blank hBlank hEnter =>
      have hStep : step id s text = s := by
        rw [step, handleInput_quiet (turnText_blank hBlank hEnter), update_blank hBlank]
      rwa [hStep]
    | line hEnter hText hStart hEnd hClear =>
      obtain ⟨c, hc, hNot⟩ := hText
      have hIn : ∃ c ∈ cutLineEnds text, isSpace c = false := by
        obtain ⟨y, hSplit, hy⟩ := exists_cut text
        rw [hSplit] at hc
        rcases List.mem_append.1 hc with hc | hc
        · exact ⟨c, hc, hNot⟩
        · rw [isSpace_of_lineEnd (hy c hc)] at hNot
          exact absurd hNot.symm Bool.false_ne_true
      have hNil : cutLineEnds text ≠ [] := by
        obtain ⟨d, hd, -⟩ := hIn
        exact List.ne_nil_of_mem hd
      have hNext := handleInput_line hses (turnText_line hEnter hStart hEnd) hClear hNil
      intro ses' hNow row hRow hLive
      obtain rfl := Option.some.inj (hNext.symm.trans hNow)
      have hUpdated : row ∈ (updateSessionForEvent s.sessions id.toNat (maskSecrets text)).rows := hRow
      obtain ⟨old, hOld, hWas, hFirst, hLast⟩ := exists_of_mem_update hIn hUpdated hLive
      obtain ⟨hFirst', hLast'⟩ := h ses hses old hOld hWas
      rw [hFirst, hLast, hFirst', hLast']
      exact ⟨rfl, rfl⟩
    | digits hDigits hEnter hFirst =>
      have hIn : ∃ c ∈ cutLineEnds text, isSpace c = false := by
        rw [isDigitsOnly, Bool.and_eq_true, decide_eq_true_eq] at hDigits
        obtain ⟨c, rest, hc⟩ := List.exists_cons_of_ne_nil hDigits.1
        have hMem : c ∈ cutLineEnds text := hc ▸ List.mem_cons_self
        have hDigit := List.all_eq_true.1 hDigits.2 c hMem
        rw [Bool.and_eq_true, decide_eq_true_eq, decide_eq_true_eq] at hDigit
        have hLow : 48 ≤ c.toNat := hDigit.1
        have hHigh : c.toNat ≤ 57 := hDigit.2
        refine ⟨c, hMem, ?_⟩
        simp only [isSpace, Bool.or_eq_false_iff, Bool.and_eq_false_iff, decide_eq_false_iff_not]
        omega
      intro ses' hNow row hRow hLive
      rw [step, handleInput_quiet (.inl (turnText_digits hDigits hEnter))] at hNow
      obtain rfl := Option.some.inj (hses.symm.trans hNow)
      have hUpdated : row ∈ (updateSessionForEvent s.sessions id.toNat (maskSecrets text)).rows := hRow
      obtain ⟨old, hOld, hWas, hFirst', hLast'⟩ := exists_of_mem_update hIn hUpdated hLive
      obtain ⟨hSame, hSame'⟩ := h ses hses old hOld hWas
      rw [hSame, if_neg hFirst] at hFirst'
      rw [if_pos hDigits, hSame'] at hLast'
      exact ⟨hFirst', hLast'⟩

/-- In every run of such inputs, memory and store are the same after each of them. -/
theorem stored_is_live (id : ℤ) (inputs : List Input) (s : State) (h : Same id s) (hAlike : AllAlike id s inputs) :
    ∀ earlier, earlier <+: inputs → Same id (earlier.foldl (step id) s) := by
  induction inputs generalizing s with
  | nil =>
    intro earlier hEarlier
    rw [List.prefix_nil.1 hEarlier]
    exact h
  | cons text inputs ih =>
    intro earlier hEarlier
    cases earlier with
    | nil => exact h
    | cons first earlier =>
      obtain ⟨rfl, hRest⟩ := List.cons_prefix_cons.1 hEarlier
      exact ih (step id s first) (same_step h hAlike.1) hAlike.2 earlier hRest

/-! ### A session from its start -/

theorem mem_one {α : Type*} (a : α) (id : ℤ) :
    id ∈ ({1} : Finset ℤ) ↔ (if id = 1 then some a else none).isSome := by
  rw [Finset.mem_singleton]
  split_ifs with h
  · exact iff_of_true h rfl
  · exact iff_of_false h Bool.false_ne_true

theorem one_pos (id : ℤ) (h : id ∈ ({1} : Finset ℤ)) : 0 < id := by
  rw [Finset.mem_singleton.1 h]
  exact Int.one_pos

def started : State where
  srv :=
    { ids := {1}
      sessions := fun id => if id = 1 then some { state := "standby" } else none
      mem_ids := mem_one _
      pos := one_pos }
  sessions := (startSession .empty { liveSessionID := 1, info := {}, label := [], state := [], jsonlPath := [] }).1

theorem same_started : Same 1 started := by
  intro ses hses row hRow _
  obtain rfl := Option.some.inj hses
  obtain rfl := List.mem_singleton.1 hRow
  exact ⟨rfl, rfl⟩

/-- A line and a digit after it. -/
theorem line_stored : Same 1 ([['h', 'i', '\r'], ['1']].foldl (step 1) started) := by
  refine stored_is_live 1 [['h', 'i', '\r'], ['1']] started same_started ⟨fun ses _ => ?_, fun ses hses => ?_, trivial⟩
    _ (List.prefix_refl _)
  · exact .line rfl ⟨'h', List.mem_cons_self, rfl⟩ (by decide) (by decide) (by decide)
  · refine .digits rfl (by decide) ?_
    have hLine : (handleInput started.srv 1 ['h', 'i', '\r']).1.sessions 1 =
        some (({ state := "standby" } : CardMessages.Session).takeTurn ['h', 'i']) :=
      handleInput_line rfl rfl (by decide) (List.cons_ne_nil _ _)
    obtain rfl := Option.some.inj (hLine.symm.trans hses)
    exact maskSecrets_ne_nil (List.cons_ne_nil _ _)

/-- A pasted `1`: in the row the marks of the paste are part of the message. -/
theorem paste_kept_apart : ¬ ∀ inputs : List Input, Same 1 (inputs.foldl (step 1) started) := by
  intro h
  have hPaste := h [bracketedPasteStart ++ '1' :: bracketedPasteEnd]
  have hOne : maskSecrets ['1'] = ['1'] := maskSecrets_of_digits rfl
  have hLive : (handleInput started.srv 1 (bracketedPasteStart ++ '1' :: bracketedPasteEnd)).1.sessions 1 =
      some (({ state := "standby" } : CardMessages.Session).takeTurn ['1']) := rfl
  obtain ⟨new, hNew, hNewLive⟩ : ∃ new ∈ started.sessions.rows, isLive 1 new.val = true :=
    ⟨_, List.mem_singleton_self _, rfl⟩
  obtain ⟨row, hRow, hIsLive⟩ := exists_live_row hNew hNewLive
    (maskSecrets (bracketedPasteStart ++ '1' :: bracketedPasteEnd))
  obtain ⟨old, hOld, -, hFirst, -⟩ := exists_of_mem_update
    ⟨'1', List.mem_of_elem_eq_true rfl, rfl⟩ hRow hIsLive
  obtain rfl := List.mem_singleton.1 hOld
  have hSame := (hPaste _ hLive row hRow hIsLive).1
  rw [hFirst] at hSame
  have hMask : maskSecrets (bracketedPasteStart ++ '1' :: bracketedPasteEnd) = ['1'] := hSame.trans hOne
  rcases maskSecrets_eq_or_star (bracketedPasteStart ++ '1' :: bracketedPasteEnd) with hKept | hStar
  · exact absurd (hKept.symm.trans hMask) (by decide)
  · rw [hMask] at hStar
    exact absurd hStar (by decide)

end ManyAiCli.Hub.StoredSummary
