import ManyAiCli.Hub.Board
import ManyAiCli.Runs.Machine

/-! Whose completion does a poll credit? A section credits its own author: a
header line, and the markers up to the next header. Over any sequence of polls of
a growing board, the children marked done are the ones credited by a section,
exactly when no poll finds a marker of the last writer outside of its sections,
and none finds a newly credited child that is not the last writer. -/

namespace ManyAiCli.Hub

open Text Runs

/-! ### Sections -/

/-- A header opens a section. A marker is not one. -/
def isBoardHeader (line : List Char) : Bool :=
  hasPrefix line headerPrefix && !hasPrefix line donePrefix && !hasPrefix line successPrefix

/-- The lines that hold anything. -/
def contentLines (text : List Char) : List (List Char) := (boardLines text).filter (· ≠ [])

/-- Each header with the lines up to the next one. -/
def sections : List (List Char) → List (List Char × List (List Char))
  | [] => []
  | line :: lines =>
    if isBoardHeader line then (line, lines.takeWhile fun l => !isBoardHeader l) :: sections lines
    else sections lines

/-- The writer a header names. -/
def headerWriter (header : List Char) : BoardWriter := nextBoardWriter ⟨[], 0⟩ header

/-- Some section of session `id` holds a marker that names `id`. -/
def creditedIn (b : OrchestrationBoard) (lines : List (List Char)) (id : ℕ) : Prop :=
  id ≠ 0 ∧ ∃ sec ∈ sections lines, b.resolveBoardWriter (headerWriter sec.1) = id ∧
    ∃ ev ∈ sec.2.filterMap boardDoneEvent?, b.claimedSession ev = id

def creditedBy (b : OrchestrationBoard) (text : List Char) (id : ℕ) : Prop :=
  creditedIn b (contentLines text) id

instance (b : OrchestrationBoard) (text : List Char) (id : ℕ) : Decidable (creditedBy b text id) :=
  inferInstanceAs (Decidable (_ ∧ ∃ sec ∈ sections _, _ ∧ ∃ ev ∈ List.filterMap _ _, _))

/-- The board grew by whole sections, or not at all. -/
def AppendsSections (text text' : List Char) : Prop :=
  contentLines text <+: contentLines text' ∧
    ∀ line ∈ ((contentLines text').drop (contentLines text).length).head?, isBoardHeader line = true

instance (text text' : List Char) : Decidable (AppendsSections text text') :=
  inferInstanceAs (Decidable (_ ∧ ∀ line ∈ _, _))

/-! ### Polls -/

structure BoardState where
  board : OrchestrationBoard
  /-- The text of the last poll. -/
  text : Option (List Char)
  deriving DecidableEq, Repr

/-- A poll and the text it finds. -/
structure BoardPoll where
  text : List Char
  size : ℕ
  mod : ℕ
  now : ℕ
  deriving DecidableEq, Repr

/-- Polls find longer and longer texts. -/
def pollStep (s : BoardState) (a : BoardPoll) : Option (BoardState × List BoardOutcome) :=
  if ∀ text ∈ s.text, AppendsSections text a.text then
    let (b, outcome) := handleBoardChange s.board a.size a.mod a.text a.now
    some (⟨b, some a.text⟩, [outcome])
  else none

/-- The children marked done are the ones that a section of the text credits. -/
def CreditsAuthors (s : BoardState) : Prop :=
  ∀ child ∈ s.board.children,
    child.done = true ↔ ∃ text ∈ s.text, creditedBy s.board text child.id

instance (s : BoardState) : Decidable (CreditsAuthors s) :=
  inferInstanceAs (Decidable (∀ child ∈ _, _ ↔ ∃ text ∈ s.text, _))

/-- The poll takes no marker of the last writer from outside of its sections, and
misses no child that a section newly credits. -/
def FairPoll (s : BoardState) (a : BoardPoll) : Prop :=
  let writerID := s.board.resolveBoardWriter (detectLastBoardWriter a.text)
  (∀ child ∈ s.board.children, child.id = writerID → child.id ≠ 0 →
    (∃ ev ∈ detectBoardDoneEvents a.text, s.board.claimedSession ev = writerID) →
      creditedBy s.board a.text writerID) ∧
    ∀ child ∈ s.board.children, child.done = false → creditedBy s.board a.text child.id →
      child.id = writerID

instance (s : BoardState) (a : BoardPoll) : Decidable (FairPoll s a) :=
  inferInstanceAs (Decidable (_ ∧ _))

/-! ### A poll marks the last writer -/

/-- The same sessions and children, with more of them done. -/
structure Marks (b b' : OrchestrationBoard) (mark : ℕ → Bool) : Prop where
  sessions : b'.sessions = b.sessions
  children : ∃ g : OrchestrationChild → OrchestrationChild, b'.children = b.children.map g ∧
    ∀ child, (g child).id = child.id ∧ (g child).role = child.role ∧
      (g child).done = (child.done || mark child.id)

theorem Marks.trans {b b' b'' : OrchestrationBoard} {mark mark' : ℕ → Bool} (h : Marks b b' mark)
    (h' : Marks b' b'' mark') : Marks b b'' fun id => mark id || mark' id := by
  obtain ⟨g, hg, hgs⟩ := h.children
  obtain ⟨g', hg', hgs'⟩ := h'.children
  refine ⟨h'.sessions.trans h.sessions, g' ∘ g, by rw [hg', hg, List.map_map], fun child => ?_⟩
  obtain ⟨h1, h2, h3⟩ := hgs child
  obtain ⟨h1', h2', h3'⟩ := hgs' (g child)
  exact ⟨h1'.trans h1, h2'.trans h2, by rw [Function.comp, h3', h1, h3, Bool.or_assoc]⟩

namespace Marks

variable {b b' : OrchestrationBoard} {mark : ℕ → Bool}

theorem uniqueChild (h : Marks b b' mark) (role : List Char) :
    b'.uniqueChildSessionForRole role = b.uniqueChildSessionForRole role := by
  obtain ⟨g, hg, hgs⟩ := h.children
  have hfilter : b'.children.filter (·.role = role) = (b.children.filter (·.role = role)).map g := by
    rw [hg, List.filter_map]
    congr 1
    exact List.filter_congr fun child _ => by simp [(hgs child).2.1]
  unfold OrchestrationBoard.uniqueChildSessionForRole
  rw [hfilter]
  generalize b.children.filter (·.role = role) = cs
  split_ifs with hr
  · rfl
  · rcases cs with _ | ⟨child, _ | ⟨child', rest⟩⟩
    · rfl
    · exact (hgs child).1
    · rfl

theorem resolve (h : Marks b b' mark) (writer : BoardWriter) :
    b'.resolveBoardWriter writer = b.resolveBoardWriter writer := by
  simp only [OrchestrationBoard.resolveBoardWriter, h.sessions, h.uniqueChild]

theorem claimed (h : Marks b b' mark) (ev : BoardDoneEvent) :
    b'.claimedSession ev = b.claimedSession ev := by
  simp only [OrchestrationBoard.claimedSession, h.uniqueChild]

theorem authorize (h : Marks b b' mark) (ev : BoardDoneEvent) (writerID : ℕ) :
    b'.authorizeBoardDone ev writerID = b.authorizeBoardDone ev writerID := by
  obtain ⟨g, hg, hgs⟩ := h.children
  have hany (id : ℕ) : b'.children.any (·.id = id) = b.children.any (·.id = id) := by
    rw [hg, List.any_map]
    congr 1
    funext child
    simp [(hgs child).1]
  simp only [OrchestrationBoard.authorizeBoardDone, h.claimed, hany]

theorem credited (h : Marks b b' mark) (text : List Char) (id : ℕ) :
    creditedBy b' text id ↔ creditedBy b text id := by
  simp only [creditedBy, creditedIn, h.resolve, h.claimed]

end Marks

theorem markDone_marks (b : OrchestrationBoard) (sessionID now : ℕ) :
    Marks b (b.markDone sessionID now) (· = sessionID) :=
  ⟨rfl, _, rfl, fun child => by by_cases h : child.id = sessionID <;> simp [h]⟩

theorem touch_marks (b : OrchestrationBoard) (writer : BoardWriter) (writerID size mod now : ℕ) :
    Marks b (b.touch writer writerID size mod now) fun _ => false :=
  ⟨rfl, _, rfl, fun child => by split_ifs <;> simp⟩

theorem creditDones_marks (b : OrchestrationBoard) (writerID now : ℕ) (dones : List BoardDoneEvent) :
    Marks b (b.creditDones writerID now dones).1
      fun id => dones.any fun ev => b.authorizeBoardDone ev writerID = some id := by
  induction dones generalizing b with
  | nil => exact ⟨rfl, id, (List.map_id _).symm, fun child => by simp⟩
  | cons ev dones ih =>
    rw [OrchestrationBoard.creditDones]
    cases ha : b.authorizeBoardDone ev writerID with
    | none => simpa only [List.any_cons, ha, reduceCtorEq, decide_false, Bool.false_or] using ih b
    | some sessionID =>
      have hm := markDone_marks b sessionID now
      have h := hm.trans (ih (b.markDone sessionID now))
      simp only [hm.authorize] at h
      have hmark : (fun id => decide (id = sessionID) ||
          dones.any fun ev => b.authorizeBoardDone ev writerID = some id) =
          fun id => (ev :: dones).any fun ev => b.authorizeBoardDone ev writerID = some id := by
        funext id
        simp [ha, eq_comm]
      rwa [hmark] at h

/-- A poll marks the children that the last writer may complete. -/
theorem handleBoardChange_marks (b : OrchestrationBoard) (size mod : ℕ) (text : List Char) (now : ℕ) :
    Marks b (handleBoardChange b size mod text now).1 fun id => (detectBoardDoneEvents text).any fun ev =>
      b.authorizeBoardDone ev (b.resolveBoardWriter (detectLastBoardWriter text)) = some id := by
  have ht := touch_marks b (detectLastBoardWriter text)
    (b.resolveBoardWriter (detectLastBoardWriter text)) size mod now
  have h := ht.trans (creditDones_marks _ (b.resolveBoardWriter (detectLastBoardWriter text)) now
    (detectBoardDoneEvents text))
  simp only [ht.authorize, Bool.false_or] at h
  exact h

/-! ### Sections of a growing board -/

theorem takeWhile_prefix_append {α : Type*} (p : α → Bool) (xs ys : List α) :
    xs.takeWhile p <+: (xs ++ ys).takeWhile p := by
  induction xs with
  | nil => exact List.nil_prefix
  | cons x xs ih =>
    rw [List.cons_append, List.takeWhile_cons, List.takeWhile_cons]
    split_ifs
    · exact List.cons_prefix_cons.2 ⟨rfl, ih⟩
    · exact List.prefix_refl _

/-- A longer text has the sections of the shorter one, the last perhaps longer. -/
theorem sections_append {lines : List (List Char)} {sec : List Char × List (List Char)}
    (h : sec ∈ sections lines) (extra : List (List Char)) :
    ∃ body, sec.2 <+: body ∧ (sec.1, body) ∈ sections (lines ++ extra) := by
  induction lines with
  | nil => simp [sections] at h
  | cons line lines ih =>
    rw [List.cons_append]
    unfold sections at h ⊢
    split_ifs at h ⊢
    · rcases List.mem_cons.1 h with rfl | h
      · exact ⟨_, takeWhile_prefix_append _ lines extra, List.mem_cons_self⟩
      · obtain ⟨body, hb, hmem⟩ := ih h
        exact ⟨body, hb, List.mem_cons_of_mem _ hmem⟩
    · exact ih h

theorem mem_of_mem_sections {lines : List (List Char)} {sec : List Char × List (List Char)}
    (h : sec ∈ sections lines) {line : List Char} (hl : line ∈ sec.2) : line ∈ lines := by
  induction lines with
  | nil => simp [sections] at h
  | cons l lines ih =>
    unfold sections at h
    split_ifs at h
    · rcases List.mem_cons.1 h with rfl | h
      · exact List.mem_cons_of_mem _ ((List.takeWhile_prefix _).subset hl)
      · exact List.mem_cons_of_mem _ (ih h)
    · exact List.mem_cons_of_mem _ (ih h)

/-- Credit once given is not lost. -/
theorem creditedBy_mono {b : OrchestrationBoard} {text text' : List Char} (h : AppendsSections text text')
    {id : ℕ} (hc : creditedBy b text id) : creditedBy b text' id := by
  obtain ⟨extra, hextra⟩ := h.1
  obtain ⟨hid, sec, hsec, hw, ev, hev, hclaim⟩ := hc
  obtain ⟨body, hbody, hmem⟩ := sections_append hsec extra
  rw [hextra] at hmem
  refine ⟨hid, (sec.1, body), hmem, hw, ev, ?_, hclaim⟩
  exact (hbody.filterMap boardDoneEvent?).subset hev

/-- The markers of a section are markers of the text. -/
theorem claims_of_creditedBy {b : OrchestrationBoard} {text : List Char} {id : ℕ}
    (hc : creditedBy b text id) : ∃ ev ∈ detectBoardDoneEvents text, b.claimedSession ev = id := by
  obtain ⟨-, sec, hsec, -, ev, hev, hclaim⟩ := hc
  refine ⟨ev, ?_, hclaim⟩
  obtain ⟨line, hline, hev⟩ := List.mem_filterMap.1 hev
  have := mem_of_mem_sections hsec hline
  rw [detectBoardDoneEvents, List.mem_eraseDups, List.mem_filterMap]
  exact ⟨line, (List.mem_filter.1 this).1, hev⟩

/-! ### One poll -/

theorem authorizeBoardDone_eq_some {b : OrchestrationBoard} {ev : BoardDoneEvent} {writerID id : ℕ} :
    b.authorizeBoardDone ev writerID = some id ↔
      id ≠ 0 ∧ writerID = id ∧ b.claimedSession ev = id ∧ ∃ child ∈ b.children, child.id = id := by
  unfold OrchestrationBoard.authorizeBoardDone
  dsimp only
  split_ifs with h1 h2
  · simp only [false_iff]
    rintro ⟨hid, rfl, hc, -⟩
    rcases h1 with h1 | h1 | h1
    · exact hid (hc.symm.trans h1)
    · exact hid h1
    · exact h1 hc
  · simp only [not_or, not_not] at h1
    simp only [List.any_eq_true, decide_eq_true_eq] at h2
    rw [Option.some.injEq]
    constructor
    · rintro rfl
      exact ⟨h1.1, h1.2.2.symm, rfl, h2⟩
    · rintro ⟨-, -, hc, -⟩
      exact hc
  · simp only [List.any_eq_true, decide_eq_true_eq] at h2
    simp only [false_iff]
    rintro ⟨-, -, rfl, hex⟩
    exact h2 hex

/-- The step lemma: a poll keeps the credits right exactly when it is fair. -/
theorem creditsAuthors_step (s : BoardState) (a : BoardPoll) (t : BoardState) (es : List BoardOutcome)
    (hs : CreditsAuthors s) (h : pollStep s a = some (t, es)) : CreditsAuthors t ↔ FairPoll s a := by
  unfold pollStep at h
  split_ifs at h with hext
  simp only [Option.some.injEq, Prod.mk.injEq] at h
  obtain ⟨rfl, -⟩ := h
  have hm := handleBoardChange_marks s.board a.size a.mod a.text a.now
  obtain ⟨g, hg, hgs⟩ := hm.children
  -- what the poll marks, said without the marking
  have hmark (child : OrchestrationChild) (hc : child ∈ s.board.children) :
      (g child).done = true ↔ child.done = true ∨ child.id ≠ 0 ∧
        s.board.resolveBoardWriter (detectLastBoardWriter a.text) = child.id ∧
          ∃ ev ∈ detectBoardDoneEvents a.text, s.board.claimedSession ev = child.id := by
    rw [(hgs child).2.2, Bool.or_eq_true, List.any_eq_true]
    refine or_congr_right ?_
    simp only [decide_eq_true_eq, authorizeBoardDone_eq_some]
    constructor
    · rintro ⟨ev, hev, h0, hw, hcl, -⟩
      exact ⟨h0, hw, ev, hev, hcl⟩
    · rintro ⟨h0, hw, ev, hev, hcl⟩
      exact ⟨ev, hev, h0, hw, hcl, child, hc, rfl⟩
  have hold (child : OrchestrationChild) (hc : child ∈ s.board.children) (hd : child.done = true) :
      creditedBy s.board a.text child.id := by
    obtain ⟨text, htext, hcr⟩ := (hs child hc).1 hd
    exact creditedBy_mono (hext text htext) hcr
  have hgoal : CreditsAuthors ⟨(handleBoardChange s.board a.size a.mod a.text a.now).1, some a.text⟩ ↔
      ∀ child ∈ s.board.children, ((g child).done = true ↔ creditedBy s.board a.text child.id) := by
    unfold CreditsAuthors
    simp only [hg, List.forall_mem_map, Option.mem_some_iff, exists_eq_left', hm.credited, (hgs _).1]
  rw [hgoal]
  constructor
  · intro hall
    refine ⟨fun child hc hw h0 hev => ?_, fun child hc hd hcr => ?_⟩
    · rw [← hw]
      exact (hall child hc).1 ((hmark child hc).2 (.inr ⟨h0, hw.symm, hw ▸ hev⟩))
    · rcases (hmark child hc).1 ((hall child hc).2 hcr) with hd' | ⟨-, hw, -⟩
      · simp [hd] at hd'
      · exact hw.symm
  · rintro ⟨hfalse, hmissed⟩ child hc
    rw [hmark child hc]
    constructor
    · rintro (hd | ⟨h0, hw, hev⟩)
      · exact hold child hc hd
      · rw [← hw]
        exact hfalse child hc hw.symm h0 (hw ▸ hev)
    · intro hcr
      by_cases hd : child.done = true
      · exact .inl hd
      · exact .inr ⟨hcr.1, (hmissed child hc (by simpa using hd) hcr).symm, claims_of_creditedBy hcr⟩

/-! ### A run of polls -/

/-- The board's credits are right after every poll of a run exactly when every
poll is fair. -/
theorem board_credits_authors {b : OrchestrationBoard} (hfresh : ∀ child ∈ b.children, child.done = false)
    {polls : List BoardPoll} {s : BoardState} {es : List BoardOutcome}
    (hx : exec pollStep ⟨b, none⟩ polls = some (s, es)) :
    (∀ polls', polls' <+: polls → ∀ s' es', exec pollStep ⟨b, none⟩ polls' = some (s', es') →
      CreditsAuthors s') ↔ Meets pollStep FairPoll ⟨b, none⟩ polls := by
  refine forall_prefix_iff_meets (P := fun _ => CreditsAuthors) (h := [])
    (fun _ => creditsAuthors_step) (fun child hc => ?_) hx
  simp [hfresh child hc]

/-- An orchestration with an implementer, session 10, and a reviewer, session 11. -/
def twoChildren : OrchestrationBoard where
  path := "board.md".toList
  sessions := [1, 10, 11]
  children := [⟨10, "implementer".toList, 0, false⟩, ⟨11, "reviewer".toList, 0, false⟩]
  done := []
  lastSize := 0
  lastMod := 0
  lastWrite := 0

def ownDoneText : List Char := "## implementer session=10\nwork\n## DONE implementer session=10\n".toList

theorem board_credits_authors_own_done :
    ∃ s es, exec pollStep ⟨twoChildren, none⟩ [⟨ownDoneText, 1, 1, 1⟩] = some (s, es) ∧
      CreditsAuthors s :=
  ⟨_, _, rfl, (board_credits_authors (b := twoChildren) (by decide)
    (rfl : exec pollStep ⟨twoChildren, none⟩ [⟨ownDoneText, 1, 1, 1⟩] = some (_, _))).2 (by decide) _ (List.prefix_refl _) _ _ rfl⟩

/-- The implementer's section claims that the reviewer is done. -/
def forgedDoneText : List Char := "## implementer session=10\n## DONE reviewer session=11\n".toList

/-- Then the reviewer reports that it is at work. -/
def reviewerText : List Char := forgedDoneText ++ "\n## reviewer session=11\nrunning\n".toList

/-- A forged marker is rejected at first, and taken once its victim writes. -/
theorem forged_done_credited_later :
    ¬ ∀ b polls s es, (∀ child ∈ b.children, child.done = false) →
      exec pollStep ⟨b, none⟩ polls = some (s, es) → CreditsAuthors s := by
  intro h
  have hrun : (exec pollStep ⟨twoChildren, none⟩ [⟨forgedDoneText, 1, 1, 1⟩, ⟨reviewerText, 2, 2, 2⟩]).map
      (fun r => decide (CreditsAuthors r.1)) = some false := by decide
  obtain ⟨⟨s, es⟩, hx, hs⟩ := Option.map_eq_some_iff.1 hrun
  exact absurd (h twoChildren _ s es (by decide) hx) (of_decide_eq_false hs)

end ManyAiCli.Hub
