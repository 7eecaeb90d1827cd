import ManyAiCli.Hub.ApprovalDetector
import ManyAiCli.Text.Trim

/-! What the text above a prompt can do to its risk. The menu is found in the lines
from the question on, wherever these stand on the screen. The context window also
holds lines above the question, and a command on one of these is taken for the
command of the prompt, unless the question line has a command itself. -/

namespace ManyAiCli.Hub

open Text Approval

variable {provider : String}

/-! ### The menu below a line -/

theorem optionLines_append (k : ℕ) (above below : List Line) :
    optionLines provider k (above ++ below) =
      optionLines provider k above ++ optionLines provider (k + above.length) below := by
  induction above generalizing k with
  | nil => simp [optionLines]
  | cons line above ih =>
    have h : k + 1 + above.length = k + (line :: above).length := by
      rw [List.length_cons]
      omega
    rw [List.cons_append, optionLines, optionLines]
    split <;> rw [ih, h]
    rfl

theorem optionLines_shift (k n : ℕ) (lines : List Line) :
    optionLines provider (k + n) lines = (optionLines provider k lines).map fun x => (x.1, x.2 + n) := by
  induction lines generalizing k with
  | nil => rfl
  | cons line lines ih =>
    have h := ih (k + 1)
    rw [Nat.add_right_comm] at h
    rw [optionLines, optionLines]
    split <;> rw [h]
    rfl

theorem optionLines_place {k : ℕ} {lines : List Line} {x : ApprovalOption × ℕ}
    (hx : x ∈ optionLines provider k lines) : k ≤ x.2 ∧ x.2 < k + lines.length := by
  induction lines generalizing k with
  | nil => simp [optionLines] at hx
  | cons line lines ih =>
    rw [optionLines] at hx
    rw [List.length_cons]
    split at hx
    · rcases List.mem_cons.1 hx with rfl | hx
      · constructor <;> dsimp only <;> omega
      · have := ih hx
        omega
    · have := ih hx
      omega

theorem optionLines_sorted (k : ℕ) (lines : List Line) :
    (optionLines provider k lines).Pairwise fun x y => x.2 ≤ y.2 := by
  induction lines generalizing k with
  | nil => exact List.Pairwise.nil
  | cons line lines ih =>
    rw [optionLines]
    split
    · refine List.Pairwise.cons (fun y hy => ?_) (ih (k + 1))
      have := optionLines_place hy
      dsimp only
      omega
    · exact ih (k + 1)

theorem menuOf_shift (n : ℕ) (cluster : List (ApprovalOption × ℕ)) :
    menuOf (cluster.map fun x => (x.1, x.2 + n)) =
      (menuOf cluster).map fun m => (m.1, m.2.1 + n, m.2.2 + n) := by
  cases cluster with
  | nil => rfl
  | cons first rest =>
    have hopts : menuOptions ((first :: rest).map fun x => (x.1, x.2 + n)) = menuOptions (first :: rest) := by
      simp [menuOptions, Function.comp_def]
    have hlast : ((rest.map fun x => (x.1, x.2 + n)).getLast?.getD (first.1, first.2 + n)).2 =
        (rest.getLast?.getD first).2 + n := by
      rw [List.getLast?_map]
      cases rest.getLast? <;> rfl
    rw [List.map_cons] at hopts ⊢
    simp only [menuOf, hopts, hlast, Option.map_map]
    rfl

/-- The menu of option lines that stand `n` lines further down. -/
theorem menuOf_bestCluster_shift (n : ℕ) (lines : List (ApprovalOption × ℕ)) :
    menuOf (bestCluster Prod.snd approvalOptionGapLimit (lines.map fun x => (x.1, x.2 + n))) =
      (menuOf (bestCluster Prod.snd approvalOptionGapLimit lines)).map fun m =>
        (m.1, m.2.1 + n, m.2.2 + n) := by
  have hf (x : ApprovalOption × ℕ) : Prod.snd (x.1, x.2 + n) = Prod.snd x + n := rfl
  rw [bestCluster_map hf, menuOf_shift]

/-- The menu of the lines below `above`, seen from the top. -/
theorem menu_below {above below : List Line} {opts : List ApprovalOption} {start last : ℕ}
    (hp : provider ≠ "opencode") (hstart : above.length ≤ start)
    (h : extractNativeApprovalOptions provider (above ++ below) = some (opts, start, last)) :
    ∃ g e, start = above.length + g ∧ last = above.length + e ∧
      extractNativeApprovalOptions provider below = some (opts, g, e) := by
  have hlines : optionLines provider 0 (above ++ below) = optionLines provider 0 above ++
      (optionLines provider 0 below).map fun x => (x.1, x.2 + above.length) := by
    rw [optionLines_append, optionLines_shift]
  simp only [extractNativeApprovalOptions, if_neg hp] at h ⊢
  have hsub := @bestCluster_contiguous _ Prod.snd approvalOptionGapLimit
    (optionLines provider 0 (above ++ below))
  have hlate : ∀ x ∈ bestCluster Prod.snd approvalOptionGapLimit (optionLines provider 0 (above ++ below)),
      above.length ≤ x.2 := by
    cases hc : bestCluster Prod.snd approvalOptionGapLimit (optionLines provider 0 (above ++ below)) with
    | nil => simp
    | cons first rest =>
      rw [hc] at h hsub
      have hs : first.2 = start := by
        simp only [menuOf, Option.map_eq_some_iff, Prod.mk.injEq] at h
        obtain ⟨_, -, -, hs, -⟩ := h
        exact hs
      have hsorted := (optionLines_sorted 0 (above ++ below)).sublist hsub.sublist
      intro x hx
      rcases List.mem_cons.1 hx with rfl | hx
      · omega
      · have := (List.pairwise_cons.1 hsorted).1 x hx
        omega
  rw [hlines] at h hlate
  rw [bestCluster_append (fun x hx => by simpa using (optionLines_place hx).2) hlate,
    menuOf_bestCluster_shift] at h
  obtain ⟨⟨opts', g, e⟩, hm, heq⟩ := Option.map_eq_some_iff.1 h
  simp only [Prod.mk.injEq] at heq
  obtain ⟨rfl, rfl, rfl⟩ := heq
  exact ⟨g, e, Nat.add_comm .., Nat.add_comm .., hm⟩

/-- Lines without an option move the menu down. -/
theorem menu_above {above below : List Line} {opts : List ApprovalOption} {g e : ℕ}
    (hp : provider ≠ "opencode") (hnone : ∀ line ∈ above, parseNativeApprovalOption provider line = none)
    (h : extractNativeApprovalOptions provider below = some (opts, g, e)) :
    extractNativeApprovalOptions provider (above ++ below) =
      some (opts, above.length + g, above.length + e) := by
  have habove (k : ℕ) : optionLines provider k above = [] := by
    induction above generalizing k with
    | nil => rfl
    | cons line above ih =>
      rw [optionLines, hnone line List.mem_cons_self]
      exact ih (fun l hl => hnone l (List.mem_cons_of_mem line hl)) (k + 1)
  simp only [extractNativeApprovalOptions, if_neg hp] at h ⊢
  rw [optionLines_append, habove, List.nil_append, optionLines_shift, menuOf_bestCluster_shift, h]
  simp [Nat.add_comm]

/-! ### The question line -/

theorem lastNonBlank_eq_some {lines : List Line} {n i : ℕ} :
    lastNonBlank lines n = some i ↔ i < n ∧ trimSpace (lines.getD i []) ≠ [] ∧
      ∀ j, i < j → j < n → trimSpace (lines.getD j []) = [] := by
  induction n with
  | zero => simp [lastNonBlank]
  | succ n ih =>
    rw [lastNonBlank]
    split_ifs with hb
    · rw [ih]
      constructor
      · rintro ⟨hi, hne, hall⟩
        refine ⟨by omega, hne, fun j hij hj => ?_⟩
        rcases Nat.lt_succ_iff_lt_or_eq.1 hj with hj | rfl
        · exact hall j hij hj
        · exact hb
      · rintro ⟨hi, hne, hall⟩
        have hin : i ≠ n := by
          rintro rfl
          exact hne hb
        exact ⟨by omega, hne, fun j hij hj => hall j hij (by omega)⟩
    · rw [Option.some.injEq]
      constructor
      · rintro rfl
        exact ⟨by omega, hb, fun j hij hj => by omega⟩
      · rintro ⟨hi, hne, hall⟩
        by_contra hin
        exact hb (hall n (by omega) (by omega))

/-- The screen from the question line of its prompt downwards. -/
def fromQuestion (provider : String) (lines : List Line) : Option (List Line) :=
  let recent := compactRecentLines lines approvalRecentLines
  match extractNativeApprovalOptions provider recent with
  | none => none
  | some (_, start, last) =>
    let first := start - approvalContextBefore
    (lastNonBlank (approvalContextLines recent start last) (start - first)).map fun i =>
      lines.drop (lines.length - recent.length + first + i)

/-- What is on the screen around a prompt: the recent lines above the question, those
from there on, and the menu in these. -/
structure Prompt (provider : String) (lines tail above below : List Line) (opts : List ApprovalOption)
    (g e : ℕ) : Prop where
  named : provider ≠ "opencode"
  recent : compactRecentLines lines approvalRecentLines = above ++ below
  below_eq : below = compactRecentLines tail approvalRecentLines
  length : above.length + tail.length ≤ approvalRecentLines
  menu : extractNativeApprovalOptions provider below = some (opts, g, e)
  whole : extractNativeApprovalOptions provider (above ++ below) =
    some (opts, above.length + g, above.length + e)
  start_pos : 0 < g
  start_le : g ≤ approvalContextBefore
  question : trimSpace (below.getD 0 []) ≠ []
  blank : ∀ j, 0 < j → j < g → trimSpace ((below.take (e + approvalContextAfter)).getD j []) = []

theorem compactRecentLines_drop (lines : List Line) (m : ℕ) :
    (compactRecentLines lines approvalRecentLines).drop m =
      compactRecentLines (lines.drop (lines.length - approvalRecentLines + m)) approvalRecentLines := by
  have h : (lines.drop (lines.length - approvalRecentLines + m)).length - approvalRecentLines = 0 := by
    rw [List.length_drop]
    omega
  rw [compactRecentLines, compactRecentLines, h, List.drop_zero, ← List.map_drop, List.drop_drop]

theorem compactRecentLines_length (lines : List Line) :
    (compactRecentLines lines approvalRecentLines).length =
      lines.length - (lines.length - approvalRecentLines) := by
  rw [compactRecentLines, List.length_map, List.length_drop]

theorem getD_context (recent : List Line) (start last j : ℕ) :
    (approvalContextLines recent start last).getD j [] =
      (recent.take (last + approvalContextAfter)).getD (start - approvalContextBefore + j) [] := by
  simp [approvalContextLines, List.getD_eq_getElem?_getD, List.getElem?_drop]

theorem getD_take_drop (lines : List Line) (m n j : ℕ) :
    (lines.take (m + n)).getD (m + j) [] = ((lines.drop m).take n).getD j [] := by
  simp [List.getD_eq_getElem?_getD, List.getElem?_take, List.getElem?_drop]

theorem getD_zero_take {lines : List Line} {n : ℕ} (hn : 0 < n) :
    (lines.take n).getD 0 [] = lines.getD 0 [] := by
  simp [List.getD_eq_getElem?_getD, hn]

theorem prompt_of_fromQuestion {lines tail : List Line} (h : fromQuestion provider lines = some tail) :
    ∃ above below opts g e, Prompt provider lines tail above below opts g e := by
  dsimp only [fromQuestion] at h
  split at h
  on_goal 1 => cases h
  rename_i opts start last hx
  obtain ⟨i, hi, rfl⟩ := Option.map_eq_some_iff.1 h
  obtain ⟨hlt, hne, hblank⟩ := lastNonBlank_eq_some.1 hi
  simp only [getD_context] at hne hblank
  have hnamed : provider ≠ "opencode" := by
    rintro rfl
    simp only [extractNativeApprovalOptions, if_true, Option.map_eq_some_iff, Prod.mk.injEq] at hx
    obtain ⟨_, -, -, hs, -⟩ := hx
    omega
  have hlen := compactRecentLines_length lines
  generalize hm : start - approvalContextBefore + i = m at hne
  have hmlt : m < (compactRecentLines lines approvalRecentLines).length := by
    by_contra hge
    rw [List.getD_eq_getElem?_getD, List.getElem?_eq_none (by rw [List.length_take]; omega)] at hne
    exact hne rfl
  have hsplit := (List.take_append_drop m (compactRecentLines lines approvalRecentLines)).symm
  have habove : ((compactRecentLines lines approvalRecentLines).take m).length = m := by
    rw [List.length_take]
    omega
  have htail : lines.length - (compactRecentLines lines approvalRecentLines).length +
      (start - approvalContextBefore) + i = lines.length - approvalRecentLines + m := by
    omega
  rw [htail]
  rw [hsplit] at hx
  obtain ⟨g, e, hg, he, hmenu⟩ := menu_below hnamed (by omega) hx
  rw [habove] at hg he
  refine ⟨_, _, opts, g, e, hnamed, hsplit, compactRecentLines_drop lines m, ?_, hmenu, ?_, by omega,
    by omega, ?_, fun j hj hjg => ?_⟩
  · rw [habove, List.length_drop]
    omega
  · rw [habove, hx, hg, he]
  · rw [he, Nat.add_assoc] at hne
    have h0 := getD_take_drop (compactRecentLines lines approvalRecentLines) m (e + approvalContextAfter) 0
    rw [Nat.add_zero] at h0
    rw [h0, getD_zero_take (by simp [approvalContextAfter])] at hne
    exact hne
  · have hb := hblank (i + j) (by omega) (by omega)
    rw [← Nat.add_assoc, hm, he, Nat.add_assoc, getD_take_drop] at hb
    exact hb

namespace Prompt

variable {lines tail above below : List Line} {opts : List ApprovalOption} {g e : ℕ}

/-- The lines of the context window. -/
theorem context (p : Prompt provider lines tail above below opts g e) :
    approvalContextLines (above ++ below) (above.length + g) (above.length + e) =
      above.drop (above.length + g - approvalContextBefore) ++ below.take (e + approvalContextAfter) := by
  have hle := p.start_le
  rw [approvalContextLines, Nat.add_assoc, List.take_length_add_append, List.drop_append_of_le_length]
  omega

theorem lastNonBlank (p : Prompt provider lines tail above below opts g e) :
    lastNonBlank (approvalContextLines (above ++ below) (above.length + g) (above.length + e))
        (above.length + g - (above.length + g - approvalContextBefore)) =
      some (above.length - (above.length + g - approvalContextBefore)) := by
  have hle := p.start_le
  have hpos := p.start_pos
  have hget (j : ℕ) (hj : above.length ≤ above.length + g - approvalContextBefore + j) :
      (approvalContextLines (above ++ below) (above.length + g) (above.length + e)).getD j [] =
        (below.take (e + approvalContextAfter)).getD
          (above.length + g - approvalContextBefore + j - above.length) [] := by
    obtain ⟨d, hd⟩ := Nat.exists_eq_add_of_le hj
    rw [getD_context, hd, Nat.add_assoc, getD_take_drop, List.drop_left, Nat.add_sub_cancel_left]
  rw [lastNonBlank_eq_some]
  refine ⟨by omega, ?_, fun j hj hjg => ?_⟩
  · rw [hget _ (by omega), show above.length + g - approvalContextBefore +
      (above.length - (above.length + g - approvalContextBefore)) - above.length = 0 by omega,
      getD_zero_take (by simp [approvalContextAfter])]
    exact p.question
  · rw [hget _ (by omega)]
    exact p.blank _ (by omega) (by omega)

theorem question_eq (p : Prompt provider lines tail above below opts g e) :
    nativeApprovalQuestion
        (approvalContextLines (above ++ below) (above.length + g) (above.length + e))
        (above.length + g - (above.length + g - approvalContextBefore)) =
      trimSpace (below.getD 0 []) := by
  have hle := p.start_le
  rw [nativeApprovalQuestion, p.lastNonBlank]
  dsimp only
  rw [getD_context, show above.length + g - approvalContextBefore +
    (above.length - (above.length + g - approvalContextBefore)) = above.length + 0 by omega, Nat.add_assoc,
    getD_take_drop, List.drop_left, getD_zero_take (by simp [approvalContextAfter])]

theorem detect_eq (p : Prompt provider lines tail above below opts g e)
    (sha256Hex : List Char → List Char) :
    detectNativeApproval sha256Hex provider lines =
      let contextLines := above.drop (above.length + g - approvalContextBefore) ++
        below.take (e + approvalContextAfter)
      let question := trimSpace (below.getD 0 [])
      let kind := approvalKind provider opts
      let context := joinLines contextLines
      if !nativeApprovalLooksValid provider contextLines opts then none
      else if looksLikeNativeAskUserQuestion opts then none
      else some ⟨(sha256Hex (nativeApprovalSigText provider kind question context opts)).take 16, kind,
        question, context, opts, summarize question context⟩ := by
  simp only [detectNativeApproval, p.recent, p.whole, p.question_eq, p.named, decide_false,
    Bool.false_and, Bool.false_eq_true, if_false]
  rw [p.context]

theorem fromQuestion_eq (p : Prompt provider lines tail above below opts g e) :
    fromQuestion provider lines =
      some (lines.drop (lines.length - (above ++ below).length + above.length)) := by
  have hle := p.start_le
  simp only [fromQuestion, p.recent, p.whole, p.lastNonBlank, Option.map_some]
  congr 2
  omega

/-- A line put on top of a prompt that has room for it. -/
theorem cons (p : Prompt provider lines tail above below opts g e) {line : Line}
    (hparse : parseNativeApprovalOption provider line = none) (htrim : trimRight (· = ' ') line = line)
    (hroom : tail.length < approvalRecentLines) :
    Prompt provider (line :: tail) tail [line] below opts g e where
  named := p.named
  recent := by
    have h0 : (line :: tail).length - approvalRecentLines = 0 := by
      rw [List.length_cons]
      omega
    have h0' : tail.length - approvalRecentLines = 0 := by omega
    rw [p.below_eq, compactRecentLines, compactRecentLines, h0, h0', List.drop_zero, List.drop_zero,
      List.map_cons, htrim]
    rfl
  below_eq := p.below_eq
  length := by
    rw [List.length_singleton]
    omega
  menu := p.menu
  whole := menu_above p.named (by simpa using hparse) p.menu
  start_pos := p.start_pos
  start_le := p.start_le
  question := p.question
  blank := p.blank

end Prompt

/-! ### The command of a prompt -/

theorem prefixedCommand_trimSpace (line : Line) : prefixedCommand (trimSpace line) = prefixedCommand line := by
  rw [prefixedCommand, prefixedCommand, trimSpace_trimSpace]

/-- A command on the question line hides those of the context. -/
theorem extractCommand_of_question {question context command : List Char}
    (h : prefixedCommand question = some command) : extractCommand question context = command := by
  simp [extractCommand, h]

/-- Without one, the first line of the context comes first. -/
theorem extractCommand_of_first {question line command : List Char} {lines : List Line}
    (hq : prefixedCommand question = none) (hl : prefixedCommand line = some command) (hn : '\n' ∉ line)
    (hne : lines ≠ []) : extractCommand question (joinLines (line :: lines)) = command := by
  have hsplit : splitLines (joinLines (line :: lines)) = line :: splitLines (joinLines lines) := by
    rw [joinLines, List.intercalate_cons_of_ne_nil hne, List.append_assoc, splitLines,
      List.singleton_append, List.splitOn_append_cons_self_of_not_mem hn]
    rfl
  simp [extractCommand, hsplit, hq, hl]

/-- The lines from the question on decide the command: the question line has one, or
no line above it is in the context window. -/
def decidedBelow (provider : String) (tail : List Line) : Bool :=
  let recent := compactRecentLines tail approvalRecentLines
  match extractNativeApprovalOptions provider recent with
  | none => true
  | some (_, start, _) =>
    (prefixedCommand (recent.getD 0 [])).isSome || tail.length ≥ approvalRecentLines ||
      start ≥ approvalContextBefore

theorem Prompt.decidedBelow_iff {lines tail above below : List Line} {opts : List ApprovalOption} {g e : ℕ}
    (p : Prompt provider lines tail above below opts g e) :
    decidedBelow provider tail = true ↔
      (prefixedCommand (below.getD 0 [])).isSome = true ∨ tail.length = approvalRecentLines ∨
        g = approvalContextBefore := by
  have hlen := p.length
  have hle := p.start_le
  simp only [decidedBelow, ← p.below_eq, p.menu, Bool.or_eq_true, decide_eq_true_eq, or_assoc]
  refine or_congr Iff.rfl (or_congr ⟨fun h => by omega, fun h => by omega⟩ ⟨fun h => by omega, fun h => by omega⟩)

/-- A line that none of the option patterns matches. -/
theorem parse_eq_none {line : Line} (ht : trimSpace (trim isBar (trimSpace line)) = line)
    (hn : (numberedApprovalLineRe.findSubmatch line).isNone = true)
    (hc : (cursorAgentShortcutLineRe.findSubmatch line).isNone = true)
    (hs : (shortcutApprovalLineRe.findSubmatch line).isNone = true) :
    parseNativeApprovalOption provider line = none := by
  rw [Option.isNone_iff_eq_none] at hn hc hs
  simp only [parseNativeApprovalOption, ht, hn, parseCursorAgentShortcutOption, hc, parseShortcutOption, hs]
  split_ifs <;> rfl

/-- Lines with the hint of an approval, and a command. -/
def lowLine : Line := "Run: ls approval".toList

def midLine : Line := "Run: make approval".toList

theorem parse_lowLine : parseNativeApprovalOption provider lowLine = none :=
  parse_eq_none (by decide) (by decide) (by decide) (by decide)

theorem parse_midLine : parseNativeApprovalOption provider midLine = none :=
  parse_eq_none (by decide) (by decide) (by decide) (by decide)

theorem looksValid_cons {line : Line} (hhint : contains (toLower line) "approval".toList = true)
    (lines contextLines : List Line) {opts : List ApprovalOption}
    (h : nativeApprovalLooksValid provider contextLines opts = true) :
    nativeApprovalLooksValid provider (line :: lines) opts = true := by
  have hlower : contains (toLower (joinLines (line :: lines))) "approval".toList = true := by
    have hpre : line <+: joinLines (line :: lines) := by
      cases lines with
      | nil => simp [joinLines]
      | cons l ls =>
        rw [joinLines, List.intercalate_cons_cons, List.append_assoc]
        exact List.prefix_append _ _
    rw [contains_iff] at hhint ⊢
    exact hhint.trans (hpre.map lowerChar).isInfix
  have hnew : hasApprovalHint provider (line :: lines) = true := by
    have hany : (nativeApprovalHints.any fun token =>
        contains (toLower (joinLines (line :: lines))) token.toList) = true :=
      List.any_eq_true.2 ⟨"approval", List.mem_cons_self, hlower⟩
    simp only [hasApprovalHint, hany, Bool.true_or]
  simp only [nativeApprovalLooksValid, hnew, Bool.true_and] at h ⊢
  split_ifs at h ⊢ with hs
  · rfl
  · exact (Bool.and_eq_true_iff.1 h).2

/-- A line with the hint of an approval on top of a prompt. -/
theorem Prompt.detect_cons {lines tail above below : List Line} {opts : List ApprovalOption} {g e : ℕ}
    (p : Prompt provider lines tail above below opts g e) {sha256Hex : List Char → List Char}
    {r : NativeApproval} (h : detectNativeApproval sha256Hex provider lines = some r)
    (hu : ¬ decidedBelow provider tail = true) {line command : Line}
    (hparse : parseNativeApprovalOption provider line = none) (htrim : trimRight (· = ' ') line = line)
    (hhint : contains (toLower line) "approval".toList = true) (hn : '\n' ∉ line)
    (hc : prefixedCommand line = some command) :
    ∃ r', detectNativeApproval sha256Hex provider (line :: tail) = some r' ∧ r'.options = r.options ∧
      r'.question = r.question ∧ fromQuestion provider (line :: tail) = some tail ∧
      r'.summary.command = command := by
  simp only [p.decidedBelow_iff, not_or] at hu
  obtain ⟨hq, hroom, hg⟩ := hu
  have hlen := p.length
  have hle := p.start_le
  have hp := p.cons hparse htrim (by omega)
  rw [p.detect_eq] at h
  simp only at h
  split_ifs at h with hvalid hask
  simp only [Option.some.injEq] at h
  have hdrop : List.drop ([line].length + g - approvalContextBefore) [line] = [line] := by
    rw [List.length_singleton, show 1 + g - approvalContextBefore = 0 by omega, List.drop_zero]
  have hvalid' := looksValid_cons hhint (below.take (e + approvalContextAfter)) _ (by simpa using hvalid)
  have hne : below.take (e + approvalContextAfter) ≠ [] := by
    intro hnil
    have := p.question
    rw [← getD_zero_take (n := e + approvalContextAfter) (by simp [approvalContextAfter]), hnil] at this
    exact this rfl
  have hd := hp.detect_eq sha256Hex
  simp only [hdrop, List.singleton_append, hvalid', Bool.not_true, Bool.false_eq_true, if_false, hask] at hd
  refine ⟨_, hd, ?_, ?_, ?_, ?_⟩
  · rw [← h]
  · rw [← h]
  · have hbelow : below.length = tail.length := by
      have := compactRecentLines_length tail
      rw [← p.below_eq] at this
      omega
    rw [hp.fromQuestion_eq]
    simp [hbelow]
  · refine extractCommand_of_first ?_ hc hn hne
    rw [prefixedCommand_trimSpace]
    simpa using hq

/-- Two screens that agree from the question line downwards. -/
theorem Prompt.extractCommand_eq {lines lines' tail above above' below below' : List Line}
    {opts opts' : List ApprovalOption} {g g' e e' : ℕ}
    (p : Prompt provider lines tail above below opts g e)
    (p' : Prompt provider lines' tail above' below' opts' g' e') (hd : decidedBelow provider tail = true) :
    extractCommand (trimSpace (below'.getD 0 [])) (joinLines
        (above'.drop (above'.length + g' - approvalContextBefore) ++ below'.take (e' + approvalContextAfter))) =
      extractCommand (trimSpace (below.getD 0 [])) (joinLines
        (above.drop (above.length + g - approvalContextBefore) ++ below.take (e + approvalContextAfter))) := by
  obtain rfl : below = below' := p.below_eq.trans p'.below_eq.symm
  obtain ⟨rfl, rfl, rfl⟩ : opts = opts' ∧ g = g' ∧ e = e' := by
    simpa using p.menu.symm.trans p'.menu
  rcases p.decidedBelow_iff.1 hd with hq | hfull | hg
  · obtain ⟨command, hc⟩ := Option.isSome_iff_exists.1 hq
    rw [← prefixedCommand_trimSpace] at hc
    rw [extractCommand_of_question hc, extractCommand_of_question hc]
  · have hlen := p.length
    have hlen' := p'.length
    obtain rfl : above = [] := List.length_eq_zero_iff.1 (by omega)
    obtain rfl : above' = [] := List.length_eq_zero_iff.1 (by omega)
    rfl
  · rw [hg, Nat.add_sub_cancel, Nat.add_sub_cancel, List.drop_length, List.drop_length]

theorem fromQuestion_isSome {lines : List Line} {sha256Hex : List Char → List Char} {r : NativeApproval}
    (h : detectNativeApproval sha256Hex provider lines = some r) (hq : r.question ≠ []) :
    ∃ tail, fromQuestion provider lines = some tail := by
  simp only [detectNativeApproval] at h
  simp only [fromQuestion]
  split at h
  · cases h
  · rename_i opts start last hx
    cases hl : lastNonBlank (approvalContextLines (compactRecentLines lines approvalRecentLines) start last)
        (start - (start - approvalContextBefore)) with
    | some i =>
      simp only [hx, hl, Option.map_some, Option.some.injEq]
      exact ⟨_, rfl⟩
    | none =>
      split_ifs at h
      simp only [Option.some.injEq] at h
      rw [← h] at hq
      simp [nativeApprovalQuestion, hl] at hq

/-- The text above the question cannot change the command of a prompt, and with it its
risk, exactly when the lines from the question on decide the command. -/
theorem risk_from_question_iff {lines : List Line} {sha256Hex : List Char → List Char}
    {r : NativeApproval} (h : detectNativeApproval sha256Hex provider lines = some r)
    (hq : r.question ≠ []) :
    (∀ lines' r', detectNativeApproval sha256Hex provider lines' = some r' → r'.options = r.options →
      r'.question = r.question → fromQuestion provider lines' = fromQuestion provider lines →
        r'.summary.command = r.summary.command ∧ r'.summary.risk = r.summary.risk) ↔
      (fromQuestion provider lines).any (decidedBelow provider) = true := by
  obtain ⟨tail, ht⟩ := fromQuestion_isSome h hq
  obtain ⟨above, below, opts, g, e, p⟩ := prompt_of_fromQuestion ht
  rw [ht, Option.any_some]
  constructor
  · intro hall
    by_contra hu
    obtain ⟨r₁, h₁, ho₁, hq₁, hf₁, hc₁⟩ := p.detect_cons h hu parse_lowLine (by decide) (by decide)
      (by decide) (show prefixedCommand lowLine = some "ls approval".toList by decide)
    obtain ⟨r₂, h₂, ho₂, hq₂, hf₂, hc₂⟩ := p.detect_cons h hu parse_midLine (by decide) (by decide)
      (by decide) (show prefixedCommand midLine = some "make approval".toList by decide)
    have he := (hall _ r₁ h₁ ho₁ hq₁ hf₁).1.trans (hall _ r₂ h₂ ho₂ hq₂ hf₂).1.symm
    rw [hc₁, hc₂] at he
    exact absurd he (by decide)
  · intro hd lines' r' h' _ _ hf
    obtain ⟨above', below', opts', g', e', p'⟩ := prompt_of_fromQuestion hf
    have hc := p.extractCommand_eq p' hd
    rw [p.detect_eq] at h
    rw [p'.detect_eq] at h'
    simp only at h h'
    split_ifs at h h'
    simp only [Option.some.injEq] at h h'
    rw [← h, ← h']
    simp only [summarize, hc, and_self]

/-- What a prompt shows, its signature apart. -/
def NativeApproval.facts (r : NativeApproval) : List ApprovalOption × Line × List Char × ApprovalRiskTier :=
  (r.options, r.question, r.summary.command, r.summary.risk)

theorem facts_eq (sha256Hex : List Char → List Char) (lines : List Line) :
    (detectNativeApproval sha256Hex provider lines).map NativeApproval.facts =
      (detectNativeApproval id provider lines).map NativeApproval.facts := by
  simp only [detectNativeApproval]
  split
  · rfl
  · split_ifs <;> rfl

/-- A prompt whose question line is its command, below some text. -/
def commandPrompt (text : String) : List Line :=
  [text.toList, "Run: make install".toList, [], "❯ Yes (y)".toList, "  No, cancel approval (n)".toList]

theorem risk_from_question_iff_command_prompt :
    (detectNativeApproval id "codex" (commandPrompt "Run: ls")).map (·.summary.risk) =
      (detectNativeApproval id "codex" (commandPrompt "make finished")).map (·.summary.risk) := by
  obtain ⟨r, hr⟩ := Option.isSome_iff_exists.1
    (by decide : (detectNativeApproval id "codex" (commandPrompt "make finished")).isSome = true)
  obtain ⟨r', hr'⟩ := Option.isSome_iff_exists.1
    (by decide : (detectNativeApproval id "codex" (commandPrompt "Run: ls")).isSome = true)
  have hq : some r.question = some "Run: make install".toList := by
    rw [← Option.map_some, ← hr]
    decide
  have hsame : some (r'.options, r'.question) = some (r.options, r.question) := by
    rw [← Option.map_some (f := fun x : NativeApproval => (x.options, x.question)),
      ← Option.map_some (f := fun x : NativeApproval => (x.options, x.question)), ← hr, ← hr']
    decide
  simp only [Option.some.injEq, Prod.mk.injEq] at hq hsame
  rw [hr, hr', Option.map_some, Option.map_some, Option.some.injEq]
  exact ((risk_from_question_iff hr (by rw [hq]; decide)).2 (by decide) _ r' hr' hsame.1 hsame.2 (by decide)).2

def yesNo : List ApprovalOption :=
  [⟨1, "Yes".toList, true, [], false⟩, ⟨2, "No".toList, false, [], false⟩]

/-- A prompt whose question line has no command, below some text. -/
def proceedPrompt (text : String) : List Line :=
  [text.toList, "Do you want to proceed?".toList, "❯ 1. Yes".toList, "  2. No".toList]

/-- A line above such a prompt makes its risk low. -/
theorem text_above_lowers_risk :
    ¬ ∃ sha256Hex, ∀ provider lines lines' r r', detectNativeApproval sha256Hex provider lines = some r →
      detectNativeApproval sha256Hex provider lines' = some r' → r'.options = r.options →
        r.question ≠ [] → r'.question = r.question →
          fromQuestion provider lines' = fromQuestion provider lines →
            r'.summary.command = r.summary.command ∧ r'.summary.risk = r.summary.risk := by
  rintro ⟨sha256Hex, h⟩
  have hmake := @facts_eq "claude" sha256Hex (proceedPrompt "Run: make")
  have hls := @facts_eq "claude" sha256Hex (proceedPrompt "Run: ls")
  rw [show (detectNativeApproval id "claude" (proceedPrompt "Run: make")).map NativeApproval.facts =
    some (yesNo, "Do you want to proceed?".toList, "make".toList, .mid) by decide,
    Option.map_eq_some_iff] at hmake
  rw [show (detectNativeApproval id "claude" (proceedPrompt "Run: ls")).map NativeApproval.facts =
    some (yesNo, "Do you want to proceed?".toList, "ls".toList, .low) by decide,
    Option.map_eq_some_iff] at hls
  obtain ⟨r, hr, hf⟩ := hmake
  obtain ⟨r', hr', hf'⟩ := hls
  simp only [NativeApproval.facts, Prod.mk.injEq] at hf hf'
  have := h "claude" _ _ r r' hr hr' (by rw [hf.1, hf'.1]) (by rw [hf.2.1]; decide)
    (by rw [hf.2.1, hf'.2.1]) (by decide)
  rw [hf.2.2.2, hf'.2.2.2] at this
  exact absurd this.2 (by decide)

end ManyAiCli.Hub
