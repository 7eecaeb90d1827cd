import ManyAiCli.Web.HubBlockLines

/-! Question blocks of the documented layout: a heading for each question, its options in order, and an
anchor where a free answer is allowed. They are read back as they were asked. -/

namespace ManyAiCli.Web.HubBlock

open Text (BlockMarks)
open UngluedLines

/-! ### The documented layout -/

structure Question where
  title : Line
  labels : List Line
  freeInput : Bool
  deriving DecidableEq

def Question.lines (q : Question) (num : ℕ) : List Line :=
  headingLine num q.title :: ((q.labels.zipIdx 1).map fun l => optionLine l.2 l.1) ++
    if q.freeInput then [anchorLine] else []

/-- The lines between the markers. -/
def questionLines (questions : List Question) : List Line :=
  (questions.zipIdx 1).flatMap fun q => q.1.lines q.2

def layout (questions : List Question) : List Line := opening :: questionLines questions ++ [closing]

/-- A title or label: a trimmed line without a marker, a heading, a number or an anchor. -/
structure Plain (s : Line) : Prop extends IsText s, Free s where
  closing : ¬ closing <:+: s
  yesNo : hasYesNoApprovalMarker s = false

instance (s : Line) : Decidable (Plain s) :=
  decidable_of_iff ((s ≠ [] ∧ trim s = s ∧ s.all (!isLineEnd ·) = true) ∧
      (HeadingFree s ∧ NumberFree s ∧ findAnchor false s = none) ∧
      ¬ closing <:+: s ∧ hasYesNoApprovalMarker s = false)
    ⟨fun ⟨⟨h1, h2, h3⟩, ⟨h4, h5, h6⟩, h7, h8⟩ => ⟨⟨h1, h2, h3⟩, ⟨h4, h5, h6⟩, h7, h8⟩,
      fun ⟨⟨h1, h2, h3⟩, ⟨h4, h5, h6⟩, h7, h8⟩ => ⟨⟨h1, h2, h3⟩, ⟨h4, h5, h6⟩, h7, h8⟩⟩

structure Question.IsPlain (q : Question) : Prop where
  title : Plain q.title
  labels : ∀ label ∈ q.labels, Plain label
  choice : 2 ≤ q.labels.length

instance (q : Question) : Decidable q.IsPlain :=
  decidable_of_iff (Plain q.title ∧ (∀ label ∈ q.labels, Plain label) ∧ 2 ≤ q.labels.length)
    ⟨fun ⟨h1, h2, h3⟩ => ⟨h1, h2, h3⟩, fun ⟨h1, h2, h3⟩ => ⟨h1, h2, h3⟩⟩

def Question.asSection (q : Question) (num : ℕ) : Section :=
  ⟨num, shownTitle q.title, (q.labels.zipIdx 1).map fun l => choice l.2 l.1, q.freeInput⟩

/-- The sections in order, or the options of the only one. -/
def formOfSections : List Section → Form
  | [one] => .options one.options false []
  | sections => .batch sections

def formOfQuestions (questions : List Question) : Form :=
  formOfSections ((questions.zipIdx 1).map fun q => q.1.asSection q.2)

/-- What a line of the layout may be. -/
inductive IsLine : Line → Prop
  | heading {s : Line} (num : ℕ) (h : Plain s) : IsLine (headingLine num s)
  | option {s : Line} (num : ℕ) (h : Plain s) : IsLine (optionLine num s)
  | anchor : IsLine anchorLine

theorem IsLine.uncut {line : Line} (h : IsLine line) : Uncut line := by
  cases h with
  | heading num h => exact uncut_headingLine h.toFree num
  | option num h => exact uncut_optionLine h.toFree num
  | anchor => exact uncut_anchorLine

theorem IsLine.trimmed {line : Line} (h : IsLine line) : trim line = line := by
  cases h with
  | heading num h => exact trim_headingLine h.toIsText
  | option num h => exact trim_optionLine h.toIsText
  | anchor => decide

theorem Question.IsPlain.isLine {q : Question} (hq : q.IsPlain) (num : ℕ) :
    ∀ line ∈ q.lines num, IsLine line := by
  intro line hline
  rcases List.mem_append.1 hline with hline | hline
  · rcases List.mem_cons.1 hline with rfl | hline
    · exact .heading num hq.title
    · obtain ⟨⟨label, i⟩, hmem, rfl⟩ := List.mem_map.1 hline
      exact .option i (hq.labels label (List.fst_mem_of_mem_zipIdx hmem))
  · split at hline
    · obtain rfl := List.mem_singleton.1 hline
      exact .anchor
    · exact absurd hline List.not_mem_nil

theorem isLine_questionLines {questions : List Question} (h : ∀ q ∈ questions, q.IsPlain) :
    ∀ line ∈ questionLines questions, IsLine line := by
  intro line hline
  obtain ⟨⟨q, num⟩, hmem, hline⟩ := List.mem_flatMap.1 hline
  exact (h q (List.fst_mem_of_mem_zipIdx hmem)).isLine num line hline

/-! ### No yes/no marker -/

theorem hasYesNo_eq_false_iff {s : Line} :
    hasYesNoApprovalMarker s = false ↔ ∀ t, t <:+ s → spacedHere yesNoMarker t = false := by
  have hmarkers : hasYesNoApprovalMarker s = false ↔ yesNoMarkers s = [] := by
    simp [hasYesNoApprovalMarker]
  rw [hmarkers, yesNoMarkers, List.filter_eq_nil_iff]
  constructor
  · intro h t ht
    cases t with
    | nil => rfl
    | cons u t =>
      have hlen := ht.length_le
      rw [List.length_cons] at hlen
      have hdrop := List.suffix_iff_eq_drop.1 ht
      have hi := h (s.length - (u :: t).length) (List.mem_range.2 (by rw [List.length_cons]; omega))
      rw [← hdrop] at hi
      exact Bool.not_eq_true _ ▸ hi
  · intro h i _
    rw [h _ (List.drop_suffix i s)]
    exact Bool.false_ne_true

/-- A marker begins with a bracket. -/
theorem hasYesNo_append {p s : Line} (hp : ∀ u ∈ p, among "（(" u = false)
    (hs : hasYesNoApprovalMarker s = false) :
    hasYesNoApprovalMarker (p ++ s) = false := by
  rw [hasYesNo_eq_false_iff] at hs ⊢
  induction p with
  | nil => exact hs
  | cons u p ih =>
    intro t ht
    rcases List.suffix_cons_iff.1 ht with rfl | ht
    · rw [yesNoMarker, spacedHere, hp u List.mem_cons_self, Bool.false_and]
    · exact ih (fun v hv => hp v (List.mem_cons_of_mem u hv)) t ht

/-- The characters do not stand next to each other in a marker, nor is the first one its last. -/
def clash (u v : UInt16) : List String → Bool
  | [] => true
  | [chars] => !among chars u
  | chars :: next :: rest => (!among chars u || !among next v) && clash u v (next :: rest)

theorem spacedHere_of_clash {u v : UInt16} {ps qs : List String} (hc : clash u v ps = true)
    (hv : isSpace v = false)
    (hne : qs ≠ []) (hq : qs <:+ ps) (t : Line) : spacedHere qs (u :: v :: t) = false := by
  have hdrop : (v :: t).dropWhile isSpace = v :: t := List.dropWhile_cons_of_neg (by simp [hv])
  induction ps with
  | nil => exact absurd (List.suffix_nil.1 hq) hne
  | cons chars ps ih =>
    cases ps with
    | nil =>
      rcases List.suffix_cons_iff.1 hq with rfl | hq
      · have hu : among chars u = false := by simpa [clash] using hc
        rw [spacedHere, hu, Bool.false_and]
      · exact absurd (List.suffix_nil.1 hq) hne
    | cons next rest =>
      obtain ⟨hpair, hrest⟩ := Bool.and_eq_true_iff.1 hc
      rcases List.suffix_cons_iff.1 hq with rfl | hq
      · rw [spacedHere, hdrop, spacedHere]
        rcases hu : among chars u with _ | _
        · rfl
        · have hnext : among next v = false := by simpa [hu] using hpair
          rw [hnext, Bool.false_and, Bool.and_false]
      · exact ih hrest hq

/-- A marker does not go on into a line that begins so. -/
structure Follows (line : Line) : Prop where
  head : line.head?.any isSpace = false
  apart : ∀ qs, qs ≠ [] → qs <:+ yesNoMarker.tail → spacedHere qs line = false

theorem spacedHere_newline {ps : List String} {a b : Line} (hps : ps <:+ yesNoMarker)
    (ha : spacedHere ps a = false)
    (hb : Follows b) : spacedHere ps (a ++ newline :: b) = false := by
  have hline : ∀ chars ∈ yesNoMarker, among chars newline = false := by decide
  have hdrop : (newline :: b).dropWhile isSpace = b := by
    rw [List.dropWhile_cons_of_pos (by decide)]
    cases b with
    | nil => rfl
    | cons u b => exact List.dropWhile_cons_of_neg (by simpa using hb.head)
  induction ps generalizing a with
  | nil => exact absurd ha (by simp [spacedHere])
  | cons chars ps ih =>
    cases a with
    | nil => rw [List.nil_append, spacedHere, hline chars (hps.subset List.mem_cons_self), Bool.false_and]
    | cons u a =>
      rw [List.cons_append, spacedHere]
      rw [spacedHere] at ha
      rcases hu : among chars u with _ | _
      · rfl
      · rw [hu, Bool.true_and] at ha
        rw [Bool.true_and, List.dropWhile_append]
        have htail : ps <:+ yesNoMarker := (List.suffix_cons chars ps).trans hps
        split
        · rw [hdrop]
          cases ps with
          | nil => exact absurd ha (by simp [spacedHere])
          | cons next ps =>
            obtain ⟨front, hfront⟩ := hps
            refine hb.apart _ (List.cons_ne_nil _ _) ?_
            rw [← hfront]
            cases front with
            | nil => exact List.suffix_rfl
            | cons x front => exact (List.suffix_cons chars (next :: ps)).trans (List.suffix_append front _)
        · exact ih htail ha

theorem hasYesNo_newline {a b : Line} (ha : hasYesNoApprovalMarker a = false)
    (hb : hasYesNoApprovalMarker b = false) (hf : Follows b) :
    hasYesNoApprovalMarker (a ++ newline :: b) = false := by
  rw [hasYesNo_eq_false_iff] at ha hb ⊢
  induction a with
  | nil =>
    intro t ht
    rcases List.suffix_cons_iff.1 ht with rfl | ht
    · exact spacedHere_newline (a := []) List.suffix_rfl rfl hf
    · exact hb t ht
  | cons u a ih =>
    intro t ht
    rcases List.suffix_cons_iff.1 ht with rfl | ht
    · exact spacedHere_newline (a := u :: a) List.suffix_rfl (ha _ List.suffix_rfl) hf
    · exact ih (fun t ht => ha t (ht.trans (List.suffix_cons u a))) t ht

/-! ### Lines of the layout follow one another -/

section Follows

variable {s : Line} {num : ℕ}

theorem follows_of_clash {u v : UInt16} {t : Line} (hu : isSpace u = false) (hv : isSpace v = false)
    (hc : clash u v yesNoMarker.tail = true) : Follows (u :: v :: t) :=
  ⟨by simpa using hu, fun _ hne hq => spacedHere_of_clash hc hv hne hq t⟩

theorem clash_of_none {u v : UInt16} {ps : List String} (h : ∀ chars ∈ ps, among chars u = false) :
    clash u v ps = true := by
  induction ps with
  | nil => rfl
  | cons chars ps ih =>
    have hu := h chars List.mem_cons_self
    cases ps with
    | nil => simp [clash, hu]
    | cons next rest =>
      rw [clash, hu, ih fun c hc => h c (List.mem_cons_of_mem chars hc)]
      rfl

theorem clash_of_digit {u v : UInt16} (hu : isDigit u = true) (hv : isDigit v = true ∨ v = unit '.') :
    clash u v yesNoMarker.tail = true := by
  have hslash : among "/／" v = false := by
    rcases hv with hv | rfl
    · exact not_among_of_isDigit (by decide) hv
    · decide
  have hclose : among "）)" v = false := by
    rcases hv with hv | rfl
    · exact not_among_of_isDigit (by decide) hv
    · decide
  have hY : among "YＹyｙ" u = false := not_among_of_isDigit (by decide) hu
  have hN : among "NＮnｎ" u = false := not_among_of_isDigit (by decide) hu
  have hcolon : among ":：" u = false := not_among_of_isDigit (by decide) hu
  have hbar : among "/／" u = false := not_among_of_isDigit (by decide) hu
  have hend : among "）)" u = false := not_among_of_isDigit (by decide) hu
  simp [yesNoMarker, clash, hslash, hclose, hY, hN, hcolon, hbar, hend]

theorem follows_optionLine (num : ℕ) (s rest : Line) : Follows (optionLine num s ++ rest) := by
  obtain ⟨d, ds, hds, hd⟩ := exists_digitsOf num
  rw [optionLine, hds]
  have hperiod : isSpace (unit '.') = false := by decide
  cases ds with
  | nil => exact follows_of_clash (not_isSpace_of_isDigit hd) hperiod (clash_of_digit hd (.inr rfl))
  | cons e ds =>
    have he : isDigit e = true := isDigit_of_mem_digitsOf (hds ▸ List.mem_cons_of_mem d List.mem_cons_self)
    exact follows_of_clash (not_isSpace_of_isDigit hd) (not_isSpace_of_isDigit he) (clash_of_digit hd (.inl he))

theorem follows_headingLine (num : ℕ) (s rest : Line) : Follows (headingLine num s ++ rest) := by
  obtain ⟨d, ds, hds, hd⟩ := exists_digitsOf num
  rw [headingLine, hds]
  exact follows_of_clash (by decide) (not_isSpace_of_isDigit hd) (clash_of_none (by decide))

theorem follows_anchorLine (rest : Line) : Follows (anchorLine ++ rest) :=
  follows_of_clash (by decide) (by decide) (by decide)

end Follows

theorem IsLine.follows {line : Line} (h : IsLine line) (rest : Line) : Follows (line ++ rest) := by
  cases h with
  | heading num _ => exact follows_headingLine num _ rest
  | option num _ => exact follows_optionLine num _ rest
  | anchor => exact follows_anchorLine rest

theorem IsLine.hasYesNo {line : Line} (h : IsLine line) : hasYesNoApprovalMarker line = false := by
  cases h with
  | @heading s num h =>
    have hfree := hasYesNo_append (p := unit 'Q' :: digitsOf num ++ [unit ' ']) (fun u hu => ?_) h.yesNo
    · rwa [List.append_assoc] at hfree
    · rcases List.mem_append.1 hu with hu | hu
      · rcases List.mem_cons.1 hu with rfl | hu
        · decide
        · exact not_among_of_isDigit (by decide) (isDigit_of_mem_digitsOf hu)
      · obtain rfl := List.mem_singleton.1 hu
        decide
  | @option s num h =>
    have hfree := hasYesNo_append (p := digitsOf num ++ [unit '.', unit ' ']) (fun u hu => ?_) h.yesNo
    · rwa [List.append_assoc] at hfree
    · rcases List.mem_append.1 hu with hu | hu
      · exact not_among_of_isDigit (by decide) (isDigit_of_mem_digitsOf hu)
      · exact not_among_of_mem (by decide) hu
  | anchor => decide

theorem joinLines_cons_cons (line next : Line) (lines : List Line) :
    joinLines (line :: next :: lines) = line ++ newline :: joinLines (next :: lines) := by
  rw [joinLines, List.intercalate_cons_cons, List.append_assoc, List.singleton_append, joinLines]

/-- A text begins with its first line. -/
theorem exists_joinLines (line : Line) (lines : List Line) :
    ∃ rest, joinLines (line :: lines) = line ++ rest := by
  cases lines with
  | nil => exact ⟨[], by rw [joinLines, List.intercalate_singleton, List.append_nil]⟩
  | cons next lines => exact ⟨_, joinLines_cons_cons line next lines⟩

theorem hasYesNo_joinLines {lines : List Line} (h : ∀ line ∈ lines, IsLine line) :
    hasYesNoApprovalMarker (joinLines lines) = false := by
  induction lines with
  | nil => decide
  | cons line lines ih =>
    cases lines with
    | nil =>
      rw [joinLines, List.intercalate_singleton]
      exact (h line List.mem_cons_self).hasYesNo
    | cons next lines =>
      have hrest := ih fun l hl => h l (List.mem_cons_of_mem line hl)
      obtain ⟨rest, hjoin⟩ := exists_joinLines next lines
      rw [joinLines_cons_cons]
      refine hasYesNo_newline (h line List.mem_cons_self).hasYesNo hrest ?_
      rw [hjoin]
      exact (h next (List.mem_cons_of_mem line List.mem_cons_self)).follows rest

theorem IsLine.multiSelectDirective {line : Line} (h : IsLine line) : multiSelectDirective line = none := by
  cases h with
  | heading num _ => exact multiSelectDirective_headingLine num _
  | option num _ => exact multiSelectDirective_optionLine num _
  | anchor => exact multiSelectDirective_anchorLine

/-! ### The loops over the lines -/

section Loop

variable (st : Scan)

/-- The options of a question go to its section. -/
theorem foldl_options {labels : List Line} (h : ∀ label ∈ labels, Plain label) {cur : Section}
    (hcur : st.cur = some cur) (first : ℕ) :
    ∃ goesOn, ((labels.zipIdx first).map fun l => optionLine l.2 l.1).foldl Scan.step st =
      { st with
        cur := some { cur with options := cur.options ++ (labels.zipIdx first).map fun l => choice l.2 l.1 },
        goesOn } := by
  induction labels generalizing st cur first with
  | nil => exact ⟨st.goesOn, by simp [← hcur]⟩
  | cons label labels ih =>
    have hstep := step_optionLine st first (h label List.mem_cons_self).toIsText hcur
    obtain ⟨goesOn, hrest⟩ := ih (st.step (optionLine first label))
      (fun l hl => h l (List.mem_cons_of_mem label hl)) (by rw [hstep]) (first + 1)
    refine ⟨goesOn, ?_⟩
    rw [List.zipIdx_cons, List.map_cons, List.foldl_cons, hrest, hstep]
    simp

/-- A question is a section of its own. -/
theorem foldl_question {q : Question} (hq : q.IsPlain) (num : ℕ) (st : Scan) :
    ∃ goesOn, (q.lines num).foldl Scan.step st =
      { st with done := st.done ++ st.cur.toList, cur := some (q.asSection num), goesOn } := by
  have hhead := step_headingLine st num hq.title.toIsText
  obtain ⟨goesOn, hoptions⟩ := foldl_options (st.step (headingLine num q.title)) hq.labels
    (by rw [hhead]) 1
  rw [Question.lines, List.foldl_append, List.foldl_cons, hoptions, hhead]
  rcases hfree : q.freeInput with _ | _
  · exact ⟨goesOn, by simp [Question.asSection, hfree]⟩
  · refine ⟨false, ?_⟩
    simp only [if_true, List.foldl_cons, List.foldl_nil]
    rw [step_anchorLine _ rfl]
    simp [Question.asSection, hfree]

theorem foldl_questions {questions : List Question} (h : ∀ q ∈ questions, q.IsPlain) (first : ℕ) (st : Scan) :
    ∃ t : Scan, ((questions.zipIdx first).flatMap fun q => q.1.lines q.2).foldl Scan.step st = t ∧
      t.done ++ t.cur.toList =
        st.done ++ st.cur.toList ++ (questions.zipIdx first).map fun q => q.1.asSection q.2 := by
  induction questions generalizing first st with
  | nil => exact ⟨st, rfl, by simp⟩
  | cons q questions ih =>
    obtain ⟨goesOn, hq⟩ := foldl_question (h q List.mem_cons_self) first st
    obtain ⟨t, ht, hsections⟩ := ih (fun r hr => h r (List.mem_cons_of_mem q hr)) (first + 1)
      ((q.lines first).foldl Scan.step st)
    refine ⟨t, ?_, ?_⟩
    · rw [List.zipIdx_cons, List.flatMap_cons, List.foldl_append, ht]
    · rw [hsections, hq]
      simp

theorem foldl_multi {lines : List Line} (h : ∀ line ∈ lines, IsLine line) (m : MultiScan) :
    (lines.foldl MultiScan.step m).question = m.question := by
  induction lines generalizing m with
  | nil => rfl
  | cons line lines ih =>
    have hline := h line List.mem_cons_self
    rw [List.foldl_cons, ih fun l hl => h l (List.mem_cons_of_mem line hl),
      multiStep_question (hline.trimmed.symm ▸ hline.multiSelectDirective)]

end Loop

/-! ### The block -/

theorem start_hubMarks : hubMarks.start = opening := by decide

theorem stop_hubMarks : hubMarks.stop = closing := by decide

theorem bodies_block {body : Line} (h : ¬ closing <:+: body) :
    hubMarks.bodies (opening ++ (body ++ closing)) = [body] := by
  have hcut : hubMarks.cutBlock (opening ++ (body ++ closing)) = some (body, []) := by
    refine hubMarks.cutBlock_eq_some_iff.2 ⟨[], ?_, ?_, h⟩
    · rw [BlockMarks.block, start_hubMarks, stop_hubMarks, List.append_nil, List.nil_append]
    · simp [BlockMarks.start]
  have hnil : hubMarks.cutBlock [] = none := by decide
  rw [BlockMarks.bodies, hubMarks.blocks_of_some hcut, hubMarks.blocks_of_none hnil]
  rfl

theorem closing_notin_append {p s : Line}
    (hp : unit '[' ∉ p) (hs : ¬ closing <:+: s) : ¬ closing <:+: p ++ s := by
  induction p with
  | nil => exact hs
  | cons u p ih =>
    rw [List.mem_cons, not_or] at hp
    rw [List.cons_append, List.infix_cons_iff, not_or]
    refine ⟨fun hpre => ?_, ih hp.2⟩
    exact hp.1 (List.cons_prefix_cons.1 hpre).1

theorem IsLine.no_closing {line : Line} (h : IsLine line) : ¬ closing <:+: line := by
  cases h with
  | @heading s num h =>
    have hfree := closing_notin_append (p := unit 'Q' :: digitsOf num ++ [unit ' ']) ?_ h.closing
    · rwa [List.append_assoc] at hfree
    · rw [List.mem_append, List.mem_cons, not_or, not_or]
      exact ⟨⟨by decide, fun hm => absurd (isDigit_of_mem_digitsOf hm) (by decide)⟩, by decide⟩
  | @option s num h =>
    have hfree := closing_notin_append (p := digitsOf num ++ [unit '.', unit ' ']) ?_ h.closing
    · rwa [List.append_assoc] at hfree
    · rw [List.mem_append, not_or]
      exact ⟨fun hm => absurd (isDigit_of_mem_digitsOf hm) (by decide), by decide⟩
  | anchor => decide

theorem no_closing_joinLines {lines : List Line} (h : ∀ line ∈ lines, IsLine line) :
    ¬ closing <:+: joinLines lines := by
  induction lines with
  | nil => decide
  | cons line lines ih =>
    cases lines with
    | nil =>
      rw [joinLines, List.intercalate_singleton]
      exact (h line List.mem_cons_self).no_closing
    | cons next lines =>
      rw [joinLines_cons_cons, Text.infix_append_cons_iff (by decide) (by decide), not_or]
      exact ⟨(h line List.mem_cons_self).no_closing, ih fun l hl => h l (List.mem_cons_of_mem line hl)⟩

theorem IsLine.no_newline {line : Line} (h : IsLine line) : newline ∉ line := by
  have hplain {s : Line} (h : Plain s) : newline ∉ s := fun hm =>
    absurd (List.all_eq_true.1 h.oneLine newline hm) (by decide)
  have hdigits (num : ℕ) : newline ∉ digitsOf num := fun hm => absurd (isDigit_of_mem_digitsOf hm) (by decide)
  cases h with
  | heading num h =>
    rw [headingLine, List.mem_cons, List.mem_append, List.mem_cons, not_or, not_or, not_or]
    exact ⟨by decide, hdigits num, by decide, hplain h⟩
  | option num h =>
    rw [optionLine, List.mem_append, List.mem_cons, List.mem_cons, not_or, not_or, not_or]
    exact ⟨hdigits num, by decide, by decide, hplain h⟩
  | anchor => decide

theorem IsLine.ne_nil {line : Line} (h : IsLine line) : line ≠ [] := by
  cases h with
  | heading num h => exact List.cons_ne_nil _ _
  | option num h => exact List.append_ne_nil_of_left_ne_nil (digitsOf_ne_nil num) _
  | anchor => decide

theorem joinLines_cons {lines : List Line} (h : lines ≠ []) (line : Line) :
    joinLines (line :: lines) = line ++ newline :: joinLines lines := by
  obtain ⟨next, lines, rfl⟩ := List.exists_cons_of_ne_nil h
  exact joinLines_cons_cons line next lines

theorem joinLines_snoc {lines : List Line} (h : lines ≠ []) (line : Line) :
    joinLines (lines ++ [line]) = joinLines lines ++ newline :: line := by
  induction lines with
  | nil => exact absurd rfl h
  | cons first lines ih =>
    cases lines with
    | nil =>
      rw [List.singleton_append, joinLines_cons_cons, joinLines, joinLines, List.intercalate_singleton,
        List.intercalate_singleton]
    | cons next lines =>
      rw [List.cons_append, List.cons_append, joinLines_cons_cons, ← List.cons_append,
        ih (List.cons_ne_nil next lines), joinLines_cons_cons, List.append_assoc, List.cons_append]

theorem blockLines_layout {questions : List Question} (hne : questions ≠ []) (h : ∀ q ∈ questions, q.IsPlain) :
    blockLines (layout questions) = some (questionLines questions) := by
  have hlines := isLine_questionLines h
  have hsome : questionLines questions ≠ [] := by
    obtain ⟨q, qs, rfl⟩ := List.exists_cons_of_ne_nil hne
    simp [questionLines, Question.lines]
  obtain ⟨lines, hl⟩ : ∃ lines, questionLines questions = lines := ⟨_, rfl⟩
  rw [hl] at hlines hsome
  have hjoin : joinLines (opening :: lines ++ [closing]) =
      opening ++ (joinLines ([] :: lines ++ [[]]) ++ closing) := by
    rw [List.cons_append, joinLines_cons (by simp), joinLines_snoc hsome, List.cons_append,
      joinLines_cons (by simp), joinLines_snoc hsome]
    simp
  have hclosing : ¬ closing <:+: joinLines ([] :: lines ++ [[]]) := by
    rw [List.cons_append, joinLines_cons (by simp), joinLines_snoc hsome,
      Text.infix_append_cons_iff (by decide) (by decide), Text.infix_append_cons_iff (by decide) (by decide),
      not_or, not_or]
    exact ⟨by decide, no_closing_joinLines hlines, by decide⟩
  have hsplit : (joinLines ([] :: lines ++ [[]])).splitOn newline = [] :: lines ++ [[]] := by
    refine List.splitOn_intercalate newline (fun l hl => ?_) (List.cons_ne_nil _ _)
    rcases List.mem_append.1 hl with hl | hl
    · rcases List.mem_cons.1 hl with rfl | hl
      · exact List.not_mem_nil
      · exact (hlines l hl).no_newline
    · obtain rfl := List.mem_singleton.1 hl
      exact List.not_mem_nil
  have htrimmed : trimmedLines ([] :: lines ++ [[]]) = lines := by
    have hmap : lines.map trim = lines :=
      List.map_congr_left (fun l hl => (hlines l hl).trimmed) |>.trans (List.map_id _)
    have hfilter : lines.filter (· ≠ []) = lines :=
      List.filter_eq_self.2 fun l hl => by simp [(hlines l hl).ne_nil]
    have hnil : trim [] = [] := rfl
    rw [trimmedLines, List.map_append, List.map_cons, hmap, List.map_singleton, hnil, List.filter_append,
      List.filter_cons_of_neg (by simp), hfilter, List.filter_cons_of_neg (by simp), List.filter_nil,
      List.append_nil]
  rw [blockLines, layout, hl, hjoin, bodies_block hclosing]
  simp only [List.getLast?_singleton, hsplit, htrimmed]

theorem trim_joinLines_nil : trim (joinLines []) = [] := rfl

/-- The sections of the questions are all there is, and each has options. -/
theorem formOf_layout {questions : List Question} (hne : questions ≠ []) (h : ∀ q ∈ questions, q.IsPlain) :
    formOf (questionLines questions) (questionLines questions) = some (formOfQuestions questions) := by
  have hlines := isLine_questionLines h
  have hmulti : ((questionLines questions).foldl MultiScan.step {}).question = none := foldl_multi hlines {}
  obtain ⟨t, ht, hsections⟩ := foldl_questions h 1 {}
  have hfilter : ((questions.zipIdx 1).map fun q => q.1.asSection q.2).filter (·.options ≠ []) =
      (questions.zipIdx 1).map fun q => q.1.asSection q.2 := by
    refine List.filter_eq_self.2 fun s hmem => ?_
    obtain ⟨⟨q, i⟩, hq, rfl⟩ := List.mem_map.1 hmem
    have htwo := (h q (List.fst_mem_of_mem_zipIdx hq)).choice
    have hlabels : q.labels ≠ [] := List.ne_nil_of_length_pos (by omega)
    simpa [Question.asSection] using hlabels
  have hform : Scan.form t = some (formOfQuestions questions) := by
    have hempty : ({} : Scan).done ++ ({} : Scan).cur.toList = [] := rfl
    rw [hempty, List.nil_append] at hsections
    have hsome : (questions.zipIdx 1).map (fun q => q.1.asSection q.2) ≠ [] := by simpa using hne
    rw [Scan.form, hsections, hfilter, formOfQuestions, formOfSections.eq_def]
    generalize (questions.zipIdx 1).map (fun q => q.1.asSection q.2) = sections at hsome
    match sections, hsome with
    | [_], _ => rfl
    | _ :: _ :: _, _ => rfl
  rw [formOf, hasYesNo_joinLines hlines]
  simp only [Bool.false_eq_true, if_false, hmulti]
  rw [questionLines, ht, hform]

/-- The round trip of the block's lines. -/
theorem parseHubBlock_layout {questions : List Question} (hne : questions ≠ [])
    (h : ∀ q ∈ questions, q.IsPlain) :
    parseHubBlock (questionLines questions) = some ⟨formOfQuestions questions, []⟩ := by
  have hlines := isLine_questionLines h
  have hpre : preambleOf (questionLines questions) = ([], questionLines questions) := by
    obtain ⟨q, qs, rfl⟩ := List.exists_cons_of_ne_nil hne
    have hq := (h q List.mem_cons_self).title
    have hstart : startsBlock (headingLine 1 q.title) = true := by
      simp [startsBlock, trim_headingLine hq.toIsText, headingHere_headingLine hq.toIsText]
    have hfirst : ∃ rest, questionLines (q :: qs) = headingLine 1 q.title :: rest := ⟨_, rfl⟩
    obtain ⟨rest, hrest⟩ := hfirst
    simp [preambleOf, hrest, hstart]
  rw [parseHubBlock, ungluedApprovalLines_eq fun line hl => (hlines line hl).uncut, hpre]
  simp only [formOf_layout hne h, Option.map_some, trim_joinLines_nil]

theorem extract_layout {questions : List Question} (hne : questions ≠ []) (h : ∀ q ∈ questions, q.IsPlain) :
    extractHubMarkerApproval (layout questions) =
      some (⟨formOfQuestions questions, []⟩, approvalCtxHash (joinLines (questionLines questions))) := by
  rw [extractHubMarkerApproval, blockLines_layout hne h]
  simp only [Option.bind_some, parseHubBlock_layout hne h, Option.map_some]

/-- The questions of a block of the documented layout are read as they were asked; of a title that
begins with a separator and goes on, the separator and the blanks behind it go. -/
theorem questions_read_back {questions : List Question} (hne : questions ≠ [])
    (h : ∀ q ∈ questions, q.IsPlain) :
    (extractHubMarkerApproval (layout questions)).map Prod.fst = some ⟨formOfQuestions questions, []⟩ := by
  rw [extract_layout hne h]
  rfl

/-- Two questions of which the first begins with a colon. -/
def colonFirst : List Question :=
  [⟨units ": which", [units "one", units "2 or 3"], false⟩,
    ⟨units "how", [units "[once] now", units "[x] not"], true⟩]

theorem plain_colonFirst : ∀ q ∈ colonFirst, q.IsPlain := by decide

theorem colonFirst_read_back : (extractHubMarkerApproval (layout colonFirst)).map Prod.fst =
    some ⟨formOfQuestions colonFirst, []⟩ :=
  questions_read_back (by decide) plain_colonFirst

/-- So the titles do not all come back. -/
theorem colon_lost : ¬ ∀ questions : List Question, questions ≠ [] → (∀ q ∈ questions, q.IsPlain) →
    (extractHubMarkerApproval (layout questions)).map Prod.fst =
      some ⟨formOfSections ((questions.zipIdx 1).map fun q =>
        { q.1.asSection q.2 with title := q.1.title }), []⟩ := by
  intro h
  have hread := h colonFirst (by decide) plain_colonFirst
  rw [extract_layout (by decide) plain_colonFirst] at hread
  exact absurd hread (by decide)

end ManyAiCli.Web.HubBlock
