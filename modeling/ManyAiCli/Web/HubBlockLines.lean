import ManyAiCli.Web.HubBlock
import Mathlib.Data.List.Chain

/-! The lines of a block that the passes leave as they are, and what the expressions make of them:
headings, options and anchors as the documented layout has them. -/

namespace ManyAiCli.Web.HubBlock

open UngluedLines

/-! ### Code units -/

theorem among_of_all {s : String} {p : UInt16 → Bool} (h : (units s).all p = true) {u : UInt16}
    (hu : among s u = true) : p u = true :=
  List.all_eq_true.1 h u (List.contains_iff_mem.1 hu)

theorem not_among_of_isDigit {s : String} (h : (units s).all (!isDigit ·) = true) {u : UInt16}
    (hu : isDigit u = true) : among s u = false := by
  by_contra hs
  have hno := among_of_all h (Bool.not_eq_false _ ▸ hs)
  simp [hu] at hno

theorem not_among_of_mem {s : String} {p : Line} (h : p.all (!among s ·) = true) {u : UInt16} (hu : u ∈ p) :
    among s u = false := by
  simpa using List.all_eq_true.1 h u hu

theorem not_isSpace_of_isDigit {u : UInt16} (h : isDigit u = true) : isSpace u = false := by
  by_contra hs
  have hword : isWord u = true := by simp [isWord, isAlnum, h]
  rw [not_isWord_of_isSpace (Bool.not_eq_false _ ▸ hs)] at hword
  exact absurd hword (by simp)

/-- A blank, or a line's end, is white space. -/
theorem isSpace_of_blank {u : UInt16} (h : among " \t" u = true) : isSpace u = true :=
  among_of_all (by decide) h

def digitsOf (n : ℕ) : Line := (Nat.toDigits 10 n).map unit

theorem toNat_unit_of_isDigit {c : Char} (h : c.isDigit = true) : (unit c).toNat = c.toNat := by
  have hc := Char.isDigit_iff_toNat.1 h
  have hlt : c.toNat < 2 ^ 16 := lt_of_le_of_lt hc.2 (by decide)
  exact UInt16.toNat_ofNat_of_lt hlt

theorem isDigit_of_mem_digitsOf {n : ℕ} {u : UInt16} (h : u ∈ digitsOf n) : isDigit u = true := by
  obtain ⟨c, hc, rfl⟩ := List.mem_map.1 h
  have hd := Nat.isDigit_of_mem_toDigits (by decide) (by decide) hc
  have hn := Char.isDigit_iff_toNat.1 hd
  rw [isDigit, between_iff, toNat_unit_of_isDigit hd]
  exact hn

theorem digitsOf_ne_nil (n : ℕ) : digitsOf n ≠ [] := by
  simp [digitsOf, Nat.toDigits_ne_nil]

theorem value_digitsOf (n : ℕ) : value (digitsOf n) = n := by
  have hfold (cs : List Char) (hcs : ∀ c ∈ cs, c.isDigit = true) (m : ℕ) :
      (cs.map unit).foldl (fun n d => 10 * n + (d.toNat - 48)) m =
        cs.foldl (fun n c => 10 * n + (c.toNat - '0'.toNat)) m := by
    induction cs generalizing m with
    | nil => rfl
    | cons c cs ih =>
      rw [List.map_cons, List.foldl_cons, List.foldl_cons, toNat_unit_of_isDigit (hcs c List.mem_cons_self),
        ih fun d hd => hcs d (List.mem_cons_of_mem c hd)]
      rfl
  rw [value, digitsOf, hfold _ fun c hc => Nat.isDigit_of_mem_toDigits (by decide) (by decide) hc]
  exact Nat.ofDigitChars_ten_toDigits

/-! ### Lines that no pass cuts -/

/-- No `Q` with a digit behind. -/
def HeadingFree (s : Line) : Prop := s.IsChain fun u v => ¬ (among "QＱ" u = true ∧ isDigit v = true)

/-- No digit with a period behind. -/
def NumberFree (s : Line) : Prop := s.IsChain fun u v => ¬ (isDigit u = true ∧ v = unit '.')

instance (s : Line) : Decidable (HeadingFree s) := inferInstanceAs (Decidable (s.IsChain _))

instance (s : Line) : Decidable (NumberFree s) := inferInstanceAs (Decidable (s.IsChain _))

theorem questionHere_eq_false {s : Line} (h : HeadingFree s) : questionHere s = false := by
  unfold questionHere
  split
  next q d s =>
    have hpair := (List.isChain_cons_cons.1 h).1
    rcases hq : among "QＱ" q with _ | _
    · simp
    · rcases hd : isDigit d with _ | _
      · simp
      · exact absurd ⟨hq, hd⟩ hpair
  next => rfl

theorem cutHeadings_eq {line : Line} (hne : trim line ≠ []) (h : HeadingFree line.tail) :
    cutHeadings line = [line] := by
  have hline : unlessBlank line = [line] := if_neg hne
  rw [cutHeadings]
  split
  · exact hline
  · have hnone : (line.drop 1).tails.findIdx? questionHere = none := by
      rw [List.findIdx?_eq_none_iff]
      intro t ht
      rw [List.drop_one] at ht
      exact questionHere_eq_false (List.IsChain.suffix h (List.mem_tails _ _ |>.1 ht))
    simp only [hnone, hline]

theorem expand_eq {line : Line} (h : findAnchor false line = none) : expand line = [line] := by
  rw [expand]
  split
  next => rfl
  next heq => rw [h] at heq; exact absurd heq.symm (Option.some_ne_none _)

/-- A number is one or two digits with a period behind. -/
theorem numberHere_spec {s rest : Line} {num : ℕ} (h : numberHere s = some (num, rest)) :
    ∃ ds : Line, ds ≠ [] ∧ ds.length ≤ 2 ∧ (∀ d ∈ ds, isDigit d = true) ∧ s = ds ++ unit '.' :: rest := by
  unfold numberHere at h
  simp only at h
  split at h
  next d ds u t hds hdrop =>
    obtain ⟨rfl, hpair⟩ := Option.ite_none_right_eq_some.1 h
    obtain ⟨-, rfl⟩ := Prod.mk.inj (Option.some.inj hpair)
    have hprefix : (s.take 2).takeWhile isDigit <+: s :=
      (List.takeWhile_prefix isDigit).trans (List.take_prefix 2 s)
    have hs := List.prefix_iff_eq_append.1 hprefix
    refine ⟨(s.take 2).takeWhile isDigit, by simp [hds], ?_, fun d hd => List.mem_takeWhile_imp hd, ?_⟩
    · exact ((List.takeWhile_prefix isDigit).length_le).trans (List.length_take_le 2 s)
    · rw [hdrop] at hs
      exact hs.symm
  next => exact absurd h.symm (Option.some_ne_none _)

theorem numberHere_eq_none {s : Line} (h : NumberFree s) : numberHere s = none := by
  cases hn : numberHere s with
  | none => rfl
  | some m =>
    obtain ⟨num, rest⟩ := m
    obtain ⟨ds, hne, -, hds, rfl⟩ := numberHere_spec hn
    have hlast := (List.isChain_append.1 h).2.2 (ds.getLast hne) (List.getLast?_eq_some_getLast hne)
      (unit '.') rfl
    exact absurd ⟨hds _ (List.getLast_mem hne), rfl⟩ hlast

theorem strongHere_eq_none {s : Line} (h : numberHere s = none) (start : Bool) : strongHere start s = none := by
  rw [strongHere, h]
  rfl

theorem weakNumber_eq_none {s : Line} (h : numberHere s = none) : weakNumber s = none := by
  rw [weakNumber, h]
  rfl

theorem weakHere_eq_none {s : Line} (h : numberHere s = none) (ht : numberHere s.tail = none) (start : Bool) :
    weakHere start s = none := by
  unfold weakHere
  rw [weakNumber_eq_none h, ite_self]
  cases s with
  | nil => rfl
  | cons u s =>
    have hs : weakNumber s = none := weakNumber_eq_none ht
    simp only [hs, Option.map_none, ite_self]

theorem NumberFree.suffix {s t : Line} (h : NumberFree s) (ht : t <:+ s) :
    NumberFree t := List.IsChain.suffix h ht

theorem exec_eq_none {here : Bool → Line → Option Match} {s : Line}
    (h : ∀ t, t <:+ s → ∀ start, here start t = none) (place : ℕ) : exec here place s = none := by
  induction s generalizing place with
  | nil => rfl
  | cons u s ih =>
    rw [exec, h (u :: s) List.suffix_rfl]
    exact ih (fun t ht => h t (ht.trans (List.suffix_cons u s))) (place + 1)

theorem NumberFree.exec_strong {s : Line} (h : NumberFree s) (place : ℕ) : exec strongHere place s = none :=
  exec_eq_none (fun _ ht => strongHere_eq_none (numberHere_eq_none (h.suffix ht))) place

theorem NumberFree.exec_weak {s : Line} (h : NumberFree s) (place : ℕ) : exec weakHere place s = none :=
  exec_eq_none (fun t ht => weakHere_eq_none (numberHere_eq_none (h.suffix ht))
    (numberHere_eq_none (h.suffix ((List.tail_suffix t).trans ht)))) place

theorem strongMarks_of_none {s : Line} {place : ℕ} (h : exec strongHere place s = none) (last : Option ℕ) :
    strongMarks last place s = ([], true) := by
  rw [strongMarks]
  split
  next => rfl
  next heq => rw [h] at heq; exact absurd heq.symm (Option.some_ne_none _)

theorem weakMarks_of_none {s : Line} {place : ℕ} (h : exec weakHere place s = none) :
    weakMarks place s = [] := by
  rw [weakMarks]
  split
  next => rfl
  next heq => rw [h] at heq; exact absurd heq.symm (Option.some_ne_none _)

theorem NumberFree.splitGlued {line : Line} (h : NumberFree line) : splitGluedNumberedLine line = [line] := by
  rw [splitGluedNumberedLine, strongMarks_of_none (h.exec_strong 0)]
  simp [splitWeak, weakMarks_of_none (h.exec_weak 0)]

theorem trim_eq_self {s : Line} (h : ∀ u ∈ s, isSpace u = false) : trim s = s := by
  have hdrop : s.dropWhile isSpace = s := by
    cases s with
    | nil => rfl
    | cons u s => exact List.dropWhile_cons_of_neg (by simp [h u List.mem_cons_self])
  rw [trim, hdrop, List.rdropWhile_eq_self_iff]
  exact fun hne => by simp [h _ (List.getLast_mem hne)]

/-! ### Options -/

theorem strongHere_spec {start : Bool} {s rest : Line} {border num : ℕ}
    (h : strongHere start s = some (border, num, rest)) :
    border = 0 ∧ ∃ r, numberHere s = some (num, r) ∧ rest <:+ r := by
  obtain ⟨⟨n, t⟩, hnumber, h⟩ := Option.bind_eq_some_iff.1 h
  dsimp only at h
  split at h
  next u v hlabel =>
    obtain ⟨-, hmatch⟩ := Option.ite_none_right_eq_some.1 h
    obtain ⟨rfl, hrest⟩ := Prod.mk.inj (Option.some.inj hmatch)
    obtain ⟨rfl, rfl⟩ := Prod.mk.inj hrest
    have hv : v <:+ t := (List.suffix_cons u v).trans (hlabel ▸ List.dropWhile_suffix isSpace)
    exact ⟨rfl, t, hnumber, (List.drop_suffix _ v).trans hv⟩
  next => exact absurd h.symm (Option.some_ne_none _)

theorem weakNumber_spec {s rest : Line} {num : ℕ} (h : weakNumber s = some (num, rest)) :
    ∃ r, numberHere s = some (num, r) ∧ rest <:+ r := by
  obtain ⟨⟨n, t⟩, hnumber, h⟩ := Option.bind_eq_some_iff.1 h
  obtain ⟨-, hrest⟩ := Option.ite_none_right_eq_some.1 h
  obtain ⟨rfl, rfl⟩ := Prod.mk.inj (Option.some.inj hrest)
  exact ⟨t, hnumber, List.dropWhile_suffix isSpace⟩

theorem period_notMem {ds : Line} (h : ∀ d ∈ ds, isDigit d = true) : unit '.' ∉ ds :=
  fun hm => absurd (h _ hm) (by decide)

/-- In a line a number of the weak kind has a border in front. -/
theorem weakHere_of_no_border {u : UInt16} (h : (isSpace u || among ")）」』】。．？?！!…" u) = false) (s : Line) :
    weakHere false (u :: s) = none := by
  simp only [weakHere, h, Bool.false_eq_true, if_false]

theorem numberFree_period {s : Line} (hs : NumberFree s) : NumberFree (unit '.' :: s) := by
  cases s with
  | nil => exact .singleton _
  | cons u s => exact List.isChain_cons_cons.2 ⟨fun h => absurd h.1 (by decide), hs⟩

section Option

variable {ds s : Line} (hds : ∀ d ∈ ds, isDigit d = true) (hs : NumberFree s)
include hds

/-- The number of an option line is its first one. -/
theorem numberHere_option {rest : Line} {num : ℕ} (h : numberHere (ds ++ unit '.' :: s) = some (num, rest)) :
    rest = s := by
  obtain ⟨ds', -, -, hds', heq⟩ := numberHere_spec h
  exact (Text.eq_of_first (period_notMem hds) (period_notMem hds') heq).symm

include hs

theorem exec_strong_option (place : ℕ) :
    exec strongHere place (ds ++ unit '.' :: s) = none ∨
      ∃ mark rest, exec strongHere place (ds ++ unit '.' :: s) = some (mark, rest) ∧
        mark.place < place + ds.length ∧ rest <:+ s := by
  induction ds generalizing place with
  | nil => exact .inl ((numberFree_period hs).exec_strong place)
  | cons d ds ih =>
    rw [List.cons_append, exec]
    split
    next border num rest hhere =>
      obtain ⟨rfl, r, hnumber, hrest⟩ := strongHere_spec hhere
      obtain rfl := numberHere_option hds hnumber
      exact .inr ⟨_, _, rfl, by simp, hrest⟩
    next =>
      rcases ih (fun e he => hds e (List.mem_cons_of_mem d he))
        (place + 1) with hnone | ⟨mark, rest, hsome, hplace, hrest⟩
      · exact .inl hnone
      · refine .inr ⟨mark, rest, hsome, ?_, hrest⟩
        rw [List.length_cons]
        omega

theorem exec_weak_later (place : ℕ) : exec weakHere (place + 1) (ds ++ unit '.' :: s) = none := by
  have hlater (n : ℕ) : (n + 1 == 0) = false := rfl
  induction ds generalizing place with
  | nil => rw [List.nil_append, exec, hlater, weakHere_of_no_border (by decide), hs.exec_weak]
  | cons d ds ih =>
    have hd := hds d List.mem_cons_self
    have hborder : (isSpace d || among ")）」』】。．？?！!…" d) = false := by
      rw [not_isSpace_of_isDigit hd, not_among_of_isDigit (by decide) hd]
      rfl
    rw [List.cons_append, exec, hlater, weakHere_of_no_border hborder]
    exact ih (fun e he => hds e (List.mem_cons_of_mem d he)) (place + 1)

theorem weakMarks_option (hne : ds ≠ []) :
    weakMarks 0 (ds ++ unit '.' :: s) = [] ∨ ∃ num, weakMarks 0 (ds ++ unit '.' :: s) = [⟨0, num⟩] := by
  obtain ⟨d, ds, rfl⟩ := List.exists_cons_of_ne_nil hne
  have hd := hds d List.mem_cons_self
  have hborder : (isSpace d || among ")）」』】。．？?！!…" d) = false := by
    rw [not_isSpace_of_isDigit hd, not_among_of_isDigit (by decide) hd]
    rfl
  have hlater := exec_weak_later (fun e he => hds e (List.mem_cons_of_mem d he)) hs 0
  cases hweak : weakNumber (d :: ds ++ unit '.' :: s) with
  | none =>
    left
    apply weakMarks_of_none
    have hhere : weakHere (0 == 0) (d :: (ds ++ unit '.' :: s)) = none := by
      rw [List.cons_append] at hweak
      simp only [weakHere, BEq.rfl, if_true, hweak, hborder, Bool.false_eq_true, if_false]
    rw [List.cons_append, exec, hhere]
    exact hlater
  | some m =>
    right
    obtain ⟨num, rest⟩ := m
    obtain ⟨r, hnumber, hrest⟩ := weakNumber_spec hweak
    obtain rfl := numberHere_option hds hnumber
    have hexec : exec weakHere 0 (d :: ds ++ unit '.' :: r) = some (⟨0, num⟩, rest) := by
      rw [List.cons_append] at hweak ⊢
      rw [exec]
      simp only [weakHere, BEq.rfl, if_true, hweak]
    refine ⟨num, ?_⟩
    rw [weakMarks]
    split
    next heq => rw [hexec] at heq; exact absurd heq (Option.some_ne_none _)
    next heq =>
      obtain ⟨rfl, rfl⟩ := Prod.mk.inj (Option.some.inj (hexec.symm.trans heq))
      rw [weakMarks_of_none ((hs.suffix hrest).exec_weak _)]

theorem splitWeak_option (hne : ds ≠ []) : splitWeak (ds ++ unit '.' :: s) = [ds ++ unit '.' :: s] := by
  rcases weakMarks_option hds hs hne with h | ⟨num, h⟩
  · simp only [splitWeak, h]
  · have hhead : trim ((ds ++ unit '.' :: s).take 0) = [] := rfl
    simp only [splitWeak, h, hhead, ne_eq, not_true_eq_false, false_and, and_false, if_false]

theorem splitGlued_option (hne : ds ≠ []) :
    splitGluedNumberedLine (ds ++ unit '.' :: s) = [ds ++ unit '.' :: s] := by
  have hweak := splitWeak_option hds hs hne
  rcases exec_strong_option hds hs 0 with hnone | ⟨mark, rest, hsome, hplace, hrest⟩
  · rw [splitGluedNumberedLine, strongMarks_of_none hnone]
    simpa using hweak
  · have hmarks : strongMarks none 0 (ds ++ unit '.' :: s) = ([mark], true) := by
      rw [strongMarks]
      split
      next heq => rw [hsome] at heq; exact absurd heq (Option.some_ne_none _)
      next heq =>
        obtain ⟨rfl, rfl⟩ := Prod.mk.inj (Option.some.inj (hsome.symm.trans heq))
        rw [strongMarks_of_none ((hs.suffix hrest).exec_strong _)]
        rfl
    rw [splitGluedNumberedLine, hmarks]
    have hone : ¬ (true = true ∧ 2 ≤ [mark].length) := by simp
    dsimp only
    rw [if_neg hone, if_neg]
    · exact hweak
    · -- In front of the number are digits, if anything.
      rintro ⟨hhead, -, hdigit⟩
      have hfront : (ds ++ unit '.' :: s).take mark.place = ds.take mark.place :=
        List.take_append_of_le_length (by omega)
      have htake : ∀ d ∈ ds.take mark.place, isDigit d = true := fun d hd => hds d (List.mem_of_mem_take hd)
      rw [hfront, trim_eq_self fun d hd => not_isSpace_of_isDigit (htake d hd)] at hhead hdigit
      obtain ⟨d, t, ht⟩ := List.exists_cons_of_ne_nil hhead
      rw [ht] at hdigit htake
      exact hdigit (htake d List.mem_cons_self)

end Option

/-! ### The lines of the layout -/

def headingLine (num : ℕ) (title : Line) : Line := unit 'Q' :: (digitsOf num ++ unit ' ' :: title)

def optionLine (num : ℕ) (label : Line) : Line := digitsOf num ++ unit '.' :: unit ' ' :: label

def anchorLine : Line := Kind.form .userSpecifies

/-- A text that stands on one line. -/
structure IsText (s : Line) : Prop where
  ne_nil : s ≠ []
  trimmed : trim s = s
  oneLine : s.all (!isLineEnd ·) = true

/-- The passes find nothing in the text. -/
structure Free (s : Line) : Prop where
  heading : HeadingFree s
  number : NumberFree s
  anchor : findAnchor false s = none

/-- A heading takes one separator off its title, if more than white space follows. -/
def shownTitle : Line → Line
  | [] => []
  | u :: rest =>
    let after := dropBlanks rest
    if among ".:：" u ∧ after ≠ [] ∧ ¬ after.head?.any isSpace then after else u :: rest

/-! ### Trimmed lines -/

theorem head_of_trim {s : Line} (h : trim s = s) : s.head?.any isSpace = false := by
  cases s with
  | nil => rfl
  | cons u s =>
    by_contra hu
    have hdrop : (u :: s).dropWhile isSpace = s.dropWhile isSpace :=
      List.dropWhile_cons_of_pos (by simpa using hu)
    have hle := length_dropWhile_le isSpace s
    have hlen := congrArg List.length h
    rw [trim, hdrop] at hlen
    have hr := (List.rdropWhile_prefix isSpace (s.dropWhile isSpace)).length_le
    rw [List.length_cons] at hlen
    omega

theorem last_of_trim {s : Line} (h : trim s = s) (hne : s ≠ []) : isSpace (s.getLast hne) = false := by
  have hdrop : s.dropWhile isSpace = s := by
    obtain ⟨u, t, rfl⟩ := List.exists_cons_of_ne_nil hne
    exact List.dropWhile_cons_of_neg (by simpa using head_of_trim h)
  rw [trim, hdrop, List.rdropWhile_eq_self_iff] at h
  simpa using h hne

theorem trim_of_ends {s : Line} (hhead : s.head?.any isSpace = false)
    (hlast : ∀ hne : s ≠ [], isSpace (s.getLast hne) = false) : trim s = s := by
  have hdrop : s.dropWhile isSpace = s := by
    cases s with
    | nil => rfl
    | cons u s => exact List.dropWhile_cons_of_neg (by simpa using hhead)
  rw [trim, hdrop, List.rdropWhile_eq_self_iff]
  exact fun hne => by simp [hlast hne]

theorem trim_cons_append {u : UInt16} {p s : Line} (hu : isSpace u = false) (h : trim s = s) (hne : s ≠ []) :
    trim (u :: (p ++ s)) = u :: (p ++ s) := by
  refine trim_of_ends (by simpa using hu) fun _ => ?_
  have hlast : (u :: (p ++ s)).getLast (List.cons_ne_nil u (p ++ s)) = s.getLast hne :=
    List.getLast_append_of_ne_nil (l := u :: p) _ hne
  rw [hlast]
  exact last_of_trim h hne

theorem trim_cons_ne_nil {u : UInt16} (hu : isSpace u = false) (s : Line) : trim (u :: s) ≠ [] := by
  rw [Ne, trim_eq_nil_iff, squeeze, List.filter_cons_of_pos (by simp [hu])]
  exact List.cons_ne_nil _ _

section Lines

variable {s : Line} {num : ℕ}

theorem trim_headingLine (h : IsText s) : trim (headingLine num s) = headingLine num s := by
  have := trim_cons_append (u := unit 'Q') (p := digitsOf num ++ [unit ' ']) (by decide) h.trimmed h.ne_nil
  rwa [List.append_assoc] at this

theorem exists_digitsOf (num : ℕ) : ∃ d ds, digitsOf num = d :: ds ∧ isDigit d = true := by
  obtain ⟨d, ds, h⟩ := List.exists_cons_of_ne_nil (digitsOf_ne_nil num)
  exact ⟨d, ds, h, isDigit_of_mem_digitsOf (h ▸ List.mem_cons_self)⟩

theorem trim_optionLine (h : IsText s) : trim (optionLine num s) = optionLine num s := by
  obtain ⟨d, ds, hds, hd⟩ := exists_digitsOf num
  have := trim_cons_append (u := d) (p := ds ++ [unit '.', unit ' ']) (not_isSpace_of_isDigit hd) h.trimmed
    h.ne_nil
  rw [List.append_assoc] at this
  rw [optionLine, hds]
  exact this

/-! ### The passes leave the layout as it is -/

/-- No pass cuts the line. -/
def Uncut (line : Line) : Prop :=
  cutHeadings line = [line] ∧ expand line = [line] ∧ splitGluedNumberedLine line = [line]

theorem ungluedApprovalLines_eq {lines : List Line} (h : ∀ line ∈ lines, Uncut line) :
    ungluedApprovalLines lines = lines := by
  have hflat {f : Line → List Line} (hf : ∀ line ∈ lines, f line = [line]) : lines.flatMap f = lines := by
    rw [List.flatMap_congr hf, List.flatMap_singleton']
  rw [ungluedApprovalLines, splitInlineQuestionHeading, hflat fun line hl => (h line hl).1,
    splitUserSpecifiesAnchor, hflat fun line hl => (h line hl).2.1, hflat fun line hl => (h line hl).2.2]

theorem HeadingFree.append {p : Line} (hp : ∀ u ∈ p, among "QＱ" u = false) (hs : HeadingFree s) :
    HeadingFree (p ++ s) := by
  induction p with
  | nil => exact hs
  | cons u p ih =>
    have hrest := ih fun v hv => hp v (List.mem_cons_of_mem u hv)
    rw [List.cons_append]
    cases htail : p ++ s with
    | nil => exact .singleton _
    | cons v t =>
      refine List.isChain_cons_cons.2 ⟨fun h => ?_, htail ▸ hrest⟩
      rw [hp u List.mem_cons_self] at h
      exact absurd h.1 (by simp)

theorem NumberFree.cons {u : UInt16} (hu : isDigit u = false) (hs : NumberFree s) : NumberFree (u :: s) := by
  cases s with
  | nil => exact .singleton _
  | cons v s => exact List.isChain_cons_cons.2 ⟨fun h => by simp [hu] at h, hs⟩

theorem NumberFree.append {p : Line} (hp : unit '.' ∉ p) (hs : NumberFree s) :
    NumberFree (p ++ unit ' ' :: s) := by
  induction p with
  | nil => exact hs.cons (by decide)
  | cons u p ih =>
    rw [List.mem_cons, not_or] at hp
    have hrest := ih hp.2
    cases p with
    | nil => exact List.isChain_cons_cons.2 ⟨fun h => absurd h.2 (by decide), hrest⟩
    | cons v p =>
      rw [List.mem_cons, not_or] at hp
      exact List.isChain_cons_cons.2 ⟨fun h => hp.2.1 h.2.symm, hrest⟩

theorem anchorHere_of_fold {u : UInt16} (hu : fold u ≠ fold (unit 'N')) (s : Line) :
    anchorHere (u :: s) = none := by
  have hstrip : strip (units "N.") (u :: s) = none := if_neg hu
  rw [anchorHere, hstrip]
  rfl

theorem fold_of_isDigit {u : UInt16} (h : isDigit u = true) : fold u = u := by
  have hd := between_iff.1 h
  rw [fold, if_neg]
  intro hupper
  have hu := between_iff.1 hupper
  have h9 : (unit '9').toNat = 57 := by decide
  have hA : (unit 'A').toNat = 65 := by decide
  omega

theorem fold_ne_of_isDigit {u : UInt16} (h : isDigit u = true) : fold u ≠ fold (unit 'N') := by
  rw [fold_of_isDigit h]
  rintro rfl
  exact absurd h (by decide)

theorem findAnchor_append {p : Line} (hp : ∀ u ∈ p, fold u ≠ fold (unit 'N')) (hs : findAnchor false s = none)
    (word : Bool) : findAnchor word (p ++ unit ' ' :: s) = none := by
  have hspace : isWord (unit ' ') = false := by decide
  induction p generalizing word with
  | nil => rw [List.nil_append, findAnchor, anchorHere_of_fold (by decide), ite_self, hspace, hs]; rfl
  | cons u p ih =>
    rw [List.cons_append, findAnchor, anchorHere_of_fold (hp u List.mem_cons_self), ite_self,
      ih fun v hv => hp v (List.mem_cons_of_mem u hv)]
    rfl

theorem uncut_headingLine (h : Free s) (num : ℕ) : Uncut (headingLine num s) := by
  refine ⟨cutHeadings_eq ?_ ?_, expand_eq ?_, NumberFree.splitGlued ?_⟩
  · exact trim_cons_ne_nil (by decide) _
  · have hfree : HeadingFree ((digitsOf num ++ [unit ' ']) ++ s) := by
      refine HeadingFree.append (fun u hu => ?_) h.heading
      rcases List.mem_append.1 hu with hd | hd
      · exact not_among_of_isDigit (by decide) (isDigit_of_mem_digitsOf hd)
      · obtain rfl := List.mem_singleton.1 hd
        decide
    rwa [List.append_assoc] at hfree
  · refine findAnchor_append (p := unit 'Q' :: digitsOf num) (fun u hu => ?_) h.anchor false
    rcases List.mem_cons.1 hu with rfl | hd
    · decide
    · exact fold_ne_of_isDigit (isDigit_of_mem_digitsOf hd)
  · refine NumberFree.append (p := unit 'Q' :: digitsOf num) ?_ h.number
    rw [List.mem_cons, not_or]
    exact ⟨by decide, period_notMem fun d hd => isDigit_of_mem_digitsOf hd⟩

theorem uncut_optionLine (h : Free s) (num : ℕ) : Uncut (optionLine num s) := by
  obtain ⟨d, ds, hds, -⟩ := exists_digitsOf num
  have hdigits (u : UInt16) (hu : u ∈ d :: ds) : isDigit u = true := isDigit_of_mem_digitsOf (hds ▸ hu)
  refine ⟨cutHeadings_eq ?_ ?_, expand_eq ?_, ?_⟩
  · rw [optionLine, hds]
    exact trim_cons_ne_nil (not_isSpace_of_isDigit (hdigits d List.mem_cons_self)) _
  · have hfree : HeadingFree ((ds ++ [unit '.', unit ' ']) ++ s) := by
      refine HeadingFree.append (fun u hu => ?_) h.heading
      rcases List.mem_append.1 hu with hd | hd
      · exact not_among_of_isDigit (by decide) (hdigits u (List.mem_cons_of_mem d hd))
      · exact not_among_of_mem (by decide) hd
    rw [List.append_assoc] at hfree
    rw [optionLine, hds]
    exact hfree
  · have hanchor : findAnchor false ((digitsOf num ++ [unit '.']) ++ unit ' ' :: s) = none := by
      refine findAnchor_append (fun u hu => ?_) h.anchor false
      rcases List.mem_append.1 hu with hd | hd
      · exact fold_ne_of_isDigit (isDigit_of_mem_digitsOf hd)
      · obtain rfl := List.mem_singleton.1 hd
        decide
    rwa [List.append_assoc] at hanchor
  · exact splitGlued_option (fun u hu => isDigit_of_mem_digitsOf hu) (h.number.cons (by decide))
      (digitsOf_ne_nil num)

theorem findAnchor_anchorLine : findAnchor false anchorLine = some ([], .userSpecifies, []) := by decide

theorem uncut_anchorLine : Uncut anchorLine := by
  refine ⟨cutHeadings_eq (by decide) (by decide), ?_, NumberFree.splitGlued (by decide)⟩
  rw [expand]
  split
  next heq => exact absurd (findAnchor_anchorLine.symm.trans heq) (Option.some_ne_none _)
  next heq =>
    obtain ⟨rfl, hpair⟩ := Prod.mk.inj (Option.some.inj (findAnchor_anchorLine.symm.trans heq))
    obtain ⟨rfl, rfl⟩ := Prod.mk.inj hpair
    rfl

end Lines

/-! ### What the expressions make of a line -/

section Read

variable {s : Line} {num : ℕ}

theorem whole_eq (h : IsText s) : whole s = some s := if_pos ⟨h.ne_nil, h.oneLine⟩

theorem takeWhile_digits {ds : Line} (hds : ∀ d ∈ ds, isDigit d = true) {u : UInt16} (hu : isDigit u = false)
    (t : Line) : (ds ++ u :: t).takeWhile isDigit = ds := by
  rw [List.takeWhile_append_of_pos hds, List.takeWhile_cons_of_neg (by simp [hu]), List.append_nil]

theorem dropWhile_space (h : IsText s) : (unit ' ' :: s).dropWhile isSpace = s := by
  rw [List.dropWhile_cons_of_pos (by decide)]
  obtain ⟨u, t, rfl⟩ := List.exists_cons_of_ne_nil h.ne_nil
  exact List.dropWhile_cons_of_neg (by simpa using head_of_trim h.trimmed)

theorem optionHere_optionLine (h : IsText s) : optionHere (optionLine num s) = some (num, s) := by
  have hds := takeWhile_digits (fun d hd => isDigit_of_mem_digitsOf (n := num) hd)
    (by decide : isDigit (unit '.') = false) (unit ' ' :: s)
  obtain ⟨d, ds, hcons, -⟩ := exists_digitsOf num
  have hvalue : value (d :: ds) = num := hcons ▸ value_digitsOf num
  rw [optionHere, optionLine, hds, List.drop_left, hcons]
  simp only [if_true, dropWhile_space h, whole_eq h, Option.map_some, hvalue]

theorem optionOf_optionLine (h : IsText s) : optionOf (optionLine num s) = some (num, s) := by
  rw [optionOf, optionHere_optionLine h]
  rfl

theorem optionOf_headingLine (s : Line) : optionOf (headingLine num s) = none := by
  have hds : (headingLine num s).takeWhile isDigit = [] := List.takeWhile_cons_of_neg (by decide)
  have hfirst : optionHere (headingLine num s) = none := by simp [optionHere, hds]
  have hsecond : dotlessOptionHere (headingLine num s) = none := by simp [dotlessOptionHere, hds]
  rw [optionOf, hfirst, hsecond]
  rfl

theorem dropBlanks_of_head {t : Line} (h : t.head?.any isSpace = false) : dropBlanks t = t := by
  cases t with
  | nil => rfl
  | cons u t =>
    refine List.dropWhile_cons_of_neg fun hu => ?_
    have hs : isSpace u = false := by simpa using h
    rw [isSpace_of_blank hu] at hs
    exact absurd hs (by simp)

theorem titleHere_eq (h : IsText s) : titleHere (unit ' ' :: s) = some (shownTitle s) := by
  have hhead := head_of_trim h.trimmed
  have hdrop : dropBlanks (unit ' ' :: s) = s := by
    rw [dropBlanks, List.dropWhile_cons_of_pos (by decide)]
    exact dropBlanks_of_head hhead
  obtain ⟨u, t, rfl⟩ := List.exists_cons_of_ne_nil h.ne_nil
  have hu : isSpace u = false := by simpa using hhead
  have hall := List.all_eq_true.1 h.oneLine
  rw [titleHere, hdrop]
  simp only [shownTitle]
  split_ifs with hsep
  · refine if_pos ⟨hsep.2.1, List.all_eq_true.2 fun v hv => hall v ?_⟩
    exact List.mem_cons_of_mem u ((List.dropWhile_suffix _).subset hv)
  · rw [hu] at *
    contradiction
  · exact whole_eq h

theorem trim_shownTitle (h : IsText s) : trim (shownTitle s) = shownTitle s := by
  obtain ⟨u, t, rfl⟩ := List.exists_cons_of_ne_nil h.ne_nil
  rw [shownTitle]
  split_ifs with hsep
  · refine trim_of_ends (Bool.not_eq_true _ ▸ hsep.2.2) fun hne => ?_
    have hsuffix : dropBlanks t <:+ u :: t := (List.dropWhile_suffix _).trans (List.suffix_cons u t)
    rw [hsuffix.getLast hne]
    exact last_of_trim h.trimmed _
  · exact h.trimmed

theorem headingHere_headingLine (h : IsText s) :
    headingHere (headingLine num s) = some (num, shownTitle s) := by
  have hds := takeWhile_digits (fun d hd => isDigit_of_mem_digitsOf (n := num) hd)
    (by decide : isDigit (unit ' ') = false) s
  obtain ⟨d, ds, hcons, hd⟩ := exists_digitsOf num
  have hdrop : dropBlanks (digitsOf num ++ unit ' ' :: s) = digitsOf num ++ unit ' ' :: s := by
    rw [hcons]
    exact dropBlanks_of_head (by simpa using not_isSpace_of_isDigit hd)
  have hQ : among "QqＱｑ" (unit 'Q') = true := by decide
  rw [headingLine, headingHere, if_pos hQ, questionHeading, hdrop, hds, List.drop_left, titleHere_eq h]
  simp only [digitsOf_ne_nil, if_false, value_digitsOf]

theorem multiSelectDirective_cons {u : UInt16} (hu : fold u ≠ fold (unit '#')) (t : Line) :
    multiSelectDirective (u :: t) = none := by
  have hnone : strip (units "#multi") (u :: t) = none := if_neg hu
  rw [multiSelectDirective, hnone]
  rfl

theorem multiSelectDirective_headingLine (num : ℕ) (s : Line) :
    multiSelectDirective (headingLine num s) = none :=
  multiSelectDirective_cons (by decide) _

theorem multiSelectDirective_optionLine (num : ℕ) (s : Line) :
    multiSelectDirective (optionLine num s) = none := by
  obtain ⟨d, ds, hcons, hd⟩ := exists_digitsOf num
  rw [optionLine, hcons]
  refine multiSelectDirective_cons (fun hu => ?_) _
  rw [fold_of_isDigit hd] at hu
  rw [hu] at hd
  exact absurd hd (by decide)

theorem multiSelectDirective_anchorLine : multiSelectDirective anchorLine = none := by decide

end Read

/-! ### The loops, line by line -/

section Loop

variable {s : Line} (st : Scan) (num : ℕ)

theorem step_headingLine (h : IsText s) : st.step (headingLine num s) =
    { st with done := st.done ++ st.cur.toList, cur := some ⟨num, shownTitle s, [], false⟩, goesOn :=
      false } := by
  have hne : headingLine num s ≠ [] := List.cons_ne_nil _ _
  have htitle := trim_shownTitle h
  simp only [Scan.step, trim_headingLine h, if_neg hne, optionOf_headingLine, headingHere_headingLine h, htitle]

theorem step_optionLine (h : IsText s) {cur : Section} (hcur : st.cur = some cur) : st.step (optionLine num s) =
    { st with cur := some { cur with options := cur.options ++ [choice num s] }, goesOn := true } := by
  have hne : optionLine num s ≠ [] := List.append_ne_nil_of_left_ne_nil (digitsOf_ne_nil num) _
  simp only [Scan.step, trim_optionLine h, if_neg hne, optionOf_optionLine h, hcur]

theorem step_anchorLine {cur : Section} (hcur : st.cur = some cur) : st.step anchorLine =
    { st with cur := some { cur with freeInput := true }, goesOn := false } := by
  have htrim : trim anchorLine = anchorLine := by decide
  have hne : anchorLine ≠ [] := by decide
  have hoption : optionOf anchorLine = none := by decide
  have hheading : headingHere anchorLine = none := by decide
  have huser : userSpecifiesLine anchorLine = true := by decide
  simp only [Scan.step, htrim, if_neg hne, hoption, hheading, huser, if_true, hcur]

theorem multiStep_question {m : MultiScan} {line : Line} (h : multiSelectDirective (trim line) = none) :
    (m.step line).question = m.question := by
  rcases hoption : optionOf (trim line) with _ | ⟨num, label⟩
  · simp only [MultiScan.step, h, hoption]
    split_ifs <;> rfl
  · simp only [MultiScan.step, h, hoption]
    split_ifs <;> rfl

end Loop

end ManyAiCli.Web.HubBlock
