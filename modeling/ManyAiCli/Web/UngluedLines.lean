import ManyAiCli.Text.Trim

/-! Lines of an approval that a terminal glued together are cut again: in front of a question's
heading, around the anchor that ends a question, and in front of numbered options. Is any text
lost, or moved? -/

namespace ManyAiCli.Web.UngluedLines

/-! ### Code units -/

/-- A string is its code units. -/
abbrev Line := List UInt16

def unit (c : Char) : UInt16 := c.toNat.toUInt16

def units (s : String) : Line := s.toList.map unit

def between (lo hi : Char) (u : UInt16) : Bool := unit lo ≤ u && u ≤ unit hi

/-- `[...]` of these characters. -/
def among (s : String) (u : UInt16) : Bool := (units s).contains u

/-- `\s`. -/
def isSpace (u : UInt16) : Bool :=
  between '\t' '\r' u || between '\u2000' '\u200A' u ||
    among " \u00A0\u1680\u2028\u2029\u202F\u205F\u3000\uFEFF" u

/-- `\d`. -/
def isDigit (u : UInt16) : Bool := between '0' '9' u

/-- `[A-Za-z\d]`. -/
def isAlnum (u : UInt16) : Bool := between 'A' 'Z' u || between 'a' 'z' u || isDigit u

/-- `\w`. -/
def isWord (u : UInt16) : Bool := isAlnum u || u == unit '_'

def trim (s : Line) : Line := (s.dropWhile isSpace).rdropWhile isSpace

/-- `if (s) out.push(s)`. -/
def nonEmpty (s : Line) : List Line := if s = [] then [] else [s]

/-- `if (s.trim()) out.push(s)`. -/
def unlessBlank (s : Line) : List Line := if trim s = [] then [] else [s]

/-! ### `splitInlineQuestionHeading` -/

/-- `/[QＱ]\d{1,2}(?![A-Za-z\d])/` matches here. -/
def questionHere : Line → Bool
  | q :: d :: s =>
    -- A second digit is in the match, for the look-ahead would refuse it.
    let s := if s.head?.any isDigit then s.drop 1 else s
    among "QＱ" q && isDigit d && !s.head?.any isAlnum
  | _ => false

/-- The loop over what is left of a line. -/
def cutHeadings (rest : Line) : List Line :=
  if rest.length ≤ 1 then unlessBlank rest
  else
    match (rest.drop 1).tails.findIdx? questionHere with
    | none => unlessBlank rest
    | some index =>
      let place := index + 1
      if (rest[place - 1]?).any (among "[「『【（(") then unlessBlank rest
      else nonEmpty (trim (rest.take place)) ++ cutHeadings (rest.drop place)
termination_by rest.length
decreasing_by grind

def splitInlineQuestionHeading (lines : List Line) : List Line := lines.flatMap cutHeadings

/-! ### `splitUserSpecifiesAnchor` -/

inductive Kind
  | userSpecifies
  | other
  deriving DecidableEq

def Kind.form : Kind → Line
  | .userSpecifies => units "N. User specifies"
  | .other => units "N. その他指定"

/-- A letter of the basic alphabet in lower case, as the flag `i` compares. -/
def fold (u : UInt16) : UInt16 := if between 'A' 'Z' u then u + 32 else u

/-- What stands behind a text, in any case. -/
def strip : Line → Line → Option Line
  | [], s => some s
  | _ :: _, [] => none
  | p :: ps, u :: s => if fold u = fold p then strip ps s else none

/-- `User\s*specifies`. -/
def userHere (s : Line) : Option Line := do
  strip (units "specifies") ((← strip (units "User") s).dropWhile isSpace)

/-- `(User\s*specifies|その他指定)\b`: the kind, and what stands behind. -/
def kindHere (s : Line) : Option (Kind × Line) :=
  match userHere s with
  | some s => if s.head?.any isWord then none else some (.userSpecifies, s)
  | none => do
    let s ← strip (units "その他指定") s
    -- The last character is no part of a word for `\b`, so one has to follow.
    if s.head?.any isWord then some (.other, s) else none

/-- `N\.[ \t]*(User\s*specifies|その他指定)\b`. -/
def anchorHere (s : Line) : Option (Kind × Line) := do
  kindHere ((← strip (units "N.") s).dropWhile (among " \t"))

/-- The first anchor: what stands before and behind. The flag says that the character before is
part of a word. -/
def findAnchor (word : Bool) : Line → Option (Line × Kind × Line)
  | [] => none
  | u :: s =>
    match if word then none else anchorHere (u :: s) with
    | some (kind, after) => some ([], kind, after)
    | none => (findAnchor (isWord u) s).map fun m => (u :: m.1, m.2)

theorem strip_length {p s t : Line} (h : strip p s = some t) : t.length + p.length = s.length := by
  fun_induction strip p s with
  | case1 s => simp_all
  | case2 => simp at h
  | case3 p ps u s heq ih => simpa [← Nat.add_assoc] using ih h
  | case4 => simp at h

theorem length_dropWhile_le (p : UInt16 → Bool) (s : Line) : (s.dropWhile p).length ≤ s.length :=
  (List.dropWhile_suffix p).length_le

theorem length_trim_le (s : Line) : (trim s).length ≤ s.length :=
  (List.rdropWhile_prefix isSpace _).length_le.trans (length_dropWhile_le isSpace s)

theorem kindHere_length {s t : Line} {kind : Kind} (h : kindHere s = some (kind, t)) : t.length ≤ s.length := by
  rw [kindHere] at h
  cases hUser : userHere s with
  | some u =>
    rw [hUser] at h
    obtain ⟨-, ht⟩ := Option.ite_none_left_eq_some.1 h
    obtain ⟨-, rfl⟩ := Prod.mk.inj (Option.some.inj ht)
    obtain ⟨v, hv, hu⟩ := Option.bind_eq_some_iff.1 hUser
    have := length_dropWhile_le isSpace v
    have := strip_length hv
    have := strip_length hu
    omega
  | none =>
    rw [hUser] at h
    obtain ⟨u, hu, ht⟩ := Option.bind_eq_some_iff.1 h
    obtain ⟨-, ht⟩ := Option.ite_none_right_eq_some.1 ht
    obtain ⟨-, rfl⟩ := Prod.mk.inj (Option.some.inj ht)
    have := strip_length hu
    omega

/-- What stands behind an anchor is shorter. -/
theorem anchorHere_length {s t : Line} {kind : Kind} (h : anchorHere s = some (kind, t)) :
    t.length < s.length := by
  obtain ⟨u, hu, ht⟩ := Option.bind_eq_some_iff.1 h
  have hN : u.length + 2 = s.length := strip_length hu
  have := length_dropWhile_le (among " \t") u
  have := kindHere_length ht
  omega

theorem findAnchor_length {word : Bool} {s before after : Line} {kind : Kind}
    (h : findAnchor word s = some (before, kind, after)) : after.length < s.length := by
  induction s generalizing word before with
  | nil => exact absurd h.symm (Option.some_ne_none _)
  | cons u s ih =>
    rw [findAnchor] at h
    split at h
    next hHere =>
      obtain ⟨-, rfl, rfl⟩ := Prod.mk.injEq .. ▸ Option.some.inj h
      obtain ⟨-, hAnchor⟩ := Option.ite_none_left_eq_some.1 hHere
      exact anchorHere_length hAnchor
    next =>
      obtain ⟨⟨b, m⟩, hm, he⟩ := Option.map_eq_some_iff.1 h
      obtain ⟨-, rfl⟩ := Prod.mk.inj he
      exact Nat.lt_succ_of_lt (ih hm)

def expand (line : Line) : List Line :=
  match _h : findAnchor false line with
  | none => [line]
  | some (before, kind, after) =>
    -- The white space at the anchor is in the match.
    let rest := trim (after.dropWhile isSpace)
    nonEmpty (trim (before.rdropWhile isSpace)) ++ kind.form :: if rest = [] then [] else expand rest
termination_by line.length
decreasing_by
  have hTrim : (trim (after.dropWhile isSpace)).length ≤ after.length :=
    (length_trim_le _).trans (length_dropWhile_le isSpace after)
  exact hTrim.trans_lt (findAnchor_length _h)

def splitUserSpecifiesAnchor (lines : List Line) : List Line := lines.flatMap expand

/-! ### `splitGluedNumberedLine` -/

/-- `parseInt` of digits. -/
def value (ds : Line) : ℕ := ds.foldl (fun n d => 10 * n + (d.toNat - 48)) 0

/-- `(\d{1,2})\.`: the number, and what stands behind. -/
def numberHere (s : Line) : Option (ℕ × Line) :=
  let ds := (s.take 2).takeWhile isDigit
  match ds, s.drop ds.length with
  | _ :: _, u :: s => if u = unit '.' then some (value ds, s) else none
  | _, _ => none

/-- A match of one of the expressions for a number: how much of it is in front of the number, the
number, and what stands behind the match. -/
abbrev Match := ℕ × ℕ × Line

/-- `(\d{1,2})\.\s*\[([^\][\n]{1,16})\]`. -/
def strongHere (_ : Bool) (s : Line) : Option Match := do
  let (num, s) ← numberHere s
  match s.dropWhile isSpace with
  | u :: s =>
    let label := s.takeWhile fun u => !among "[]\n" u
    if u = unit '[' ∧ label ≠ [] ∧ label.length ≤ 16 ∧ (s.drop label.length).head? = some (unit ']') then
      some (0, num, s.drop (label.length + 1))
    else none
  | [] => none

/-- `(\d{1,2})\.(?:\s+|(?=\D))`. -/
def weakNumber (s : Line) : Option (ℕ × Line) := do
  let (num, s) ← numberHere s
  if s.head?.any (!isDigit ·) then some (num, s.dropWhile isSpace) else none

/-- `(^|[\s)）」』】。．？?！!…])`, and a number of the weak kind. -/
def weakHere (start : Bool) (s : Line) : Option Match :=
  match if start then weakNumber s else none with
  | some (num, rest) => some (0, num, rest)
  | none =>
    match s with
    | u :: s => if isSpace u || among ")）」』】。．？?！!…" u then (weakNumber s).map (1, ·) else none
    | [] => none

structure Mark where
  place : ℕ
  num : ℕ

/-- `exec` on what stands from a place on: the mark, and what stands behind the match. -/
def exec (here : Bool → Line → Option Match) : ℕ → Line → Option (Mark × Line)
  | _, [] => none
  | place, u :: s =>
    match here (place == 0) (u :: s) with
    | some (border, num, rest) => some (⟨place + border, num⟩, rest)
    | none => exec here (place + 1) s

/-- Each match takes more than what stands in front of its number. -/
def Takes (here : Bool → Line → Option Match) : Prop :=
  ∀ start s border num rest, here start s = some (border, num, rest) → border + rest.length < s.length

theorem numberHere_length {s rest : Line} {num : ℕ} (h : numberHere s = some (num, rest)) :
    rest.length < s.length := by
  rw [numberHere] at h
  split at h
  next hRest =>
    obtain ⟨-, hPair⟩ := Option.ite_none_right_eq_some.1 h
    obtain ⟨-, rfl⟩ := Prod.mk.inj (Option.some.inj hPair)
    have := congrArg List.length hRest
    rw [List.length_drop, List.length_cons] at this
    omega
  next => exact absurd h.symm (Option.some_ne_none _)

theorem takes_strong : Takes strongHere := by
  intro start s border num rest h
  obtain ⟨⟨n, t⟩, hNumber, h⟩ := Option.bind_eq_some_iff.1 h
  have := numberHere_length hNumber
  have := length_dropWhile_le isSpace t
  dsimp only at h
  split at h
  next u v hLabel =>
    obtain ⟨-, hMatch⟩ := Option.ite_none_right_eq_some.1 h
    obtain ⟨rfl, hRest⟩ := Prod.mk.inj (Option.some.inj hMatch)
    obtain ⟨-, rfl⟩ := Prod.mk.inj hRest
    rw [hLabel, List.length_cons] at this
    rw [List.length_drop]
    omega
  next => exact absurd h.symm (Option.some_ne_none _)

theorem weakNumber_length {s rest : Line} {num : ℕ} (h : weakNumber s = some (num, rest)) :
    rest.length < s.length := by
  obtain ⟨⟨n, t⟩, hNumber, h⟩ := Option.bind_eq_some_iff.1 h
  obtain ⟨-, hRest⟩ := Option.ite_none_right_eq_some.1 h
  obtain ⟨-, rfl⟩ := Prod.mk.inj (Option.some.inj hRest)
  exact (length_dropWhile_le isSpace t).trans_lt (numberHere_length hNumber)

theorem takes_weak : Takes weakHere := by
  intro start s border num rest h
  unfold weakHere at h
  split at h
  next hNumber =>
    obtain ⟨rfl, hRest⟩ := Prod.mk.inj (Option.some.inj h)
    obtain ⟨-, rfl⟩ := Prod.mk.inj hRest
    obtain ⟨-, hNumber⟩ := Option.ite_none_right_eq_some.1 hNumber
    rw [Nat.zero_add]
    exact weakNumber_length hNumber
  next =>
    cases s with
    | nil => exact absurd h.symm (Option.some_ne_none _)
    | cons u s =>
      obtain ⟨-, h⟩ := Option.ite_none_right_eq_some.1 h
      obtain ⟨m, hNumber, hRest⟩ := Option.map_eq_some_iff.1 h
      obtain ⟨rfl, rfl⟩ := Prod.mk.inj hRest
      have := weakNumber_length hNumber
      rw [List.length_cons]
      omega

theorem exec_spec {here : Bool → Line → Option Match} (hTakes : Takes here) {place : ℕ} {s rest : Line}
    {mark : Mark}
    (h : exec here place s = some (mark, rest)) :
    place ≤ mark.place ∧ mark.place + rest.length < place + s.length := by
  induction s generalizing place with
  | nil => exact absurd h.symm (Option.some_ne_none _)
  | cons u s ih =>
    rw [exec] at h
    split at h
    next border num _ hHere =>
      obtain ⟨rfl, rfl⟩ := Prod.mk.inj (Option.some.inj h)
      have := hTakes _ _ _ _ _ hHere
      refine ⟨Nat.le_add_right _ _, ?_⟩
      dsimp only
      omega
    next =>
      have := ih h
      rw [List.length_cons]
      omega

theorem exec_length {here : Bool → Line → Option Match} (hTakes : Takes here) {place : ℕ} {s rest : Line}
    {mark : Mark} (h : exec here place s = some (mark, rest)) : rest.length < s.length := by
  have := exec_spec hTakes h
  omega

/-- The loop over `strongRe`: the marks, and whether each number is above the one before. -/
def strongMarks (last : Option ℕ) (place : ℕ) (s : Line) : List Mark × Bool :=
  match _h : exec strongHere place s with
  | none => ([], true)
  | some (mark, rest) =>
    if last.any (mark.num ≤ ·) then ([], false)
    else
      let (marks, ok) := strongMarks (some mark.num) (place + (s.length - rest.length)) rest
      (mark :: marks, ok)
termination_by s.length
decreasing_by exact exec_length takes_strong _h

/-- The loop over the weak expression. -/
def weakMarks (place : ℕ) (s : Line) : List Mark :=
  match _h : exec weakHere place s with
  | none => []
  | some (mark, rest) => mark :: weakMarks (place + (s.length - rest.length)) rest
termination_by s.length
decreasing_by exact exec_length takes_weak _h

/-- `line.slice(from, to)`. -/
def slice (line : Line) (start stop : ℕ) : Line := (line.drop start).take (stop - start)

/-- From each place to the next one, and from the last one to the end. -/
def segments (line : Line) : List ℕ → List Line
  | [] => []
  | [place] => [line.drop place]
  | place :: next :: places => slice line place next :: segments line (next :: places)

/-- What stands in front of the first mark, and from each mark to the next. -/
def pieces (line : Line) (marks : List Mark) : List Line :=
  nonEmpty (trim (line.take (marks.head?.elim 0 Mark.place))) ++
    (segments line (marks.map Mark.place)).flatMap (nonEmpty <| trim ·)

/-- `/^[>❯›❱*\-•・]+$/`. -/
def isCursor (head : Line) : Bool := head ≠ [] && head.all (among ">❯›❱*-•・")

def splitWeak (line : Line) : List Line :=
  match weakMarks 0 line with
  | [] => [line]
  | [mark] =>
    let head := trim (line.take mark.place)
    if mark.num = 1 ∧ head ≠ [] ∧ ¬ isCursor head then head :: nonEmpty (trim (line.drop mark.place))
      else [line]
  | marks => if marks.IsChain (fun a b => b.num = a.num + 1) then pieces line marks else [line]

def splitGluedNumberedLine (line : Line) : List Line :=
  let (marks, ok) := strongMarks none 0 line
  if ok ∧ 2 ≤ marks.length then pieces line marks
  else
    match marks with
    | [mark] =>
      let head := trim (line.take mark.place)
      let seg := trim (line.drop mark.place)
      if head ≠ [] ∧ seg ≠ [] ∧ ¬ head.head?.any isDigit then [head, seg] else splitWeak line
    | _ => splitWeak line

def ungluedApprovalLines (lines : List Line) : List Line :=
  (splitUserSpecifiesAnchor (splitInlineQuestionHeading lines)).flatMap splitGluedNumberedLine

/-! ### Text without white space -/

def squeeze (s : Line) : Line := s.filter (!isSpace ·)

@[simp] theorem squeeze_append (s t : Line) : squeeze (s ++ t) = squeeze s ++ squeeze t := List.filter_append ..

theorem squeeze_of_blank {s : Line} (h : ∀ u ∈ s, isSpace u = true) : squeeze s = [] :=
  List.filter_eq_nil_iff.2 fun u hu => by simp [h u hu]

theorem squeeze_cons_of_isSpace {u : UInt16} (hu : isSpace u = true) (s : Line) :
    squeeze (u :: s) = squeeze s :=
  List.filter_cons_of_neg (by simp [hu])

@[simp] theorem squeeze_dropWhile (s : Line) : squeeze (s.dropWhile isSpace) = squeeze s := by
  conv_rhs => rw [← List.takeWhile_append_dropWhile (p := isSpace) (l := s), squeeze_append,
    squeeze_of_blank fun u hu => List.mem_takeWhile_imp hu, List.nil_append]

@[simp] theorem squeeze_rdropWhile (s : Line) : squeeze (s.rdropWhile isSpace) = squeeze s := by
  conv_rhs => rw [← List.rdropWhile_append_rtakeWhile (p := isSpace) (l := s), squeeze_append,
    squeeze_of_blank fun u hu => List.mem_rtakeWhile_imp hu, List.append_nil]

@[simp] theorem squeeze_trim (s : Line) : squeeze (trim s) = squeeze s := by simp [trim]

theorem trim_eq_nil_iff {s : Line} : trim s = [] ↔ squeeze s = [] := by
  constructor
  · intro h
    rw [← squeeze_trim, h]
    rfl
  · intro h
    have hAll : ∀ u ∈ s, isSpace u = true := fun u hu => by simpa using List.filter_eq_nil_iff.1 h u hu
    rw [trim, List.dropWhile_eq_nil_iff.2 hAll, List.rdropWhile_nil]

@[simp] theorem squeeze_nonEmpty (s : Line) : squeeze (nonEmpty s).flatten = squeeze s := by
  rw [nonEmpty]
  split_ifs with h
  · rw [h, List.flatten_nil]
  · rw [List.flatten_singleton]

@[simp] theorem squeeze_unlessBlank (s : Line) : squeeze (unlessBlank s).flatten = squeeze s := by
  rw [unlessBlank]
  split_ifs with h
  · rw [trim_eq_nil_iff.1 h, List.flatten_nil]
    rfl
  · rw [List.flatten_singleton]

/-- Lines cut one by one. -/
theorem squeeze_flatMap {f : Line → List Line} {g : Line → Line} {lines : List Line}
    (h : ∀ line ∈ lines, squeeze (f line).flatten = squeeze (g line)) :
    squeeze (lines.flatMap f).flatten = squeeze (lines.map g).flatten := by
  induction lines with
  | nil => rfl
  | cons line lines ih =>
    rw [List.flatMap_cons, List.flatten_append, squeeze_append, h line List.mem_cons_self,
      ih fun line hLine =>
        h line (List.mem_cons_of_mem _ hLine), List.map_cons, List.flatten_cons, squeeze_append]

/-! ### Headings -/

theorem squeeze_cutHeadings (line : Line) : squeeze (cutHeadings line).flatten = squeeze line := by
  fun_induction cutHeadings line with
  | case1 | case2 | case3 => exact squeeze_unlessBlank _
  | case4 rest _ index _ place _ ih =>
    rw [List.flatten_append, squeeze_append, squeeze_nonEmpty, squeeze_trim, ih, ← squeeze_append,
      List.take_append_drop]

theorem squeeze_headings (lines : List Line) :
    squeeze (splitInlineQuestionHeading lines).flatten = squeeze lines.flatten := by
  rw [splitInlineQuestionHeading, squeeze_flatMap (g := id) fun line _ => squeeze_cutHeadings line, List.map_id]

/-! ### Numbered options -/

theorem segments_flatten (line : Line) {place : ℕ} {places : List ℕ} (h : (place :: places).IsChain (· ≤ ·)) :
    (segments line (place :: places)).flatten = line.drop place := by
  induction places generalizing place with
  | nil => exact List.flatten_singleton ..
  | cons next places ih =>
    obtain ⟨hle, hRest⟩ := List.isChain_cons_cons.1 h
    rw [segments, List.flatten_cons, ih hRest, slice, ← Nat.add_sub_cancel' hle, ← List.drop_drop,
      Nat.add_sub_cancel_left, List.take_append_drop]

/-- The marks are in order, from a place on. -/
def InOrder (marks : List Mark) (place : ℕ) : Prop := (place :: marks.map Mark.place).IsChain (· ≤ ·)

theorem InOrder.cons {here : Bool → Line → Option Match} (hTakes : Takes here) {place : ℕ} {s rest : Line}
    {mark : Mark}
    (h : exec here place s = some (mark, rest)) {marks : List Mark}
    (hMarks : InOrder marks (place + (s.length - rest.length))) : InOrder (mark :: marks) place := by
  have := exec_spec hTakes h
  refine List.isChain_cons_cons.2 ⟨this.1, ?_⟩
  cases marks with
  | nil => exact .singleton _
  | cons next marks =>
    obtain ⟨hle, hRest⟩ := List.isChain_cons_cons.1 hMarks
    exact List.isChain_cons_cons.2 ⟨by omega, hRest⟩

theorem inOrder_strongMarks (last : Option ℕ) (place : ℕ) (s : Line) :
    InOrder (strongMarks last place s).1 place := by
  fun_induction strongMarks last place s with
  | case1 | case2 => exact .singleton _
  | case3 last place s mark rest hMark hLast marks ok hMarks ih =>
    exact .cons takes_strong hMark (by rwa [hMarks] at ih)

theorem inOrder_weakMarks (place : ℕ) (s : Line) : InOrder (weakMarks place s) place := by
  fun_induction weakMarks place s with
  | case1 => exact .singleton _
  | case2 place s mark rest hMark ih => exact .cons takes_weak hMark ih

theorem squeeze_pieces (line : Line) {marks : List Mark} (h : InOrder marks 0) (hne : marks ≠ []) :
    squeeze (pieces line marks).flatten = squeeze line := by
  obtain ⟨mark, marks, rfl⟩ := List.exists_cons_of_ne_nil hne
  have hSegments := segments_flatten line (List.isChain_cons_cons.1 h).2
  rw [pieces, List.flatten_append, squeeze_append, squeeze_nonEmpty, squeeze_trim,
    squeeze_flatMap (g := id) fun s _ => by rw [squeeze_nonEmpty, squeeze_trim, id], List.map_id, List.map_cons,
    hSegments, ← squeeze_append]
  exact congrArg squeeze (List.take_append_drop mark.place line)

theorem squeeze_splitWeak (line : Line) : squeeze (splitWeak line).flatten = squeeze line := by
  rw [splitWeak]
  split
  next => rw [List.flatten_singleton]
  next mark _ =>
    dsimp only
    split_ifs
    · rw [List.flatten_cons, squeeze_append, squeeze_nonEmpty, squeeze_trim, squeeze_trim, ← squeeze_append,
        List.take_append_drop]
    · rw [List.flatten_singleton]
  next hNil _ =>
    split_ifs
    · exact squeeze_pieces line (inOrder_weakMarks 0 line) hNil
    · rw [List.flatten_singleton]

theorem squeeze_splitGluedNumberedLine (line : Line) :
    squeeze (splitGluedNumberedLine line).flatten = squeeze line := by
  rw [splitGluedNumberedLine]
  dsimp only
  split_ifs with h
  · exact squeeze_pieces line (inOrder_strongMarks none 0 line) fun hNil => by simp [hNil] at h
  · split
    next mark _ =>
      split_ifs
      · rw [List.flatten_cons, List.flatten_singleton, squeeze_append, squeeze_trim, squeeze_trim,
        ← squeeze_append,
          List.take_append_drop]
      · exact squeeze_splitWeak line
    next => exact squeeze_splitWeak line

/-! ### White space around an anchor -/

theorem between_iff {lo hi : Char} {u : UInt16} :
    between lo hi u = true ↔ (unit lo).toNat ≤ u.toNat ∧ u.toNat ≤ (unit hi).toNat := by
  rw [between, Bool.and_eq_true, decide_eq_true_eq, decide_eq_true_eq, UInt16.le_iff_toNat_le,
    UInt16.le_iff_toNat_le]

theorem toNat_of_isSpace {u : UInt16} (h : isSpace u = true) : u.toNat < 48 ∨ 122 < u.toNat := by
  rw [isSpace, Bool.or_eq_true, Bool.or_eq_true, between_iff, between_iff] at h
  obtain (hControl | hGeneral) | hOne := h
  · exact .inl (hControl.2.trans_lt (by decide))
  · exact .inr (Nat.lt_of_lt_of_le (by decide) hGeneral.1)
  · have hAll := List.all_eq_true.1 (show (units " \u00A0\u1680\u2028\u2029\u202F\u205F\u3000\uFEFF").all
      (fun u => decide (u.toNat < 48 ∨ 122 < u.toNat)) = true by decide)
    exact of_decide_eq_true (hAll u (List.contains_iff_mem.1 hOne))

theorem toNat_of_isWord {u : UInt16} (h : isWord u = true) : 48 ≤ u.toNat ∧ u.toNat ≤ 122 := by
  rw [isWord, isAlnum, isDigit, Bool.or_eq_true, Bool.or_eq_true, Bool.or_eq_true, between_iff, between_iff,
    between_iff, beq_iff_eq] at h
  obtain ((hUpper | hLower) | hDigit) | rfl := h
  · exact ⟨le_trans (by decide) hUpper.1, hUpper.2.trans (by decide)⟩
  · exact ⟨le_trans (by decide) hLower.1, hLower.2⟩
  · exact ⟨hDigit.1, hDigit.2.trans (by decide)⟩
  · decide

theorem not_isWord_of_isSpace {u : UInt16} (h : isSpace u = true) : isWord u = false := by
  by_contra hWord
  have := toNat_of_isSpace h
  have := toNat_of_isWord (Bool.not_eq_false _ ▸ hWord)
  omega

theorem fold_of_isSpace {u : UInt16} (h : isSpace u = true) : fold u = u := by
  refine if_neg fun hUpper => ?_
  have := not_isWord_of_isSpace h
  simp [isWord, isAlnum, hUpper] at this

theorem isWord_of_fold {u : UInt16} (h : isWord (fold u) = true) : isWord u = true := by
  rw [fold] at h
  split_ifs at h with hUpper
  · simp [isWord, isAlnum, hUpper]
  · exact h

/-- No character of a text is compared with white space. -/
def inked (p : Line) : Bool := p.all fun u => !isSpace (fold u)

theorem strip_append {p : Line} (hp : inked p = true) (s : Line) {blank : Line}
    (hBlank : ∀ u ∈ blank, isSpace u = true) :
    strip p (s ++ blank) = (strip p s).map (· ++ blank) := by
  induction p generalizing s with
  | nil => rfl
  | cons x p ih =>
    obtain ⟨hx, hp⟩ := Bool.and_eq_true_iff.1 hp
    cases s with
    | nil =>
      cases blank with
      | nil => rfl
      | cons u blank =>
        have hu := hBlank u List.mem_cons_self
        have hFold : fold u ≠ fold x := fun hFold => by
          have hNot : (!isSpace (fold x)) = true := hx
          rw [← hFold, fold_of_isSpace hu, hu] at hNot
          exact Bool.false_ne_true hNot
        exact if_neg hFold
    | cons u s =>
      rw [List.cons_append, strip, strip]
      split_ifs
      · exact ih hp s
      · rfl

/-- White space behind a text is left behind by what is read from it. -/
theorem dropWhile_append_map {β : Type*} {f : Line → Option β} {g : Line → β → β} (hNil : f [] = none)
    (hAppend : ∀ s blank, (∀ u ∈ blank, isSpace u = true) → f (s ++ blank) = (f s).map (g blank))
    (p : UInt16 → Bool) (s : Line) {blank : Line} (hBlank : ∀ u ∈ blank, isSpace u = true) :
    f ((s ++ blank).dropWhile p) = (f (s.dropWhile p)).map (g blank) := by
  rw [List.dropWhile_append]
  split
  next hEmpty =>
    have hDrop : ∀ u ∈ blank.dropWhile p, isSpace u = true := fun u hu =>
      hBlank u ((List.dropWhile_suffix p).subset hu)
    rw [List.isEmpty_iff.1 hEmpty, ← List.nil_append (blank.dropWhile p), hAppend [] _ hDrop, hNil]
    rfl
  next => exact hAppend _ _ hBlank

theorem userHere_append (s blank : Line) (hBlank : ∀ u ∈ blank, isSpace u = true) :
    userHere (s ++ blank) = (userHere s).map (· ++ blank) := by
  rw [userHere, userHere, strip_append rfl s hBlank]
  cases strip (units "User") s with
  | none => rfl
  | some s =>
    exact dropWhile_append_map (f := strip (units "specifies")) (g := fun blank s => s ++ blank) rfl
      (fun s _ h => strip_append rfl s h) isSpace s hBlank

theorem any_head_append (s : Line) {blank : Line} (hBlank : ∀ u ∈ blank, isSpace u = true) :
    (s ++ blank).head?.any isWord = s.head?.any isWord := by
  cases s with
  | cons u s => rfl
  | nil =>
    cases blank with
    | nil => rfl
    | cons u blank => exact not_isWord_of_isSpace (hBlank u List.mem_cons_self)

/-- White space behind what an anchor leaves. -/
def behind (blank : Line) (m : Kind × Line) : Kind × Line := (m.1, m.2 ++ blank)

theorem kindHere_append (s blank : Line) (hBlank : ∀ u ∈ blank, isSpace u = true) :
    kindHere (s ++ blank) = (kindHere s).map (behind blank) := by
  rw [kindHere, kindHere, userHere_append s blank hBlank]
  cases userHere s with
  | some s =>
    simp only [Option.map_some, any_head_append s hBlank]
    split_ifs <;> rfl
  | none =>
    rw [strip_append rfl s hBlank]
    cases strip (units "その他指定") s with
    | none => rfl
    | some s =>
      simp only [Option.map_some, Option.bind_eq_bind, Option.bind_some, any_head_append s hBlank]
      split_ifs <;> rfl

theorem anchorHere_append (s blank : Line) (hBlank : ∀ u ∈ blank, isSpace u = true) :
    anchorHere (s ++ blank) = (anchorHere s).map (behind blank) := by
  rw [anchorHere, anchorHere, strip_append rfl s hBlank]
  cases strip (units "N.") s with
  | none => rfl
  | some s => exact dropWhile_append_map (f := kindHere) rfl kindHere_append (among " \t") s hBlank

/-- An anchor begins with a letter. -/
theorem anchorHere_of_not_isWord {u : UInt16} (hu : isWord u = false) (s : Line) :
    anchorHere (u :: s) = none := by
  have hFold : fold u ≠ fold (unit 'N') := fun h => by
    rw [isWord_of_fold (h ▸ (by decide : isWord (fold (unit 'N')) = true))] at hu
    exact Bool.false_ne_true hu.symm
  rw [anchorHere]
  have hStrip : strip (units "N.") (u :: s) = none := if_neg hFold
  rw [hStrip]
  rfl

/-! ### Anchors in their normal form -/

/-- A line with each anchor in its normal form. -/
def normalizeAnchors (word : Bool) (line : Line) : Line :=
  match _h : findAnchor word line with
  | none => line
  | some (before, kind, after) =>
    -- The last character of an anchor, for the `\b` in front of the next one.
    before ++ kind.form ++ normalizeAnchors (kind == .userSpecifies) after
termination_by line.length
decreasing_by exact findAnchor_length _h

theorem normalizeAnchors_of_none {word : Bool} {line : Line} (h : findAnchor word line = none) :
    normalizeAnchors word line = line := by
  rw [normalizeAnchors]
  split
  next => rfl
  next hSome => exact absurd (h.symm.trans hSome).symm (Option.some_ne_none _)

theorem normalizeAnchors_of_some {word : Bool} {line before after : Line} {kind : Kind}
    (h : findAnchor word line = some (before, kind, after)) :
    normalizeAnchors word line = before ++ kind.form ++ normalizeAnchors (kind == .userSpecifies) after := by
  rw [normalizeAnchors]
  split
  next hNone => exact absurd (h.symm.trans hNone) (Option.some_ne_none _)
  next hSome =>
    obtain ⟨rfl, hRest⟩ := Prod.mk.inj (Option.some.inj (h.symm.trans hSome))
    obtain ⟨rfl, rfl⟩ := Prod.mk.inj hRest
    rfl

theorem findAnchor_append (word : Bool) (s : Line) {blank : Line} (hBlank : ∀ u ∈ blank, isSpace u = true) :
    findAnchor word (s ++ blank) = (findAnchor word s).map fun m => (m.1, behind blank m.2) := by
  induction s generalizing word with
  | nil =>
    induction blank generalizing word with
    | nil => rfl
    | cons u blank ih =>
      have hu := not_isWord_of_isSpace (hBlank u List.mem_cons_self)
      have hRest := ih (fun u hu => hBlank u (List.mem_cons_of_mem _ hu)) (isWord u)
      rw [List.nil_append] at hRest ⊢
      rw [findAnchor.eq_2, anchorHere_of_not_isWord hu, ite_self, hRest]
      rfl
  | cons u s ih =>
    have hHere : (if word then none else anchorHere (u :: (s ++ blank))) =
        (if word then none else anchorHere (u :: s)).map (behind blank) := by
      rw [← List.cons_append, anchorHere_append _ _ hBlank]
      split_ifs <;> rfl
    rw [List.cons_append, findAnchor, findAnchor, hHere, ih]
    cases (if word then none else anchorHere (u :: s)) with
    | some m => rfl
    | none => cases findAnchor (isWord u) s <;> rfl

theorem normalizeAnchors_append (word : Bool) (s : Line) {blank : Line}
    (hBlank : ∀ u ∈ blank, isSpace u = true) :
    normalizeAnchors word (s ++ blank) = normalizeAnchors word s ++ blank := by
  have hFind := fun word s => findAnchor_append word s hBlank
  fun_induction normalizeAnchors word s with
  | case1 word s hNone => exact normalizeAnchors_of_none (by rw [hFind, hNone, Option.map_none])
  | case2 word s before kind after hSome ih =>
    have hMore : findAnchor word (s ++ blank) = some (before, kind, after ++ blank) := by
      rw [hFind, hSome, Option.map_some, behind]
    rw [normalizeAnchors_of_some hMore, ih, List.append_assoc _ _ blank]

theorem normalizeAnchors_cons (word : Bool) {u : UInt16} (hu : isWord u = false) (s : Line) :
    normalizeAnchors word (u :: s) = u :: normalizeAnchors false s := by
  have hFind : findAnchor word (u :: s) = (findAnchor false s).map fun m => (u :: m.1, m.2) := by
    rw [findAnchor, anchorHere_of_not_isWord hu, ite_self, hu]
  cases hSome : findAnchor false s with
  | none =>
    rw [normalizeAnchors_of_none hSome]
    exact normalizeAnchors_of_none (by rw [hFind, hSome, Option.map_none])
  | some m =>
    rw [hSome, Option.map_some] at hFind
    rw [normalizeAnchors_of_some hSome, normalizeAnchors_of_some hFind]
    rfl

/-- Where no word goes on, the character before makes no difference. -/
theorem normalizeAnchors_of_not_isWord {s : Line} (h : s.head?.any isWord = false) (word : Bool) :
    normalizeAnchors word s = normalizeAnchors false s := by
  cases s with
  | nil => rw [normalizeAnchors_of_none rfl, normalizeAnchors_of_none rfl]
  | cons u s => rw [normalizeAnchors_cons word h, normalizeAnchors_cons false h]

theorem squeeze_normalizeAnchors_dropWhile (s : Line) :
    squeeze (normalizeAnchors false (s.dropWhile isSpace)) = squeeze (normalizeAnchors false s) := by
  induction s with
  | nil => rfl
  | cons u s ih =>
    by_cases hu : isSpace u = true
    · rw [List.dropWhile_cons_of_pos hu, ih, normalizeAnchors_cons false (not_isWord_of_isSpace hu),
        squeeze_cons_of_isSpace hu]
    · rw [List.dropWhile_cons_of_neg hu]

theorem squeeze_normalizeAnchors_trim (s : Line) :
    squeeze (normalizeAnchors false (trim s)) = squeeze (normalizeAnchors false s) := by
  have hTail : ∀ u ∈ (s.dropWhile isSpace).rtakeWhile isSpace, isSpace u = true := fun u hu =>
    List.mem_rtakeWhile_imp hu
  have hSplit := normalizeAnchors_append false (trim s) hTail
  rw [trim, List.rdropWhile_append_rtakeWhile] at hSplit
  rw [← squeeze_normalizeAnchors_dropWhile s, hSplit, squeeze_append, squeeze_of_blank hTail, List.append_nil,
    trim]

theorem kindHere_after {s after : Line} {kind : Kind} (h : kindHere s = some (kind, after)) :
    kind = .other ∨ after.head?.any isWord = false := by
  rw [kindHere] at h
  cases hUser : userHere s with
  | some u =>
    rw [hUser] at h
    obtain ⟨hWord, ht⟩ := Option.ite_none_left_eq_some.1 h
    obtain ⟨-, rfl⟩ := Prod.mk.inj (Option.some.inj ht)
    exact .inr (Bool.not_eq_true _ ▸ hWord)
  | none =>
    rw [hUser] at h
    obtain ⟨u, hu, ht⟩ := Option.bind_eq_some_iff.1 h
    obtain ⟨-, ht⟩ := Option.ite_none_right_eq_some.1 ht
    exact .inl (Prod.mk.inj (Option.some.inj ht)).1.symm

theorem findAnchor_after {word : Bool} {s before after : Line} {kind : Kind}
    (h : findAnchor word s = some (before, kind, after)) : kind = .other ∨ after.head?.any isWord = false := by
  induction s generalizing word before with
  | nil => exact absurd h.symm (Option.some_ne_none _)
  | cons u s ih =>
    rw [findAnchor] at h
    split at h
    next hHere =>
      obtain ⟨-, rfl, rfl⟩ := Prod.mk.injEq .. ▸ Option.some.inj h
      obtain ⟨-, hAnchor⟩ := Option.ite_none_left_eq_some.1 hHere
      obtain ⟨v, -, hKind⟩ := Option.bind_eq_some_iff.1 hAnchor
      exact kindHere_after hKind
    next =>
      obtain ⟨⟨b, m⟩, hm, he⟩ := Option.map_eq_some_iff.1 h
      obtain ⟨-, rfl⟩ := Prod.mk.inj he
      exact ih hm

/-- What an anchor leaves has the same anchors on a line of its own. -/
theorem normalizeAnchors_after {word : Bool} {s before after : Line} {kind : Kind}
    (h : findAnchor word s = some (before, kind, after)) :
    normalizeAnchors (kind == .userSpecifies) after = normalizeAnchors false after := by
  obtain rfl | hAfter := findAnchor_after h
  · rfl
  · exact normalizeAnchors_of_not_isWord hAfter _

theorem squeeze_expand (line : Line) :
    squeeze (expand line).flatten = squeeze (normalizeAnchors false line) := by
  fun_induction expand line with
  | case1 line hNone => rw [normalizeAnchors_of_none hNone, List.flatten_singleton]
  | case2 line before kind after hSome rest ih =>
    have hRest : squeeze (if rest = [] then [] else expand rest).flatten =
      squeeze (normalizeAnchors false after) := by
      have hTrim : squeeze (normalizeAnchors false rest) = squeeze (normalizeAnchors false after) :=
        (squeeze_normalizeAnchors_trim _).trans (squeeze_normalizeAnchors_dropWhile after)
      split_ifs with hEmpty
      · rw [← hTrim, hEmpty, normalizeAnchors_of_none rfl, List.flatten_nil]
      · rw [ih, hTrim]
    rw [normalizeAnchors_of_some hSome, normalizeAnchors_after hSome, List.flatten_append, List.flatten_cons,
      squeeze_append, squeeze_append, squeeze_append, squeeze_append, squeeze_nonEmpty, squeeze_trim,
      squeeze_rdropWhile, hRest, List.append_assoc]

theorem squeeze_anchors (lines : List Line) :
    squeeze (splitUserSpecifiesAnchor lines).flatten = squeeze (lines.map (normalizeAnchors false)).flatten :=
  squeeze_flatMap fun line _ => squeeze_expand line

/-! ### No line is blank -/

/-- There is more on a line than white space. -/
def Shown (line : Line) : Prop := trim line ≠ []

theorem shown_trim {s : Line} (h : trim s ≠ []) : Shown (trim s) := by
  rwa [Shown, Ne, trim_eq_nil_iff, squeeze_trim, ← trim_eq_nil_iff]

theorem shown_of_mem_nonEmpty {s line : Line} (h : line ∈ nonEmpty (trim s)) : Shown line := by
  rw [nonEmpty] at h
  split_ifs at h with hEmpty
  · exact absurd h List.not_mem_nil
  · obtain rfl := List.mem_singleton.1 h
    exact shown_trim hEmpty

theorem shown_of_mem_unlessBlank {s line : Line} (h : line ∈ unlessBlank s) : Shown line := by
  rw [unlessBlank] at h
  split_ifs at h with hBlank
  · exact absurd h List.not_mem_nil
  · obtain rfl := List.mem_singleton.1 h
    exact hBlank

theorem shown_of_mem_cutHeadings {rest line : Line} (h : line ∈ cutHeadings rest) : Shown line := by
  fun_induction cutHeadings rest with
  | case1 | case2 | case3 => exact shown_of_mem_unlessBlank h
  | case4 rest _ index _ place _ ih => exact (List.mem_append.1 h).elim shown_of_mem_nonEmpty ih

theorem shown_form (kind : Kind) : Shown kind.form := by
  cases kind with
  | userSpecifies => exact (by decide : trim (Kind.form .userSpecifies) ≠ [])
  | other => exact (by decide : trim (Kind.form .other) ≠ [])

theorem shown_of_mem_expand {s line : Line} (hs : Shown s) (h : line ∈ expand s) : Shown line := by
  fun_induction expand s with
  | case1 s hNone => exact List.mem_singleton.1 h ▸ hs
  | case2 s before kind after hSome rest ih =>
    obtain hBefore | hLine := List.mem_append.1 h
    · exact shown_of_mem_nonEmpty hBefore
    · obtain rfl | hRest := List.mem_cons.1 hLine
      · exact shown_form kind
      · split_ifs at hRest with hEmpty
        · exact absurd hRest List.not_mem_nil
        · exact ih (shown_trim hEmpty) hRest

theorem shown_of_mem_pieces {s line : Line} {marks : List Mark} (h : line ∈ pieces s marks) : Shown line := by
  obtain hHead | hSegment := List.mem_append.1 h
  · exact shown_of_mem_nonEmpty hHead
  · obtain ⟨t, -, hLine⟩ := List.mem_flatMap.1 hSegment
    exact shown_of_mem_nonEmpty hLine

theorem shown_of_mem_splitWeak {s line : Line} (hs : Shown s) (h : line ∈ splitWeak s) : Shown line := by
  have hKept : line ∈ [s] → Shown line := fun h => List.mem_singleton.1 h ▸ hs
  rw [splitWeak] at h
  split at h
  next => exact hKept h
  next =>
    dsimp only at h
    split_ifs at h with hOne
    · obtain rfl | hSeg := List.mem_cons.1 h
      · exact shown_trim hOne.2.1
      · exact shown_of_mem_nonEmpty hSeg
    · exact hKept h
  next =>
    split_ifs at h
    · exact shown_of_mem_pieces h
    · exact hKept h

theorem shown_of_mem_splitGluedNumberedLine {s line : Line} (hs : Shown s)
    (h : line ∈ splitGluedNumberedLine s) :
    Shown line := by
  rw [splitGluedNumberedLine] at h
  dsimp only at h
  split_ifs at h
  · exact shown_of_mem_pieces h
  · split at h
    next =>
      split_ifs at h with hBoth
      · obtain rfl | hSeg := List.mem_cons.1 h
        · exact shown_trim hBoth.1
        · exact List.mem_singleton.1 hSeg ▸ shown_trim hBoth.2.1
      · exact shown_of_mem_splitWeak hs h
    next => exact shown_of_mem_splitWeak hs h

/-! ### All passes -/

/-- Only white space goes when the headings are cut; of what is cut then only white space goes too,
and the anchors are in their normal form. No line is blank. -/
theorem unglued_text (lines : List Line) :
    squeeze (splitInlineQuestionHeading lines).flatten = squeeze lines.flatten ∧
    squeeze (ungluedApprovalLines lines).flatten =
      squeeze ((splitInlineQuestionHeading lines).map (normalizeAnchors false)).flatten ∧
    ∀ line ∈ ungluedApprovalLines lines, trim line ≠ [] := by
  refine ⟨squeeze_headings lines, ?_, fun line hLine => ?_⟩
  · rw [ungluedApprovalLines, squeeze_flatMap (g := id) fun line _ => squeeze_splitGluedNumberedLine line,
      List.map_id, squeeze_anchors]
  · obtain ⟨s, hs, hLine⟩ := List.mem_flatMap.1 hLine
    obtain ⟨t, ht, hs⟩ := List.mem_flatMap.1 hs
    obtain ⟨u, -, ht⟩ := List.mem_flatMap.1 ht
    exact shown_of_mem_splitGluedNumberedLine (shown_of_mem_expand (shown_of_mem_cutHeadings ht) hs) hLine

end ManyAiCli.Web.UngluedLines
