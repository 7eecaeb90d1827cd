import Mathlib.Data.List.Basic
import Mathlib.Data.Nat.Digits.Lemmas
import Mathlib.Order.Basic
import ManyAiCli.Text.Cut
import ManyAiCli.Text.Strings

/-! The review of a working tree. The Hub makes up the diff of a file that git does not know; the page
reads every diff into numbered hunks and shows them inline or side by side. Can the text of a file pass
for a hunk's header, and do both views show the same lines under the same numbers? -/

namespace ManyAiCli.Web.ReviewView

open Text

abbrev Line := List Char

/-- A text whose lines all end. -/
def endLines (lines : List Line) : Line := lines.flatMap (· ++ ['\n'])

/-! ### The diff of a new file -/

inductive Kind
  | add
  | del
  | metaLine
  | ctx
  deriving DecidableEq, Repr

structure DiffLine where
  t : Kind
  x : Line
  deriving DecidableEq, Repr

structure Hunk where
  header : Line
  oldStart : ℕ
  newStart : ℕ
  lines : List DiffLine
  deriving DecidableEq, Repr

def strip (p s : Line) : Option Line := if p <+: s then some (s.drop p.length) else none

/-- `(\d+)`. -/
def number (s : Line) : Option (ℕ × Line) :=
  let digits := s.takeWhile Char.isDigit
  if digits = [] then none else some (Nat.ofDigitChars 10 digits 0, s.dropWhile Char.isDigit)

/-- `(?:,\d+)?`. -/
def skipCount (s : Line) : Line :=
  match (strip [','] s).bind number with
  | some (_, rest) => rest
  | none => s

/-- `/^@@ -(\d+)(?:,\d+)? \+(\d+)(?:,\d+)? @@/`. -/
def hunkHeader (raw : Line) : Option (ℕ × ℕ) := do
  let s ← strip "@@ -".toList raw
  let (oldStart, s) ← number s
  let s ← strip " +".toList (skipCount s)
  let (newStart, s) ← number s
  let _ ← strip " @@".toList (skipCount s)
  some (oldStart, newStart)

def diffLine : Line → DiffLine
  | '+' :: x => ⟨.add, x⟩
  | '-' :: x => ⟨.del, x⟩
  | '\\' :: x => ⟨.metaLine, '\\' :: x⟩
  | raw => ⟨.ctx, raw.drop 1⟩

/-- The loop over the lines; the last hunk is the current one. -/
def parseLines : List Hunk → List Line → List Hunk
  | hunks, [] => hunks
  | hunks, raw :: lines =>
    match hunkHeader raw, hunks.getLast? with
    | some (oldStart, newStart), _ => parseLines (hunks ++ [⟨raw, oldStart, newStart, []⟩]) lines
    | none, none => parseLines hunks lines
    | none, some cur =>
      parseLines (hunks.dropLast ++ [{ cur with lines := cur.lines ++ [diffLine raw] }]) lines

def parseUnifiedDiff (text : Line) : List Hunk := parseLines [] (splitLines text)

/-! ### The two views -/

structure Cell where
  t : Kind
  ln : Option ℕ
  x : Line
  deriving DecidableEq, Repr

/-- A line of the inline view, with its old and its new number. -/
structure InlineRow where
  t : Kind
  lnOld : Option ℕ
  lnNew : Option ℕ
  x : Line
  deriving DecidableEq, Repr

/-- The rows of `renderHunkInline` from the numbers `o` and `n` on. -/
def inlineRows : ℕ → ℕ → List DiffLine → List InlineRow
  | _, _, [] => []
  | o, n, ⟨.ctx, x⟩ :: lines => ⟨.ctx, some o, some n, x⟩ :: inlineRows (o + 1) (n + 1) lines
  | o, n, ⟨.add, x⟩ :: lines => ⟨.add, none, some n, x⟩ :: inlineRows o (n + 1) lines
  | o, n, ⟨.del, x⟩ :: lines => ⟨.del, some o, none, x⟩ :: inlineRows (o + 1) n lines
  | o, n, ⟨.metaLine, x⟩ :: lines => ⟨.metaLine, none, none, x⟩ :: inlineRows o n lines

/-- The lines of one kind in front, numbered from `k` on, and the rest. -/
def block (t : Kind) (k : ℕ) (lines : List DiffLine) : List Cell × List DiffLine :=
  (((lines.takeWhile (·.t = t)).zipIdx k).map fun l => ⟨t, some l.2, l.1.x⟩, lines.dropWhile (·.t = t))

/-- `for (j < max) rows.push({ l: dels[j] || null, r: adds[j] || null })`. -/
def pairUp (dels adds : List Cell) : List (Option Cell × Option Cell) :=
  (List.range (max dels.length adds.length)).map fun j => (dels[j]?, adds[j]?)

theorem length_block_le (t : Kind) (k : ℕ) (lines : List DiffLine) : (block t k lines).2.length ≤ lines.length :=
  (List.dropWhile_suffix _).length_le

theorem length_block_lt {t : Kind} {l : DiffLine} (h : l.t = t) (k : ℕ) (lines : List DiffLine) :
    (block t k (l :: lines)).2.length < (l :: lines).length := by
  rw [block, List.dropWhile_cons_of_pos (by simpa using h), List.length_cons]
  exact Nat.lt_succ_of_le (List.dropWhile_suffix _).length_le

/-- A block of deleted lines and one of added lines take a line that is neither context nor a remark. -/
theorem length_blocks_lt {l : DiffLine} (hm : l.t ≠ .metaLine) (hc : l.t ≠ .ctx) (o n : ℕ) (lines : List DiffLine) :
    (block .add n (block .del o (l :: lines)).2).2.length < (l :: lines).length := by
  cases ht : l.t with
  | metaLine => exact absurd ht hm
  | ctx => exact absurd ht hc
  | del => exact (length_block_le ..).trans_lt (length_block_lt ht o lines)
  | add =>
    have hkept : (block .del o (l :: lines)).2 = l :: lines := by
      rw [block, List.dropWhile_cons_of_neg (by simp [ht])]
    rw [hkept]
    exact length_block_lt ht n lines

/-- The rows of `renderHunkSbs`. -/
def sbsRows (o n : ℕ) : List DiffLine → List (Option Cell × Option Cell)
  | [] => []
  | l :: lines =>
    if l.t = .metaLine then (some ⟨.metaLine, none, l.x⟩, some ⟨.metaLine, none, l.x⟩) :: sbsRows o n lines
    else if l.t = .ctx then
      (some ⟨.ctx, some o, l.x⟩, some ⟨.ctx, some n, l.x⟩) :: sbsRows (o + 1) (n + 1) lines
    else
      let dels := block .del o (l :: lines)
      let adds := block .add n dels.2
      pairUp dels.1 adds.1 ++ sbsRows (o + dels.1.length) (n + adds.1.length) adds.2
termination_by lines => lines.length
decreasing_by
  · exact Nat.lt_succ_self _
  · exact Nat.lt_succ_self _
  · exact length_blocks_lt ‹_› ‹_› o n lines

/-! ### What git writes -/

/-- The line of a diff. -/
def DiffLine.raw : DiffLine → Line
  | ⟨.add, x⟩ => '+' :: x
  | ⟨.del, x⟩ => '-' :: x
  | ⟨.ctx, x⟩ => ' ' :: x
  | ⟨.metaLine, x⟩ => x

/-- A line that git writes: it has no line end, and a remark begins with a backslash. -/
structure DiffLine.IsWritten (l : DiffLine) : Prop where
  oneLine : '\n' ∉ l.x
  remark : l.t = .metaLine → l.x.head? = some '\\'

/-- A hunk that git writes. -/
structure Hunk.IsWritten (h : Hunk) : Prop where
  header : hunkHeader h.header = some (h.oldStart, h.newStart)
  oneLine : '\n' ∉ h.header
  lines : ∀ l ∈ h.lines, l.IsWritten

def Hunk.rawLines (h : Hunk) : List Line := h.header :: h.lines.map DiffLine.raw

/-- A diff: lines about the file, and the hunks. -/
def renderDiff (about : List Line) (hunks : List Hunk) : Line := endLines (about ++ hunks.flatMap Hunk.rawLines)

/-- The line behind the last line end is read too. -/
def Hunk.closed (h : Hunk) : Hunk := { h with lines := h.lines ++ [⟨.ctx, []⟩] }

theorem hunkHeader_eq_none {raw : Line} (h : raw.head? ≠ some '@') : hunkHeader raw = none := by
  have hstrip : strip "@@ -".toList raw = none := by
    refine if_neg fun hp => h ?_
    obtain ⟨t, rfl⟩ := hp
    rfl
  rw [hunkHeader, hstrip]
  rfl

namespace DiffLine.IsWritten

variable {l : DiffLine}

theorem hunkHeader_raw (h : l.IsWritten) : hunkHeader l.raw = none := by
  refine hunkHeader_eq_none ?_
  obtain ⟨t, x⟩ := l
  cases t with
  | metaLine =>
    have hr : x.head? = some '\\' := h.remark rfl
    rw [raw, hr]
    decide
  | add => exact fun he => absurd (Option.some.inj he) (by decide)
  | del => exact fun he => absurd (Option.some.inj he) (by decide)
  | ctx => exact fun he => absurd (Option.some.inj he) (by decide)

theorem diffLine_raw (h : l.IsWritten) : diffLine l.raw = l := by
  obtain ⟨t, x⟩ := l
  cases t with
  | metaLine =>
    obtain ⟨y, hx⟩ : ∃ y, x = '\\' :: y := List.head?_eq_some_iff.1 (h.remark rfl)
    rw [raw, hx]
    rfl
  | add => rfl
  | del => rfl
  | ctx => rfl

theorem oneLine_raw (h : l.IsWritten) : '\n' ∉ l.raw := by
  have hx := h.oneLine
  obtain ⟨t, x⟩ := l
  cases t <;> simpa [raw] using hx

end DiffLine.IsWritten

theorem splitLines_endLines {lines : List Line} (h : ∀ l ∈ lines, '\n' ∉ l) :
    splitLines (endLines lines) = lines ++ [[]] := by
  rw [splitLines]
  induction lines with
  | nil => rfl
  | cons l lines ih =>
    obtain ⟨hl, hrest⟩ := List.forall_mem_cons.1 h
    have hone : ∀ c ∈ l, (c == '\n') = false := by
      intro c hc
      rw [beq_eq_false_iff_ne]
      rintro rfl
      exact hl hc
    have hsplit : endLines (l :: lines) = l ++ '\n' :: endLines lines := by
      rw [endLines, List.flatMap_cons, List.append_assoc, List.singleton_append, endLines]
    rw [hsplit, List.splitOn, List.splitOnP_append_cons (p := (· == '\n')) l _ rfl, List.splitOnP_eq_singleton hone,
      ← List.splitOn, ih hrest]
    rfl

theorem parseLines_about {about : List Line} (h : ∀ raw ∈ about, hunkHeader raw = none) (lines : List Line) :
    parseLines [] (about ++ lines) = parseLines [] lines := by
  induction about with
  | nil => rfl
  | cons raw about ih =>
    obtain ⟨hraw, hrest⟩ := List.forall_mem_cons.1 h
    rw [List.cons_append, parseLines, hraw]
    exact ih hrest

/-- Lines that are no header go to the current hunk. -/
theorem parseLines_lines {raws : List Line} (h : ∀ raw ∈ raws, hunkHeader raw = none) (hunks : List Hunk)
    (cur : Hunk) (lines : List Line) :
    parseLines (hunks ++ [cur]) (raws ++ lines) =
      parseLines (hunks ++ [{ cur with lines := cur.lines ++ raws.map diffLine }]) lines := by
  induction raws generalizing cur with
  | nil => simp
  | cons raw raws ih =>
    obtain ⟨hraw, hrest⟩ := List.forall_mem_cons.1 h
    have hlast : (hunks ++ [cur]).getLast? = some cur := by simp
    rw [List.cons_append, parseLines, hraw, hlast]
    dsimp only
    rw [List.dropLast_concat, ih hrest, List.append_assoc, List.map_cons, List.singleton_append]

theorem parseLines_hunk {h : Hunk} (hw : h.IsWritten) (hunks : List Hunk) (lines : List Line) :
    parseLines hunks (h.rawLines ++ lines) = parseLines (hunks ++ [h]) lines := by
  have hraws : ∀ raw ∈ h.lines.map DiffLine.raw, hunkHeader raw = none := by
    intro raw hraw
    obtain ⟨l, hl, rfl⟩ := List.mem_map.1 hraw
    exact (hw.lines l hl).hunkHeader_raw
  have hlines : (h.lines.map DiffLine.raw).map diffLine = h.lines := by
    rw [List.map_map]
    conv_rhs => rw [← List.map_id h.lines]
    exact List.map_congr_left fun l hl => (hw.lines l hl).diffLine_raw
  rw [Hunk.rawLines, List.cons_append, parseLines, hw.header]
  dsimp only
  rw [parseLines_lines hraws, hlines]
  rfl

theorem parseLines_hunks {hunks : List Hunk} (hw : ∀ h ∈ hunks, h.IsWritten) (first : List Hunk) (lines : List Line) :
    parseLines first (hunks.flatMap Hunk.rawLines ++ lines) = parseLines (first ++ hunks) lines := by
  induction hunks generalizing first with
  | nil => simp
  | cons h hunks ih =>
    obtain ⟨hh, hrest⟩ := List.forall_mem_cons.1 hw
    rw [List.flatMap_cons, List.append_assoc, parseLines_hunk hh, ih hrest, List.append_assoc, List.singleton_append]

/-- The hunks of a diff are read back, whatever their lines say; only the last one gets a line more. -/
theorem diff_read_back {about : List Line} {hunks : List Hunk} {last : Hunk}
    (habout : ∀ raw ∈ about, hunkHeader raw = none ∧ '\n' ∉ raw) (hw : ∀ h ∈ hunks ++ [last], h.IsWritten) :
    parseUnifiedDiff (renderDiff about (hunks ++ [last])) = hunks ++ [last.closed] := by
  have hone : ∀ l ∈ about ++ (hunks ++ [last]).flatMap Hunk.rawLines, '\n' ∉ l := by
    intro l hl
    rcases List.mem_append.1 hl with hl | hl
    · exact (habout l hl).2
    · obtain ⟨h, hh, hl⟩ := List.mem_flatMap.1 hl
      rcases List.mem_cons.1 hl with rfl | hl
      · exact (hw h hh).oneLine
      · obtain ⟨d, hd, rfl⟩ := List.mem_map.1 hl
        exact ((hw h hh).lines d hd).oneLine_raw
  have hblank : ∀ raw ∈ [([] : Line)], hunkHeader raw = none := fun raw hr =>
    hunkHeader_eq_none (by rw [List.mem_singleton.1 hr]; simp)
  rw [parseUnifiedDiff, renderDiff, splitLines_endLines hone, List.append_assoc,
    parseLines_about (fun raw hr => (habout raw hr).1), parseLines_hunks hw, List.nil_append,
    ← List.append_nil [([] : Line)], parseLines_lines hblank]
  rfl

theorem diff_read_back_header_text :
    parseUnifiedDiff (renderDiff ["--- a/x".toList] ([] ++ [⟨"@@ -1 +1 @@ f".toList, 1, 1,
        [⟨.del, "-".toList⟩, ⟨.add, "@@ -9 +9 @@".toList⟩]⟩])) =
      [] ++ [Hunk.closed ⟨"@@ -1 +1 @@ f".toList, 1, 1, [⟨.del, "-".toList⟩, ⟨.add, "@@ -9 +9 @@".toList⟩]⟩] := by
  refine diff_read_back (fun raw hr => ?_) fun h hh => ?_
  · rw [List.mem_singleton.1 hr]
    exact ⟨hunkHeader_eq_none (by decide), by decide⟩
  · rw [List.mem_singleton.1 hh]
    refine ⟨by decide, by decide, fun l hl => ?_⟩
    simp only [List.mem_cons, List.not_mem_nil, or_false] at hl
    rcases hl with rfl | rfl
    · exact ⟨by decide, by decide⟩
    · exact ⟨by decide, by decide⟩

/-! ### A new file -/

theorem strip_append (p s : Line) : strip p (p ++ s) = some s := by
  rw [strip, if_pos (List.prefix_append p s), List.drop_left]

/-- The lines of the old file are those that are not added, and the new file's those not deleted. -/
def DiffLine.isOld (l : DiffLine) : Bool := l.t = .ctx || l.t = .del

def DiffLine.isNew (l : DiffLine) : Bool := l.t = .ctx || l.t = .add

/-- What the inline view shows of the old file and its remarks. -/
def InlineRow.old (r : InlineRow) : Option Cell := if r.t = .add then none else some ⟨r.t, r.lnOld, r.x⟩

def InlineRow.new (r : InlineRow) : Option Cell := if r.t = .del then none else some ⟨r.t, r.lnNew, r.x⟩

def Cell.numbered (c : Cell) : Option (DiffLine × ℕ) := c.ln.map (⟨c.t, c.x⟩, ·)

theorem inlineRows_numbered (o n : ℕ) (lines : List DiffLine) :
    ((inlineRows o n lines).filterMap InlineRow.old).filterMap Cell.numbered =
        (lines.filter DiffLine.isOld).zipIdx o ∧
      ((inlineRows o n lines).filterMap InlineRow.new).filterMap Cell.numbered =
        (lines.filter DiffLine.isNew).zipIdx n := by
  induction lines generalizing o n with
  | nil => exact ⟨rfl, rfl⟩
  | cons l lines ih =>
    obtain ⟨t, x⟩ := l
    cases t with
    | add => exact ⟨(ih o (n + 1)).1, congrArg ((DiffLine.mk .add x, n) :: ·) (ih o (n + 1)).2⟩
    | del => exact ⟨congrArg ((DiffLine.mk .del x, o) :: ·) (ih (o + 1) n).1, (ih (o + 1) n).2⟩
    | metaLine => exact ih o n
    | ctx =>
      exact ⟨congrArg ((DiffLine.mk .ctx x, o) :: ·) (ih (o + 1) (n + 1)).1,
        congrArg ((DiffLine.mk .ctx x, n) :: ·) (ih (o + 1) (n + 1)).2⟩

theorem filterMap_range_getElem? {α : Type*} {l : List α} {m : ℕ} (h : l.length ≤ m) :
    (List.range m).filterMap (l[·]?) = l := by
  induction l generalizing m with
  | nil => simp
  | cons a l ih =>
    obtain ⟨k, rfl⟩ : ∃ k, m = k + 1 := Nat.exists_eq_add_one.2 (Nat.lt_of_lt_of_le (Nat.succ_pos _) h)
    rw [List.range_succ_eq_map, List.filterMap_cons_some (List.getElem?_cons_zero ..), List.filterMap_map]
    exact congrArg (a :: ·) (ih (Nat.le_of_succ_le_succ h))

theorem pairUp_sides (dels adds : List Cell) :
    (pairUp dels adds).filterMap Prod.fst = dels ∧ (pairUp dels adds).filterMap Prod.snd = adds := by
  rw [pairUp, List.filterMap_map, List.filterMap_map]
  exact ⟨filterMap_range_getElem? (Nat.le_max_left ..), filterMap_range_getElem? (Nat.le_max_right ..)⟩

/-- A block of deleted lines is on the old side only. -/
theorem inlineRows_dels (o n : ℕ) (lines : List DiffLine) :
    let dels := block .del o lines
    (inlineRows o n lines).filterMap InlineRow.old =
        dels.1 ++ (inlineRows (o + dels.1.length) n dels.2).filterMap InlineRow.old ∧
      (inlineRows o n lines).filterMap InlineRow.new =
        (inlineRows (o + dels.1.length) n dels.2).filterMap InlineRow.new := by
  induction lines generalizing o with
  | nil => exact ⟨rfl, rfl⟩
  | cons l lines ih =>
    by_cases ht : l.t = .del
    · obtain ⟨t, x⟩ := l
      obtain rfl : t = .del := ht
      obtain ⟨h1, h2⟩ := ih (o + 1)
      have hb : block .del o (⟨.del, x⟩ :: lines) =
          (⟨.del, some o, x⟩ :: (block .del (o + 1) lines).1, (block .del (o + 1) lines).2) := by
        simp [block]
      have hlen : o + ((block .del (o + 1) lines).1.length + 1) = o + 1 + (block .del (o + 1) lines).1.length := by
        omega
      rw [hb]
      dsimp only
      rw [List.length_cons, hlen]
      exact ⟨congrArg (Cell.mk .del (some o) x :: ·) h1, h2⟩
    · have hb : block .del o (l :: lines) = ([], l :: lines) := by simp [block, ht]
      rw [hb]
      exact ⟨rfl, rfl⟩

theorem inlineRows_adds (o n : ℕ) (lines : List DiffLine) :
    let adds := block .add n lines
    (inlineRows o n lines).filterMap InlineRow.old =
        (inlineRows o (n + adds.1.length) adds.2).filterMap InlineRow.old ∧
      (inlineRows o n lines).filterMap InlineRow.new =
        adds.1 ++ (inlineRows o (n + adds.1.length) adds.2).filterMap InlineRow.new := by
  induction lines generalizing n with
  | nil => exact ⟨rfl, rfl⟩
  | cons l lines ih =>
    by_cases ht : l.t = .add
    · obtain ⟨t, x⟩ := l
      obtain rfl : t = .add := ht
      obtain ⟨h1, h2⟩ := ih (n + 1)
      have hb : block .add n (⟨.add, x⟩ :: lines) =
          (⟨.add, some n, x⟩ :: (block .add (n + 1) lines).1, (block .add (n + 1) lines).2) := by
        simp [block]
      have hlen : n + ((block .add (n + 1) lines).1.length + 1) = n + 1 + (block .add (n + 1) lines).1.length := by
        omega
      rw [hb]
      dsimp only
      rw [List.length_cons, hlen]
      exact ⟨h1, congrArg (Cell.mk .add (some n) x :: ·) h2⟩
    · have hb : block .add n (l :: lines) = ([], l :: lines) := by simp [block, ht]
      rw [hb]
      exact ⟨rfl, rfl⟩

theorem sbsRows_sides (o n : ℕ) (lines : List DiffLine) :
    (sbsRows o n lines).filterMap Prod.fst = (inlineRows o n lines).filterMap InlineRow.old ∧
      (sbsRows o n lines).filterMap Prod.snd = (inlineRows o n lines).filterMap InlineRow.new := by
  fun_induction sbsRows o n lines with
  | case1 => exact ⟨rfl, rfl⟩
  | case2 o n l lines ht ih =>
    obtain ⟨t, x⟩ := l
    obtain rfl : t = .metaLine := ht
    exact ⟨congrArg (Cell.mk .metaLine none x :: ·) ih.1, congrArg (Cell.mk .metaLine none x :: ·) ih.2⟩
  | case3 o n l lines hm ht ih =>
    obtain ⟨t, x⟩ := l
    obtain rfl : t = .ctx := ht
    exact ⟨congrArg (Cell.mk .ctx (some o) x :: ·) ih.1, congrArg (Cell.mk .ctx (some n) x :: ·) ih.2⟩
  | case4 o n l lines hm hc dels adds ih =>
    obtain ⟨hleft, hright⟩ := pairUp_sides dels.1 adds.1
    obtain ⟨hdOld, hdNew⟩ := inlineRows_dels o n (l :: lines)
    obtain ⟨haOld, haNew⟩ := inlineRows_adds (o + dels.1.length) n dels.2
    rw [List.filterMap_append, List.filterMap_append, hleft, hright, ih.1, ih.2]
    exact ⟨(hdOld.trans (congrArg (dels.1 ++ ·) haOld)).symm, (hdNew.trans haNew).symm⟩

/-- Side by side and inline show the same lines of the old file and of the new one, in the same order
under the same numbers, and these count up without a gap from where the hunk begins. -/
theorem views_agree (h : Hunk) :
    let sbs := sbsRows h.oldStart h.newStart h.lines
    let inline := inlineRows h.oldStart h.newStart h.lines
    sbs.filterMap Prod.fst = inline.filterMap InlineRow.old ∧
      sbs.filterMap Prod.snd = inline.filterMap InlineRow.new ∧
      (sbs.filterMap Prod.fst).filterMap Cell.numbered = (h.lines.filter DiffLine.isOld).zipIdx h.oldStart ∧
      (sbs.filterMap Prod.snd).filterMap Cell.numbered = (h.lines.filter DiffLine.isNew).zipIdx h.newStart := by
  obtain ⟨hleft, hright⟩ := sbsRows_sides h.oldStart h.newStart h.lines
  obtain ⟨hold, hnew⟩ := inlineRows_numbered h.oldStart h.newStart h.lines
  exact ⟨hleft, hright, hleft ▸ hold, hright ▸ hnew⟩

end ManyAiCli.Web.ReviewView
