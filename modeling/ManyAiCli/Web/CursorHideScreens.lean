import Mathlib.Data.List.TakeWhile
import ManyAiCli.Web.CursorHideFilter

/-! What the filter of cursor-hide blocks takes out of a stream, and on which screen a terminal is that
reads what is left. The filter knows on which screen the stream is at the end of a block; a block that
leaves the alternate screen is thrown away with the switch in it. -/

namespace ManyAiCli.Web.CursorHideFilter

open Runs HubMarkerFilter

/-! ### The screen of a terminal -/

def switches : List Bytes := [altScreenEnterSeq, altScreenExitSeq]

/-- With the last byte in front. -/
def screenOf : Bytes → Bool
  | [] => false
  | b :: bs =>
    if altScreenEnterSeq.reverse <+: b :: bs then true
    else if altScreenExitSeq.reverse <+: b :: bs then false
    else screenOf bs

/-- The last switch that a terminal has read is to the alternate screen. -/
def onAlternate (bytes : Bytes) : Bool := screenOf bytes.reverse

theorem onAlternate_concat (s : Bytes) (b : UInt8) : onAlternate (s ++ [b]) =
    if altScreenEnterSeq <:+ s ++ [b] then true
    else if altScreenExitSeq <:+ s ++ [b] then false
    else onAlternate s := by
  have hRev : (s ++ [b]).reverse = b :: s.reverse := by rw [List.reverse_append]; rfl
  have hEnd (q : Bytes) : q.reverse <+: b :: s.reverse ↔ q <:+ s ++ [b] := by
    rw [← hRev, List.reverse_prefix]
  simp only [onAlternate, hRev, screenOf, hEnd]

/-- Where no switch is complete, the screen stays. -/
theorem onAlternate_append {s t : Bytes}
    (h : ∀ x b, x ++ [b] <+: t → ∀ q ∈ switches, ¬ q <:+ s ++ (x ++ [b])) :
      onAlternate (s ++ t) = onAlternate s := by
  induction t using List.reverseRecOn with
  | nil => rw [List.append_nil]
  | append_singleton t b ih =>
    have hLast := h t b (List.prefix_refl _)
    rw [← List.append_assoc] at hLast
    rw [← List.append_assoc, onAlternate_concat, if_neg (hLast _ (by decide)), if_neg (hLast _ (by decide))]
    exact ih fun x c hx => h x c (hx.trans (List.prefix_append t [b]))

/-- Who was on the alternate screen and is not has read the switch. -/
theorem exists_exit {s t : Bytes} (hs : onAlternate s = true) (ht : onAlternate (s ++ t) = false) :
    ∃ x b, x ++ [b] <+: t ∧ altScreenExitSeq <:+ s ++ (x ++ [b]) ∧ onAlternate (s ++ x) = true := by
  induction t using List.reverseRecOn with
  | nil =>
    rw [List.append_nil, hs] at ht
    exact absurd ht.symm Bool.false_ne_true
  | append_singleton t b ih =>
    cases hBefore : onAlternate (s ++ t) with
    | false =>
      obtain ⟨x, c, hx, hExit, hOn⟩ := ih hBefore
      exact ⟨x, c, hx.trans (List.prefix_append t [b]), hExit, hOn⟩
    | true =>
      refine ⟨t, b, List.prefix_refl _, ?_, hBefore⟩
      rw [← List.append_assoc, onAlternate_concat, hBefore] at ht
      rw [← List.append_assoc]
      by_contra hNot
      rw [if_neg hNot] at ht
      split_ifs at ht

/-! ### What is kept of a stream and what is dropped -/

inductive Piece
  | kept (b : UInt8)
  | dropped (block : Bytes)
  deriving DecidableEq

def Piece.input : Piece → Bytes
  | .kept b => [b]
  | .dropped block => block

def Piece.output : Piece → Bytes
  | .kept b => [b]
  | .dropped _ => []

/-- A discarded block is one with both its ends. -/
def Emit.piece? : Emit → Option Piece
  | .byte b => some (.kept b)
  | .event e =>
    if e.kind = .filterDiscard then some (.dropped (hideCursorSeq ++ e.blockBuf ++ showCursorSeq)) else none

/-- The chunks one after another. -/
def filterAll : CursorHideFilterState → List Bytes → Bytes × CursorHideFilterState
  | state, [] => ([], state)
  | state, chunk :: chunks =>
    let filtered := filterCursorHideBlocksPure chunk state
    let (out, last) := filterAll filtered.state chunks
    (filtered.out ++ out, last)

/-- The bytes and the events of all chunks. -/
def emitted : CursorHideFilterState → List Bytes → List Emit
  | _, [] => []
  | state, chunk :: chunks =>
    (loop.run state.toVars (state.carry ++ chunk)).2.1 ++
      emitted (filterCursorHideBlocksPure chunk state).state chunks

def pieces (chunks : List Bytes) : List Piece := (emitted {} chunks).filterMap Emit.piece?

/-- What has been read of a block that is still open. -/
def Vars.pending (v : Vars) : Bytes := if v.inBlock then hideCursorSeq ++ v.blockBuf else []

/-- `ESC [ row ; col H`. -/
def IsPosition (bytes : Bytes) : Prop :=
  ∃ row col : Bytes, row ≠ [] ∧ col ≠ [] ∧ (∀ b ∈ row ++ col, 0x30 ≤ b ∧ b ≤ 0x39) ∧
    bytes = 0x1B :: 0x5B :: (row ++ 0x3B :: (col ++ [0x48]))

/-- From where the cursor is hidden to where it is next shown, with a cursor position and without a line
feed. -/
structure IsRedraw (block : Bytes) : Prop where
  whole : ∃ body, block = hideCursorSeq ++ body ++ showCursorSeq ∧
    ∀ x y, body ++ showCursorSeq = x ++ showCursorSeq ++ y → y = []
  position : ∃ bytes, IsPosition bytes ∧ bytes <:+: block
  oneLine : 0x0A ∉ block

/-- All of the stream, a block and what was before it, is read on the main screen. -/
def OnMain (before block : Bytes) : Prop := ∀ x, x <+: block → onAlternate (before ++ x) = false

/-- Nothing is lost but status redraws on the main screen, and who reads the output is on the same screen
as who reads the stream. -/
structure Faithful (chunks : List Bytes) : Prop where
  input : (pieces chunks).flatMap Piece.input ++
    ((filterAll {} chunks).2.pending ++ (filterAll {} chunks).2.carry) = chunks.flatten
  output : (pieces chunks).flatMap Piece.output = (filterAll {} chunks).1
  redraws : ∀ ps₁ block ps₂, pieces chunks = ps₁ ++ .dropped block :: ps₂ →
    IsRedraw block ∧ OnMain (ps₁.flatMap Piece.input) block
  screens : ∀ ps₁ ps₂, pieces chunks = ps₁ ++ ps₂ →
    onAlternate (ps₁.flatMap Piece.output) = onAlternate (ps₁.flatMap Piece.input)

/-- In the block a terminal on the alternate screen reads the switch to the main screen. -/
def LeavesAlternate (before block : Bytes) : Prop :=
  ∃ x b, x ++ [b] <+: block ∧ altScreenExitSeq <:+ before ++ (x ++ [b]) ∧ onAlternate (before ++ x) = true

/-- No discarded block leaves the alternate screen, and around none the bytes join to the switch to it. -/
structure Separates (chunks : List Bytes) : Prop where
  stays : ∀ ps₁ block ps₂, pieces chunks = ps₁ ++ .dropped block :: ps₂ →
    ¬ LeavesAlternate (ps₁.flatMap Piece.input) block
  apart : ∀ ps₁ b ps₂, pieces chunks = ps₁ ++ .kept b :: ps₂ →
    altScreenEnterSeq <:+ ps₁.flatMap Piece.output ++ [b] → altScreenEnterSeq <:+ ps₁.flatMap Piece.input ++ [b]

/-! ### Reading by tokens -/

/-- Bytes of which only the first may be an escape. -/
def IsToken (c : Bytes) : Prop := ∃ b cs, c = b :: cs ∧ 0x1B ∉ cs

theorem isToken_sequence : ∀ q ∈ sequences, IsToken q := by
  simp only [sequences, List.forall_mem_cons, List.not_mem_nil, false_implies, implies_true, and_true]
  exact ⟨⟨_, _, rfl, by decide⟩, ⟨_, _, rfl, by decide⟩, ⟨_, _, rfl, by decide⟩, ⟨_, _, rfl, by decide⟩⟩

theorem head_sequence : ∀ q ∈ sequences, ∃ tail, q = 0x1B :: tail := by
  simp only [sequences, List.forall_mem_cons, List.not_mem_nil, false_implies, implies_true, and_true]
  exact ⟨⟨_, rfl⟩, ⟨_, rfl⟩, ⟨_, rfl⟩, ⟨_, rfl⟩⟩

theorem mem_sequences_of_switches {q : Bytes} (hq : q ∈ switches) : q ∈ sequences := by
  simp only [switches, List.mem_cons, List.not_mem_nil, or_false] at hq
  rcases hq with rfl | rfl <;> decide

variable {s t c read rest pattern : Bytes}

/-- An end of a text with a token behind it: it begins before the token, is the token, or begins within. -/
theorem suffix_token_cases (hc : IsToken c) (ht : t <:+ s ++ c) (hne : t ≠ []) :
    (∃ t', t' ≠ [] ∧ t' <:+ s ∧ t = t' ++ c) ∨ t = c ∨ ∃ d ds, t = d :: ds ∧ d ≠ 0x1B := by
  rcases List.suffix_or_suffix_of_suffix ht (List.suffix_append s c) with hIn | ⟨t', rfl⟩
  · obtain ⟨b, cs, rfl, hNot⟩ := hc
    rcases List.suffix_cons_iff.1 hIn with rfl | hTail
    · exact .inr (.inl rfl)
    · obtain ⟨d, ds, rfl⟩ := List.exists_cons_of_ne_nil hne
      refine .inr (.inr ⟨d, ds, rfl, ?_⟩)
      rintro rfl
      exact hNot (hTail.subset (List.mem_cons_self ..))
  · by_cases hNil : t' = []
    · exact .inr (.inl (by rw [hNil, List.nil_append]))
    · obtain ⟨z, hz⟩ := ht
      rw [← List.append_assoc] at hz
      exact .inl ⟨t', hNil, ⟨z, List.append_cancel_right hz⟩, rfl⟩

/-- No sequence begins with anything but an escape. -/
theorem not_prefix_of_ne_escape {d : UInt8} {ds : Bytes} (hp : pattern ∈ sequences) (hd : d ≠ 0x1B) :
    ¬ pattern <+: d :: ds := by
  obtain ⟨tail, rfl⟩ := head_sequence pattern hp
  exact fun h => hd (List.cons_prefix_cons.1 h).1.symm

/-- A pattern that has begun in what is read is complete in it, whatever comes. -/
def Settled (patterns : List Bytes) (read rest : Bytes) : Prop :=
  ∀ t, t ≠ [] → t <:+ read → ∀ q ∈ patterns, ∀ ys, q <+: t ++ (rest ++ ys) → q <+: t

/-- The next token is one of the patterns or begins none, whatever comes. -/
def Alone (patterns : List Bytes) (c rest : Bytes) : Prop :=
  IsToken c ∧ ∀ q ∈ patterns, ∀ ys, q <+: c ++ (rest ++ ys) → q = c

variable {patterns : List Bytes}

theorem Settled.append (hp : ∀ q ∈ patterns, q ∈ sequences) (h : Settled patterns read (c ++ rest))
    (hc : Alone patterns c rest) : Settled patterns (read ++ c) rest := by
  intro t hne ht q hq ys hPre
  rcases suffix_token_cases hc.1 ht hne with ⟨t', hne', ht', rfl⟩ | rfl | ⟨d, ds, rfl, hd⟩
  · rw [List.append_assoc, ← List.append_assoc c] at hPre
    exact (h t' hne' ht' q hq ys hPre).trans (List.prefix_append t' c)
  · obtain rfl := hc.2 q hq ys hPre
    exact List.prefix_refl _
  · exact absurd hPre (not_prefix_of_ne_escape (hp q hq) hd)

/-- With the token, no pattern is completed but the token. -/
theorem Settled.completes (hp : ∀ q ∈ patterns, q ∈ sequences) (h : Settled patterns read (c ++ rest))
    (hc : Alone patterns c rest) {q x : Bytes} {b : UInt8} (hq : q ∈ patterns) (hx : x ++ [b] <+: c)
    (hEnd : q <:+ read ++ (x ++ [b])) : q = c ∧ x ++ [b] = c := by
  obtain ⟨w, hw⟩ := hx
  have hWhole {z : Bytes} (hz : z = x ++ [b]) (hqz : q <:+ z) : q = c ∧ x ++ [b] = c := by
    obtain ⟨y, rfl⟩ := hqz
    cases y with
    | nil =>
      rw [List.nil_append] at hz
      have hEq : q = c := hc.2 q hq [] ⟨w ++ rest, by rw [hz, ← hw]; simp⟩
      exact ⟨hEq, hz ▸ hEq⟩
    | cons e y =>
      obtain ⟨d, ds, hcd, hNot⟩ := hc.1
      obtain ⟨tail, rfl⟩ := head_sequence q (hp q hq)
      rw [← hw, ← hz, List.cons_append, List.cons_append] at hcd
      refine absurd ?_ hNot
      rw [← (List.cons.inj hcd).2]
      simp
  rcases List.suffix_or_suffix_of_suffix hEnd (List.suffix_append read (x ++ [b])) with hIn | ⟨t, rfl⟩
  · exact hWhole rfl hIn
  · by_cases hNil : t = []
    · refine hWhole rfl ?_
      rw [hNil]
      exact List.suffix_refl _
    · obtain ⟨z, hz⟩ := hEnd
      rw [← List.append_assoc] at hz
      have hRead : t <:+ read := ⟨z, List.append_cancel_right hz⟩
      have hPre : t ++ (x ++ [b]) <+: t ++ (c ++ rest ++ []) := ⟨w ++ rest, by rw [← hw]; simp⟩
      have hLen := (h t hNil hRead _ hq [] hPre).length_le
      simp only [List.length_append, List.length_singleton] at hLen
      omega

theorem switches_subset : ∀ q ∈ switches, q ∈ sequences := fun _ => mem_sequences_of_switches

/-- After a token the screen is the one it switches to, or the same. -/
theorem onAlternate_token (h : Settled switches read (c ++ rest)) (hc : Alone switches c rest) :
    onAlternate (read ++ c) =
      if c = altScreenEnterSeq then true else if c = altScreenExitSeq then false else onAlternate read := by
  have hDone {q x : Bytes} {b : UInt8} := h.completes switches_subset hc (q := q) (x := x) (b := b)
  by_cases hSwitch : c ∈ switches
  · obtain ⟨x, b, hx⟩ : ∃ x b, c = x ++ [b] := by
      obtain ⟨d, ds, rfl, -⟩ := hc.1
      exact ⟨_, _, (List.dropLast_append_getLast (List.cons_ne_nil d ds)).symm⟩
    have hAll : x ++ [b] <+: c := hx ▸ List.prefix_refl _
    have hOwn : c <:+ read ++ (x ++ [b]) := hx ▸ List.suffix_append read c
    rw [hx, ← List.append_assoc, onAlternate_concat, List.append_assoc, ← hx]
    simp only [switches, List.mem_cons, List.not_mem_nil, or_false] at hSwitch
    rcases hSwitch with rfl | rfl
    · rw [if_pos (hx ▸ hOwn), if_pos rfl]
    · have hEnter : ¬ altScreenEnterSeq <:+ read ++ altScreenExitSeq := by
        intro hEnd
        exact absurd (hDone (by decide) hAll (hx ▸ hEnd)).1 (by decide)
      rw [if_neg hEnter, if_pos (hx ▸ hOwn), if_neg (by decide), if_pos rfl]
  · have hNot : c ≠ altScreenEnterSeq ∧ c ≠ altScreenExitSeq := by
      simpa [switches] using hSwitch
    rw [if_neg hNot.1, if_neg hNot.2]
    exact onAlternate_append fun x b hx q hq hEnd => hSwitch ((hDone hq hx hEnd).1 ▸ hq)

/-! ### What joins around a dropped block -/

variable {ps : List Piece} {q x : Bytes} {b : UInt8}

theorem last_switch (hq : q ∈ switches) (h : q <:+ s ++ [b]) : b = 0x68 ∧ q = altScreenEnterSeq ∨
    b = 0x6C ∧ q = altScreenExitSeq := by
  obtain ⟨z, hz⟩ := h
  simp only [switches, List.mem_cons, List.not_mem_nil, or_false] at hq
  have hLast := congrArg List.getLast? hz
  rw [List.getLast?_concat] at hLast
  rcases hq with rfl | rfl
  · rw [List.getLast?_append_of_ne_nil _ (by decide)] at hLast
    exact .inl ⟨(Option.some_inj.1 hLast).symm, rfl⟩
  · rw [List.getLast?_append_of_ne_nil _ (by decide)] at hLast
    exact .inr ⟨(Option.some_inj.1 hLast).symm, rfl⟩

/-- The inner bytes of a switch complete none. -/
theorem onAlternate_inner (hq : q ∈ switches) (hb : b ∈ q.dropLast) :
    onAlternate (s ++ [b]) = onAlternate s := by
  have hInner : b ≠ 0x68 ∧ b ≠ 0x6C := by
    simp only [switches, List.mem_cons, List.not_mem_nil, or_false] at hq
    rcases hq with rfl | rfl <;> constructor <;> rintro rfl <;> exact absurd hb (by decide)
  rw [onAlternate_concat, if_neg fun h => ?_, if_neg fun h => ?_]
  · rcases last_switch (by decide) h with ⟨hEq, -⟩ | ⟨hEq, -⟩
    · exact hInner.1 hEq
    · exact hInner.2 hEq
  · rcases last_switch (by decide) h with ⟨hEq, -⟩ | ⟨hEq, -⟩
    · exact hInner.1 hEq
    · exact hInner.2 hEq

/-- Every dropped block is a redraw and ends on the main screen. -/
def EndsOnMain (ps : List Piece) : Prop := ∀ ps₁ block ps₂, ps = ps₁ ++ .dropped block :: ps₂ →
  IsRedraw block ∧ onAlternate (ps₁.flatMap Piece.input ++ block) = false

theorem EndsOnMain.of_append {ps' : List Piece} (h : EndsOnMain (ps ++ ps')) : EndsOnMain ps :=
  fun ps₁ block ps₂ hps => h ps₁ block (ps₂ ++ ps') (by rw [hps, List.append_assoc, List.cons_append])

theorem flatMap_concat (f : Piece → Bytes) (p : Piece) : (ps ++ [p]).flatMap f = ps.flatMap f ++ f p := by
  rw [List.flatMap_append, List.flatMap_singleton]

/-- A switch that has begun in the output but not in the stream goes on behind a dropped block, where the
stream is on the main screen. -/
theorem onMain_of_joined (h : EndsOnMain ps) (hq : q ∈ switches) (hx : x <+: q.dropLast)
    (hOut : x <:+ ps.flatMap Piece.output) (hIn : ¬ x <:+ ps.flatMap Piece.input) :
    onAlternate (ps.flatMap Piece.input) = false := by
  induction ps using List.reverseRecOn generalizing x with
  | nil => exact absurd hOut hIn
  | append_singleton ps p ih =>
    rw [flatMap_concat] at hOut hIn ⊢
    cases p with
    | dropped block => exact (h ps block [] rfl).2
    | kept b =>
      rcases List.suffix_concat_iff.1 hOut with rfl | ⟨y, rfl, hOut'⟩
      · exact absurd (List.nil_suffix) hIn
      · have hb : b ∈ q.dropLast := hx.subset (List.mem_append_right y (List.mem_singleton_self b))
        have hNot : ¬ y <:+ ps.flatMap Piece.input := fun hIn' =>
          hIn (List.suffix_concat_iff.2 (.inr ⟨y, rfl, hIn'⟩))
        exact (onAlternate_inner hq hb).trans
          (ih h.of_append ((List.prefix_append y [b]).trans hx) hOut' hNot)

/-- A switch that has begun in the stream has begun in the output. -/
theorem suffix_output (h : EndsOnMain ps) (hq : q ∈ switches) (hx : x <+: q.dropLast)
    (hIn : x <:+ ps.flatMap Piece.input) : x <:+ ps.flatMap Piece.output := by
  induction ps using List.reverseRecOn generalizing x with
  | nil => exact hIn
  | append_singleton ps p ih =>
    rw [flatMap_concat] at hIn ⊢
    cases p with
    | dropped block =>
      obtain ⟨body, hBody, -⟩ := (h ps block [] rfl).1.whole
      have hShow : showCursorSeq = showCursorSeq.dropLast ++ [0x68] := by decide
      rw [Piece.input, hBody, hShow, ← List.append_assoc, ← List.append_assoc] at hIn
      rcases List.suffix_concat_iff.1 hIn with rfl | ⟨y, rfl, -⟩
      · exact List.nil_suffix
      · refine absurd (hx.subset (List.mem_append_right y (List.mem_singleton_self _))) ?_
        simp only [switches, List.mem_cons, List.not_mem_nil, or_false] at hq
        rcases hq with rfl | rfl <;> decide
    | kept b =>
      rcases List.suffix_concat_iff.1 hIn with rfl | ⟨y, rfl, hIn'⟩
      · exact List.nil_suffix
      · exact List.suffix_concat_iff.2
          (.inr ⟨y, rfl, ih h.of_append ((List.prefix_append y [b]).trans hx) hIn'⟩)

/-- A switch that the stream completes is completed in the output. -/
theorem suffix_output_concat (h : EndsOnMain ps) (hq : q ∈ switches)
    (hIn : q <:+ ps.flatMap Piece.input ++ [b]) : q <:+ ps.flatMap Piece.output ++ [b] := by
  have hNe : q ≠ [] := by
    simp only [switches, List.mem_cons, List.not_mem_nil, or_false] at hq
    rcases hq with rfl | rfl <;> decide
  rcases List.suffix_concat_iff.1 hIn with hNil | ⟨x, rfl, hx⟩
  · exact absurd hNil hNe
  · refine List.suffix_concat_iff.2 (.inr ⟨x, rfl, suffix_output h hq ?_ hx⟩)
    rw [List.dropLast_concat]

/-- One that only the output completes finds the stream on the main screen. -/
theorem onMain_of_completed (h : EndsOnMain ps) (hq : q ∈ switches)
    (hOut : q <:+ ps.flatMap Piece.output ++ [b])
    (hIn : ¬ q <:+ ps.flatMap Piece.input ++ [b]) : onAlternate (ps.flatMap Piece.input) = false := by
  rcases List.suffix_concat_iff.1 hOut with rfl | ⟨x, rfl, hx⟩
  · exact absurd List.nil_suffix hIn
  · refine onMain_of_joined h hq (x := x) (by rw [List.dropLast_concat]) hx fun hx' => ?_
    exact hIn (List.suffix_concat_iff.2 (.inr ⟨x, rfl, hx'⟩))

/-- The screens agree at every place if no switch is joined in the output, and no block is dropped on the
alternate screen. -/
theorem screens_agree (h : EndsOnMain ps)
    (hMain : ∀ ps₁ block ps₂, ps = ps₁ ++ .dropped block :: ps₂ → onAlternate (ps₁.flatMap Piece.input) = false)
    (hApart : ∀ ps₁ b ps₂, ps = ps₁ ++ .kept b :: ps₂ → altScreenEnterSeq <:+ ps₁.flatMap Piece.output ++ [b] →
      altScreenEnterSeq <:+ ps₁.flatMap Piece.input ++ [b]) :
    onAlternate (ps.flatMap Piece.output) = onAlternate (ps.flatMap Piece.input) := by
  induction ps using List.reverseRecOn with
  | nil => rfl
  | append_singleton ps p ih =>
    have hMore {ps₁ ps₂ : List Piece} {p' : Piece} (hps : ps = ps₁ ++ p' :: ps₂) :
        ps ++ [p] = ps₁ ++ p' :: (ps₂ ++ [p]) := by rw [hps, List.append_assoc, List.cons_append]
    have hSame := ih h.of_append (fun ps₁ block ps₂ hps => hMain ps₁ block _ (hMore hps))
      fun ps₁ b ps₂ hps => hApart ps₁ b _ (hMore hps)
    rw [flatMap_concat, flatMap_concat]
    cases p with
    | dropped block =>
      have hBefore := hMain ps block [] rfl
      have hAfter := (h ps block [] rfl).2
      rw [Piece.output, Piece.input, List.append_nil, hAfter, hSame, hBefore]
    | kept b =>
      have hEnter := hApart ps b [] rfl
      rw [Piece.output, Piece.input, onAlternate_concat, onAlternate_concat]
      by_cases hOut : altScreenEnterSeq <:+ ps.flatMap Piece.output ++ [b]
      · rw [if_pos hOut, if_pos (hEnter hOut)]
      · have hIn : ¬ altScreenEnterSeq <:+ ps.flatMap Piece.input ++ [b] := fun hIn =>
          hOut (suffix_output_concat h.of_append (by decide) hIn)
        rw [if_neg hOut, if_neg hIn]
        by_cases hExit : altScreenExitSeq <:+ ps.flatMap Piece.input ++ [b]
        · rw [if_pos hExit, if_pos (suffix_output_concat h.of_append (by decide) hExit)]
        · rw [if_neg hExit]
          split_ifs with hJoined
          · exact (onMain_of_completed h.of_append (by decide) hJoined hExit).symm
          · exact hSame

theorem Faithful.separates {chunks : List Bytes} (hEnds : EndsOnMain (pieces chunks)) (h : Faithful chunks) :
    Separates chunks where
  stays := by
    rintro ps₁ block ps₂ hps ⟨x, b, hx, -, hOn⟩
    have hMain := (h.redraws ps₁ block ps₂ hps).2 x ((List.prefix_append x [b]).trans hx)
    exact Bool.false_ne_true (hMain.symm.trans hOn)
  apart := by
    intro ps₁ b ps₂ hps hOut
    by_contra hIn
    rw [hps] at hEnds
    have hEnds₁ : EndsOnMain ps₁ := hEnds.of_append
    have hScreens := h.screens (ps₁ ++ [.kept b]) ps₂ (by rw [hps, List.append_assoc, List.singleton_append])
    have hExit : ¬ altScreenExitSeq <:+ ps₁.flatMap Piece.input ++ [b] := by
      intro hExit
      rcases last_switch (by decide) hOut with ⟨rfl, -⟩ | ⟨-, hEq⟩
      · rcases last_switch (by decide) hExit with ⟨-, hEq⟩ | ⟨hEq, -⟩
        · exact absurd hEq (by decide)
        · exact absurd hEq (by decide)
      · exact absurd hEq (by decide)
    rw [flatMap_concat, flatMap_concat, Piece.output, Piece.input, onAlternate_concat, if_pos hOut,
      onAlternate_concat, if_neg hIn, if_neg hExit, onMain_of_completed hEnds₁ (by decide) hOut hIn] at hScreens
    exact Bool.false_ne_true hScreens.symm

/-- A block that ends on the main screen and does not leave the alternate one is all on the main one. -/
theorem onMain_of_stays {before block : Bytes} (hEnd : onAlternate (before ++ block) = false)
    (h : ¬ LeavesAlternate before block) : OnMain before block := by
  rintro x ⟨y, rfl⟩
  by_contra hOn
  rw [Bool.not_eq_false] at hOn
  rw [← List.append_assoc] at hEnd
  obtain ⟨z, b, hz, hExit, hOn'⟩ := exists_exit hOn hEnd
  refine h ⟨x ++ z, b, ?_, ?_, ?_⟩
  · rw [List.append_assoc]
    exact (List.prefix_append_right_inj x).2 hz
  · rwa [List.append_assoc, ← List.append_assoc before]
  · rwa [← List.append_assoc]

/-! ### What a turn does -/

variable {v v' : Vars} {bytes : Bytes} {out : List Emit}

/-- The screen after a token. -/
def Vars.screenAfter (v : Vars) (c : Bytes) : Bool :=
  if c = altScreenEnterSeq then true else if c = altScreenExitSeq then false else v.altScreen

/-- A turn reads a token, or gives a block up and reads nothing. -/
inductive Turned (v : Vars) : Bytes → Vars → List Emit → Bytes → Prop
  | plain {c rest : Bytes} (hv : v.inBlock = false) (hc : Alone switches c rest) :
    Turned v (c ++ rest) { v with altScreen := v.screenAfter c } (c.map .byte) rest
  | hides {rest : Bytes} (hv : v.inBlock = false) :
    Turned v (hideCursorSeq ++ rest) { v.leave with inBlock := true } [] rest
  | overflows {rest : Bytes} (hv : v.inBlock = true) :
    Turned v rest v.leave (v.event .blockPassthroughOverflow :: v.replay []) rest
  | shows {rest : Bytes} {kind : CursorHideEventKind} (hv : v.inBlock = true) (hkind : kind ≠ .filterDiscard) :
    Turned v (showCursorSeq ++ rest) v.leave (v.event kind :: v.replay showCursorSeq) rest
  | discards {rest : Bytes} (hv : v.inBlock = true) (hpos : v.hasAbsPos = true) (hmain : v.altScreen = false) :
    Turned v (showCursorSeq ++ rest) v.leave [v.event .filterDiscard] rest
  | gathers {c rest : Bytes} {hasAbsPos : Bool} (hv : v.inBlock = true)
    (hc : Alone [showCursorSeq, altScreenEnterSeq, altScreenExitSeq] c rest) (hshow : c ≠ showCursorSeq)
    (hline : 0x0A ∉ c) (hpos : hasAbsPos = true → v.hasAbsPos = true ∨ IsPosition c) :
    Turned v (c ++ rest) { v.push c with altScreen := v.screenAfter c, hasAbsPos := hasAbsPos } [] rest
  | breaks {rest : Bytes} (hv : v.inBlock = true) (hc : Alone switches [0x0A] rest) :
    Turned v ([0x0A] ++ rest) v.leave
      ({ v.push [0x0A] with hasNewline := true }.event .blockPassthroughLf :: (v.push [0x0A]).replay []) rest

theorem alone_sequence (hc : c ∈ sequences) (hp : ∀ q ∈ patterns, q ∈ sequences) : Alone patterns c rest := by
  refine ⟨isToken_sequence c hc, fun q hq ys hPre => ?_⟩
  rcases List.prefix_or_prefix_of_prefix hPre (List.prefix_append c (rest ++ ys)) with h | h
  · exact sequence_unique q (hp q hq) c hc (List.isPrefixOf_iff_prefix.2 h)
  · exact (sequence_unique c hc q (hp q hq) (List.isPrefixOf_iff_prefix.2 h)).symm

/-- What begins none of the sequences that are looked for. -/
theorem alone_other {sought : List Bytes} (hc : IsToken c)
    (hmaybe : isPossiblePrefix (c ++ rest) sought = false)
    (hnone : ∀ q ∈ sought, bytesStartWith (c ++ rest) q = false) (hp : ∀ q ∈ patterns, q ∈ sought) :
    Alone patterns c rest := by
  refine ⟨hc, fun q hq ys hPre => ?_⟩
  have hSame := startWith_append_of_settled hmaybe ys q (hp q hq)
  rw [hnone q (hp q hq), List.append_assoc, bytesStartWith, List.isPrefixOf_iff_prefix.2 hPre] at hSame
  exact absurd hSame.symm Bool.false_ne_true

theorem isToken_singleton (b : UInt8) : IsToken [b] := ⟨b, [], rfl, List.not_mem_nil⟩

theorem eq_append_of_startWith (h : bytesStartWith bytes pattern = true) :
    bytes = pattern ++ bytes.drop pattern.length :=
  (List.prefix_iff_eq_append.1 (List.isPrefixOf_iff_prefix.1 h)).symm

/-- What is found in front is a cursor position. -/
theorem exists_position {n : ℕ} (h : cursorPosition bytes = some n) :
    ∃ position tail, IsPosition position ∧ bytes = position ++ tail ∧ n = position.length := by
  match bytes, h with
  | b :: b' :: bs, h =>
    have hSplit (l : Bytes) : l = l.takeWhile (fun b => 0x30 ≤ b && b ≤ 0x39) ++ l.drop (digits l) :=
      (List.prefix_iff_eq_append.1 (List.takeWhile_prefix _)).symm
    rw [cursorPosition, Option.ite_none_right_eq_some] at h
    obtain ⟨⟨rfl, -, rfl⟩, h⟩ := h
    split at h
    · exact absurd h.symm (Option.some_ne_none n)
    · rename_i b'' bs' hrow
      rw [Option.ite_none_right_eq_some, Option.some_inj] at h
      obtain ⟨⟨hrowPos, rfl, hcolPos, hH⟩, rfl⟩ := h
      obtain ⟨tail, htail⟩ : ∃ tail, bs'.drop (digits bs') = 0x48 :: tail := by
        cases hdrop : bs'.drop (digits bs') with
        | nil => rw [hdrop] at hH; exact absurd hH.symm (Option.some_ne_none _)
        | cons d ds =>
          rw [hdrop, List.head?_cons] at hH
          exact ⟨ds, by rw [Option.some_inj.1 hH]⟩
      refine ⟨0x1B :: 0x5B :: (bs.takeWhile (fun b => 0x30 ≤ b && b ≤ 0x39) ++ 0x3B ::
        (bs'.takeWhile (fun b => 0x30 ≤ b && b ≤ 0x39) ++ [0x48])), tail, ⟨_, _, ?_, ?_, ?_, rfl⟩, ?_, ?_⟩
      · exact List.ne_nil_of_length_pos hrowPos
      · exact List.ne_nil_of_length_pos hcolPos
      · intro d hd
        rcases List.mem_append.1 hd with hd | hd <;>
        · have hDigit := List.mem_takeWhile_imp hd
          rwa [Bool.and_eq_true, decide_eq_true_eq, decide_eq_true_eq] at hDigit
      · conv_lhs => rw [hSplit bs, hrow, hSplit bs', htail]
        simp
      · simp only [List.length_cons, List.length_append, List.length_nil, digits]
        omega

theorem IsPosition.isToken (h : IsPosition bytes) : IsToken bytes ∧ 0x0A ∉ bytes := by
  obtain ⟨row, col, -, -, hDigits, rfl⟩ := h
  have hNot (d : UInt8) (hd : d < 0x30) : d ∉ row ++ col := fun hMem =>
    absurd (hDigits d hMem).1 (by rw [UInt8.not_le]; exact hd)
  have hEsc := hNot 0x1B (by decide)
  have hLf := hNot 0x0A (by decide)
  simp only [List.mem_append, not_or] at hEsc hLf
  refine ⟨⟨_, _, rfl, ?_⟩, ?_⟩
  · simp only [List.mem_cons, List.mem_append, List.not_mem_nil, or_false, not_or]
    exact ⟨by decide, hEsc.1, by decide, hEsc.2, by decide⟩
  · simp only [List.mem_cons, List.mem_append, List.not_mem_nil, or_false, not_or]
    exact ⟨by decide, by decide, hLf.1, by decide, hLf.2, by decide⟩

theorem switches_subset_sought : ∀ q ∈ switches, q ∈ [showCursorSeq, altScreenEnterSeq, altScreenExitSeq] := by
  decide

theorem turned_of_plainTurn (hv : v.inBlock = false) (h : plainTurn v b rest = some (v', out, bytes)) :
    Turned v (b :: rest) v' out bytes := by
  rw [plainTurn] at h
  have hSame (x : Bytes) (hx : x ∉ switches) : { v with altScreen := v.screenAfter x } = v := by
    have hNot : x ≠ altScreenEnterSeq ∧ x ≠ altScreenExitSeq := by simpa [switches] using hx
    rw [Vars.screenAfter, if_neg hNot.1, if_neg hNot.2]
  split at h
  next henter =>
    cases h
    conv in b :: rest => rw [eq_append_of_startWith henter]
    exact .plain hv (alone_sequence (by decide) switches_subset)
  next henter =>
    split at h
    next hexit =>
      cases h
      conv in b :: rest => rw [eq_append_of_startWith hexit]
      exact .plain hv (alone_sequence (by decide) switches_subset)
    next hexit =>
      split at h
      next hhide =>
        cases h
        conv in b :: rest => rw [eq_append_of_startWith hhide]
        exact .hides hv
      next hhide =>
        rw [Option.ite_none_left_eq_some] at h
        obtain ⟨hmaybe, h⟩ := h
        cases h
        rw [Bool.not_eq_true] at hmaybe henter hexit hhide
        have hNone : ∀ q ∈ [hideCursorSeq, altScreenEnterSeq, altScreenExitSeq],
            bytesStartWith ([b] ++ rest) q = false := by
          simp only [List.forall_mem_cons, List.not_mem_nil, false_implies, implies_true, and_true]
          exact ⟨hhide, henter, hexit⟩
        have hAlone : Alone switches [b] rest :=
          alone_other (isToken_singleton b) hmaybe hNone (by decide)
        have hTurn := Turned.plain hv hAlone
        have hLen (q : Bytes) (hq : q ∈ switches) : q.length ≠ 1 := by
          simp only [switches, List.mem_cons, List.not_mem_nil, or_false] at hq
          rcases hq with rfl | rfl <;> decide
        rwa [hSame [b] fun hMem => hLen [b] hMem rfl] at hTurn

theorem turned_of_byteTurn (hv : v.inBlock = true)
    (hmaybe : isPossiblePrefix (b :: rest) [showCursorSeq, altScreenEnterSeq, altScreenExitSeq] = false)
    (hnone : ∀ q ∈ [showCursorSeq, altScreenEnterSeq, altScreenExitSeq], bytesStartWith (b :: rest) q = false)
    (h : byteTurn v b rest = (v', out, bytes)) : Turned v (b :: rest) v' out bytes := by
  have hOther {x tail : Bytes} (hx : IsToken x) (hEq : b :: rest = x ++ tail) :
      Alone [showCursorSeq, altScreenEnterSeq, altScreenExitSeq] x tail := by
    rw [hEq] at hmaybe hnone
    exact alone_other hx hmaybe hnone fun q hq => hq
  have hNot {x tail : Bytes} (hEq : b :: rest = x ++ tail) (q : Bytes)
      (hq : q ∈ [showCursorSeq, altScreenEnterSeq, altScreenExitSeq]) : x ≠ q := by
    rintro rfl
    have hStart : bytesStartWith (b :: rest) x = true :=
      List.isPrefixOf_iff_prefix.2 (hEq ▸ List.prefix_append x tail)
    exact Bool.false_ne_true ((hnone x hq).symm.trans hStart)
  have hScreen {x tail : Bytes} (hEq : b :: rest = x ++ tail) : v.screenAfter x = v.altScreen := by
    rw [Vars.screenAfter, if_neg (hNot hEq _ (by decide)), if_neg (hNot hEq _ (by decide))]
  rw [byteTurn] at h
  split at h
  next n hfound =>
    cases h
    rw [Option.ite_none_left_eq_some] at hfound
    obtain ⟨position, tail, hPos, hEq, rfl⟩ := exists_position hfound.2
    have hTurn : Turned v (position ++ tail) { v.push position with
        altScreen := v.screenAfter position, hasAbsPos := true } [] tail :=
      .gathers hv (hOther hPos.isToken.1 hEq) (hNot hEq _ (by decide)) hPos.isToken.2 fun _ => .inr hPos
    rw [hEq, List.take_left, List.drop_left]
    rwa [hScreen hEq] at hTurn
  next =>
    rw [pushTurn] at h
    split at h
    next hb =>
      cases h
      subst hb
      have hAlone := hOther (isToken_singleton 0x0A) (rfl : 0x0A :: rest = [0x0A] ++ rest)
      exact .breaks hv ⟨hAlone.1, fun q hq => hAlone.2 q (switches_subset_sought q hq)⟩
    next hb =>
      cases h
      have hTurn : Turned v ([b] ++ rest) { v.push [b] with
          altScreen := v.screenAfter [b], hasAbsPos := v.hasAbsPos } [] rest := .gathers hv
        (hOther (isToken_singleton b) (rfl : b :: rest = [b] ++ rest))
        (hNot (rfl : b :: rest = [b] ++ rest) _ (by decide))
        (fun hMem => hb (List.mem_singleton.1 hMem).symm) Or.inl
      rwa [hScreen (rfl : b :: rest = [b] ++ rest)] at hTurn

theorem turned_of_blockTurn (hv : v.inBlock = true)
    (h : blockTurn v b rest = some (v', out, bytes)) : Turned v (b :: rest) v' out bytes := by
  have hSought : ∀ q ∈ [showCursorSeq, altScreenEnterSeq, altScreenExitSeq], q ∈ sequences := by decide
  rw [blockTurn] at h
  split at h
  next =>
    cases h
    exact .overflows hv
  next =>
    split at h
    next hshow =>
      cases h
      conv in b :: rest => rw [eq_append_of_startWith hshow]
      rw [showTurn]
      split_ifs with hpass halt
      · exact .shows hv (by decide)
      · exact .shows hv (by decide)
      · rw [Bool.or_eq_true, not_or, Bool.not_eq_true, Bool.not_eq_false'] at hpass
        exact .discards hv hpass.1 (Bool.eq_false_iff.2 halt)
    next hshow =>
      split at h
      next henter =>
        cases h
        conv in b :: rest => rw [eq_append_of_startWith henter]
        exact .gathers hv (alone_sequence (by decide) hSought) (by decide) (by decide) Or.inl
      next henter =>
        split at h
        next hexit =>
          cases h
          conv in b :: rest => rw [eq_append_of_startWith hexit]
          exact .gathers hv (alone_sequence (by decide) hSought) (by decide) (by decide) Or.inl
        next hexit =>
          rw [Option.ite_none_left_eq_some, Option.some_inj] at h
          rw [Bool.not_eq_true] at hshow henter hexit h
          refine turned_of_byteTurn hv h.1 ?_ h.2
          simp only [List.forall_mem_cons, List.not_mem_nil, false_implies, implies_true, and_true]
          exact ⟨hshow, henter, hexit⟩

theorem turned_of_turn (h : turn v bytes = some (v', out, rest)) : Turned v bytes v' out rest := by
  cases bytes with
  | nil => exact absurd h.symm (Option.some_ne_none _)
  | cons b bs =>
    rw [turn] at h
    cases hv : v.inBlock with
    | true =>
      rw [hv, if_pos rfl] at h
      exact turned_of_blockTurn hv h
    | false =>
      rw [hv, if_neg Bool.false_ne_true] at h
      exact turned_of_plainTurn hv h

/-! ### What is read is put out, dropped, or still in the block -/

/-- What a list of bytes and events stands for. -/
def inputOf (es : List Emit) : Bytes := (es.filterMap Emit.piece?).flatMap Piece.input

theorem inputOf_append (es fs : List Emit) : inputOf (es ++ fs) = inputOf es ++ inputOf fs := by
  rw [inputOf, List.filterMap_append, List.flatMap_append, inputOf, inputOf]

theorem inputOf_bytes (bs : Bytes) : inputOf (bs.map .byte) = bs := by
  induction bs with
  | nil => rfl
  | cons b bs ih => exact congrArg (b :: ·) ih

theorem piece_event {kind : CursorHideEventKind} (h : kind ≠ .filterDiscard) : (v.event kind).piece? = none :=
  if_neg h

theorem inputOf_event {kind : CursorHideEventKind} (h : kind ≠ .filterDiscard) (es : List Emit) :
    inputOf (v.event kind :: es) = inputOf es := by
  rw [inputOf, List.filterMap_cons_none (piece_event h), inputOf]

theorem pending_of_inBlock (hv : v.inBlock = true) : v.pending = hideCursorSeq ++ v.blockBuf := by
  rw [Vars.pending, hv, if_pos rfl]

theorem pending_of_plain (hv : v.inBlock = false) : v.pending = [] := by
  rw [Vars.pending, hv, if_neg Bool.false_ne_true]

/-- A turn reads a token, which is put out with what is pending, or is pending too. -/
theorem Turned.reads (h : Turned v bytes v' out rest) : ∃ c, bytes = c ++ rest ∧
    inputOf out ++ v'.pending = v.pending ++ c ∧
    (c = [] ∧ v'.altScreen = v.altScreen ∨ Alone switches c rest ∧ v'.altScreen = v.screenAfter c) := by
  cases h with
  | @plain c rest hv hc =>
    refine ⟨c, rfl, ?_, .inr ⟨hc, rfl⟩⟩
    rw [inputOf_bytes, pending_of_plain hv, pending_of_plain (v := { v with altScreen := v.screenAfter c }) hv,
      List.append_nil, List.nil_append]
  | hides hv =>
    refine ⟨hideCursorSeq, rfl, ?_, .inr ⟨alone_sequence (by decide) switches_subset, ?_⟩⟩
    · rw [pending_of_plain hv]
      rfl
    · rw [Vars.screenAfter, if_neg (by decide), if_neg (by decide)]
      rfl
  | overflows hv =>
    refine ⟨[], rfl, ?_, .inl ⟨rfl, rfl⟩⟩
    rw [inputOf_event (by decide), Vars.replay, inputOf_bytes, pending_of_inBlock hv, List.append_nil]
    exact List.append_nil _
  | shows hv hkind =>
    refine ⟨showCursorSeq, rfl, ?_, .inr ⟨alone_sequence (by decide) switches_subset, ?_⟩⟩
    · rw [inputOf_event hkind, Vars.replay, inputOf_bytes, pending_of_inBlock hv]
      exact List.append_nil _
    · rw [Vars.screenAfter, if_neg (by decide), if_neg (by decide)]
      rfl
  | discards hv hpos hmain =>
    refine ⟨showCursorSeq, rfl, ?_, .inr ⟨alone_sequence (by decide) switches_subset, ?_⟩⟩
    · rw [pending_of_inBlock hv]
      exact (List.append_nil _).trans (List.append_nil _)
    · rw [Vars.screenAfter, if_neg (by decide), if_neg (by decide)]
      rfl
  | @gathers c rest hasAbsPos hv hc hshow hline hpos =>
    refine ⟨c, rfl, ?_, .inr ⟨⟨hc.1, fun q hq => hc.2 q (switches_subset_sought q hq)⟩, rfl⟩⟩
    rw [pending_of_inBlock hv, pending_of_inBlock (v := { v.push c with
      altScreen := v.screenAfter c, hasAbsPos := hasAbsPos }) hv, List.append_assoc]
    rfl
  | breaks hv hc =>
    refine ⟨[0x0A], rfl, ?_, .inr ⟨hc, ?_⟩⟩
    · rw [inputOf_event (by decide), Vars.replay, inputOf_bytes, pending_of_inBlock hv, List.append_nil]
      exact (List.append_nil _).trans (List.append_assoc ..).symm
    · rw [Vars.screenAfter, if_neg (by decide), if_neg (by decide)]
      rfl

/-- The block so far: it is not shown again, has no line feed, and has the position it is said to have. -/
structure InBlock (v : Vars) (rest : Bytes) : Prop where
  hidden : ∀ t, t ≠ [] → t <:+ v.blockBuf → ∀ ys, ¬ showCursorSeq <+: t ++ (rest ++ ys)
  oneLine : 0x0A ∉ v.blockBuf
  position : v.hasAbsPos = true → ∃ position, IsPosition position ∧ position <:+: v.blockBuf

/-- All that has been read: what has been put out or dropped, and what is pending. -/
def readBy (v : Vars) (es : List Emit) : Bytes := inputOf es ++ v.pending

/-- Between two turns. -/
structure Reading (v : Vars) (es : List Emit) (rest : Bytes) : Prop where
  settled : Settled switches (readBy v es) rest
  screen : v.altScreen = onAlternate (readBy v es)
  ends : EndsOnMain (es.filterMap Emit.piece?)
  block : v.inBlock = true → InBlock v rest

variable {es : List Emit}

theorem readBy_append (h : inputOf out ++ v'.pending = v.pending ++ c) :
    readBy v' (es ++ out) = readBy v es ++ c := by
  rw [readBy, inputOf_append, List.append_assoc, h, ← List.append_assoc, readBy]

/-- The block that a token is added to. -/
theorem InBlock.gather (h : InBlock v (c ++ rest)) (hv' : v'.blockBuf = v.blockBuf ++ c)
    (hc : Alone [showCursorSeq, altScreenEnterSeq, altScreenExitSeq] c rest) (hShow : c ≠ showCursorSeq)
    (hline : 0x0A ∉ c) (hpos : v'.hasAbsPos = true → v.hasAbsPos = true ∨ IsPosition c) : InBlock v' rest where
  hidden t hne ht ys hPre := by
    rw [hv'] at ht
    rcases suffix_token_cases hc.1 ht hne with ⟨t', hne', ht', rfl⟩ | rfl | ⟨d, ds, rfl, hd⟩
    · rw [List.append_assoc, ← List.append_assoc c] at hPre
      exact h.hidden t' hne' ht' ys hPre
    · exact hShow (hc.2 showCursorSeq (by decide) ys hPre).symm
    · exact not_prefix_of_ne_escape (by decide) hd hPre
  oneLine := by
    rw [hv', List.mem_append, not_or]
    exact ⟨h.oneLine, hline⟩
  position hAbs := by
    rw [hv']
    rcases hpos hAbs with hOld | hNew
    · obtain ⟨position, hPos, hIn⟩ := h.position hOld
      exact ⟨position, hPos, hIn.trans (List.prefix_append _ c).isInfix⟩
    · exact ⟨c, hNew, (List.suffix_append _ c).isInfix⟩

/-- A block that is closed with a cursor position is a redraw. -/
theorem InBlock.isRedraw (h : InBlock v (showCursorSeq ++ rest)) (hpos : v.hasAbsPos = true) :
    IsRedraw (hideCursorSeq ++ v.blockBuf ++ showCursorSeq) where
  whole := by
    refine ⟨v.blockBuf, rfl, fun x y hEq => ?_⟩
    rcases List.append_eq_append_iff.1 (hEq.trans (List.append_assoc ..)) with ⟨t, ht, hRest⟩ | ⟨t, ht, hRest⟩
    · have hLen := congrArg List.length hRest
      simp only [List.length_append] at hLen
      exact List.eq_nil_of_length_eq_zero (by omega)
    · by_cases hNil : t = []
      · rw [hNil, List.nil_append] at hRest
        exact List.append_right_eq_self.1 hRest
      · have hPre : showCursorSeq <+: t ++ (showCursorSeq ++ rest ++ []) :=
          ⟨y ++ (rest ++ []), by rw [← List.append_assoc, hRest]; simp⟩
        exact absurd hPre (h.hidden t hNil ⟨x, ht.symm⟩ [])
  position := by
    obtain ⟨position, hPos, hIn⟩ := h.position hpos
    exact ⟨position, hPos, hIn.trans ⟨hideCursorSeq, showCursorSeq, rfl⟩⟩
  oneLine := by
    simp only [List.mem_append, not_or]
    exact ⟨⟨by decide, h.oneLine⟩, by decide⟩

theorem pieces_bytes (bs : Bytes) : (bs.map Emit.byte).filterMap Emit.piece? = bs.map .kept := by
  induction bs with
  | nil => rfl
  | cons b bs ih => exact congrArg (.kept b :: ·) ih

/-- Where nothing is dropped, nothing changes of what has been. -/
theorem EndsOnMain.kept {ps : List Piece} (h : EndsOnMain ps) (bs : Bytes) :
    EndsOnMain (ps ++ bs.map .kept) := by
  intro ps₁ block ps₂ hps
  rcases List.append_eq_append_iff.1 hps with ⟨t, ht, hRest⟩ | ⟨t, ht, hRest⟩
  · have hMem : Piece.dropped block ∈ bs.map Piece.kept := by
      rw [hRest]
      exact List.mem_append_right t (List.mem_cons_self ..)
    obtain ⟨b, -, hb⟩ := List.mem_map.1 hMem
    cases hb
  · cases t with
    | nil =>
      rw [List.nil_append] at hRest
      have hMem : Piece.dropped block ∈ bs.map Piece.kept := by
        rw [← hRest]
        exact List.mem_cons_self ..
      obtain ⟨b, -, hb⟩ := List.mem_map.1 hMem
      cases hb
    | cons p t =>
      rw [List.cons_append] at hRest
      obtain ⟨rfl, -⟩ := List.cons.inj hRest
      exact h ps₁ block t ht

theorem EndsOnMain.drop {ps : List Piece} {block : Bytes} (h : EndsOnMain ps) (hBlock : IsRedraw block)
    (hEnd : onAlternate (ps.flatMap Piece.input ++ block) = false) : EndsOnMain (ps ++ [.dropped block]) := by
  intro ps₁ block' ps₂ hps
  rcases List.append_eq_append_iff.1 hps with ⟨t, ht, hRest⟩ | ⟨t, ht, hRest⟩
  · cases t with
    | nil =>
      rw [List.append_nil] at ht
      obtain ⟨hEq, -⟩ := List.cons.inj hRest
      cases hEq
      rw [ht]
      exact ⟨hBlock, hEnd⟩
    | cons p t => exact absurd (List.cons.inj hRest).2 (by simp)
  · cases t with
    | nil =>
      rw [List.append_nil] at ht
      obtain ⟨hEq, -⟩ := List.cons.inj hRest
      cases hEq
      rw [← ht]
      exact ⟨hBlock, hEnd⟩
    | cons p t =>
      rw [List.cons_append] at hRest
      obtain ⟨rfl, -⟩ := List.cons.inj hRest
      exact h ps₁ block' t ht

theorem Reading.ends_turned (h : Reading v es bytes) (ht : Turned v bytes v' out rest) :
    EndsOnMain ((es ++ out).filterMap Emit.piece?) := by
  rw [List.filterMap_append]
  cases ht with
  | plain hv hc =>
    rw [pieces_bytes]
    exact h.ends.kept _
  | hides hv => exact h.ends.kept []
  | overflows hv =>
    rw [List.filterMap_cons_none (piece_event (by decide)), Vars.replay, pieces_bytes]
    exact h.ends.kept _
  | shows hv hkind =>
    rw [List.filterMap_cons_none (piece_event hkind), Vars.replay, pieces_bytes]
    exact h.ends.kept _
  | discards hv hpos hmain =>
    have hScreen := onAlternate_token h.settled (alone_sequence (by decide) switches_subset)
    rw [if_neg (by decide), if_neg (by decide), ← h.screen, hmain, readBy, pending_of_inBlock hv,
      List.append_assoc] at hScreen
    exact h.ends.drop ((h.block hv).isRedraw hpos) hScreen
  | gathers hv hc hshow hline hpos => exact h.ends.kept []
  | breaks hv hc =>
    rw [List.filterMap_cons_none (piece_event (by decide)), Vars.replay, pieces_bytes]
    exact h.ends.kept _

theorem Reading.block_turned (h : Reading v es bytes) (ht : Turned v bytes v' out rest)
    (hv' : v'.inBlock = true) : InBlock v' rest := by
  cases ht with
  | plain hv hc => exact absurd (hv.symm.trans hv') Bool.false_ne_true
  | hides hv =>
    exact {
      hidden := fun t hne ht => absurd (List.suffix_nil.1 ht) hne
      oneLine := List.not_mem_nil
      position := fun hAbs => absurd hAbs Bool.false_ne_true }
  | gathers hv hc hshow hline hpos => exact (h.block hv).gather rfl hc hshow hline hpos
  | _ => exact absurd hv' Bool.false_ne_true

/-- What a turn keeps. -/
theorem Reading.turned (h : Reading v es bytes) (ht : Turned v bytes v' out rest) :
    Reading v' (es ++ out) rest := by
  obtain ⟨c, rfl, hReads, hToken⟩ := ht.reads
  have hRead : readBy v' (es ++ out) = readBy v es ++ c := readBy_append hReads
  exact {
    settled := by
      rw [hRead]
      rcases hToken with ⟨rfl, -⟩ | ⟨hAlone, -⟩
      · rw [List.append_nil]
        exact h.settled
      · exact h.settled.append switches_subset hAlone
    screen := by
      rw [hRead]
      rcases hToken with ⟨rfl, hSame⟩ | ⟨hAlone, hAfter⟩
      · rw [List.append_nil, hSame, h.screen]
      · rw [hAfter, onAlternate_token h.settled hAlone, Vars.screenAfter, h.screen]
    ends := h.ends_turned ht
    block := h.block_turned ht }

/-! ### All chunks -/

/-- Up to the end of a chunk. -/
theorem Reading.run (h : Reading v es bytes) :
    Reading (loop.run v bytes).1 (es ++ (loop.run v bytes).2.1) (loop.run v bytes).2.2 ∧
      readBy (loop.run v bytes).1 (es ++ (loop.run v bytes).2.1) ++ (loop.run v bytes).2.2 =
        readBy v es ++ bytes := by
  refine Scanner.run_relates (r := loop)
    (P := fun es' s xs => Reading s es' xs ∧ readBy s es' ++ xs = readBy v es ++ bytes) ?_ ⟨h, rfl⟩
  rintro es' s xs s' out rest ⟨hReading, hAll⟩ ht
  have hTurned := turned_of_turn ht
  obtain ⟨c, rfl, hReads, -⟩ := hTurned.reads
  refine ⟨hReading.turned hTurned, ?_⟩
  rw [readBy_append hReads, List.append_assoc, hAll]

/-- With more to come. -/
theorem Reading.more (h : Reading v es bytes) (xs : Bytes) : Reading v es (bytes ++ xs) where
  settled t hne ht q hq ys hPre := h.settled t hne ht q hq (xs ++ ys) (by rwa [← List.append_assoc bytes])
  screen := h.screen
  ends := h.ends
  block hv :=
    { hidden := fun t hne ht ys hPre =>
      (h.block hv).hidden t hne ht (xs ++ ys) (by rwa [← List.append_assoc bytes])
      oneLine := (h.block hv).oneLine
      position := (h.block hv).position }

theorem reading_empty : Reading {} [] [] where
  settled _ hne ht := absurd (List.suffix_nil.1 ht) hne
  screen := rfl
  ends ps₁ _ _ hps := absurd hps.symm (List.append_ne_nil_of_right_ne_nil ps₁ (List.cons_ne_nil _ _))
  block hv := absurd hv Bool.false_ne_true

variable {state : CursorHideFilterState}

/-- The state that a chunk leaves is what its loop ends with. -/
theorem filter_state (hs : Reachable state) (x : Bytes) :
    (filterCursorHideBlocksPure x state).state =
      { (loop.run state.toVars (state.carry ++ x)).1 with carry :=
        (loop.run state.toVars (state.carry ++ x)).2.2 } := by
  have hClean := hs.clean.run (state.carry ++ x)
  rw [filterCursorHideBlocksPure]
  dsimp only
  rw [hClean.state_eq]

theorem filterAll_reads (chunks : List Bytes) : ∀ {state : CursorHideFilterState} (es : List Emit),
    Reachable state → Reading state.toVars es state.carry →
      Reading (filterAll state chunks).2.toVars (es ++ emitted state chunks) (filterAll state chunks).2.carry ∧
      readBy (filterAll state chunks).2.toVars (es ++ emitted state chunks) ++
        (filterAll state chunks).2.carry =
        readBy state.toVars es ++ state.carry ++ chunks.flatten ∧
      (filterAll state chunks).1 = (emitted state chunks).filterMap Emit.byte? := by
  induction chunks with
  | nil =>
    intro state es _ h
    rw [filterAll, emitted, List.append_nil]
    exact ⟨h, (List.append_nil _).symm, rfl⟩
  | cons x xs ih =>
    intro state es hs h
    have hState := filter_state hs x
    have hRun := (h.more x).run
    obtain ⟨hReading, hAll, hOut⟩ := ih (es ++ (loop.run state.toVars (state.carry ++ x)).2.1)
      (hs.chunk x) (by rw [hState]; exact hRun.1)
    rw [filterAll, emitted, ← List.append_assoc]
    refine ⟨hReading, ?_, ?_⟩
    · have hNow : readBy (filterCursorHideBlocksPure x state).state.toVars
          (es ++ (loop.run state.toVars (state.carry ++ x)).2.1) ++
            (filterCursorHideBlocksPure x state).state.carry =
          readBy state.toVars es ++ (state.carry ++ x) := by
        rw [hState]
        exact hRun.2
      refine hAll.trans ?_
      rw [hNow, List.flatten_cons]
      simp only [List.append_assoc]
    · rw [List.filterMap_append, ← hOut]
      rfl

theorem output_pieces (es : List Emit) :
    (es.filterMap Emit.piece?).flatMap Piece.output = es.filterMap Emit.byte? := by
  induction es with
  | nil => rfl
  | cons e es ih =>
    cases e with
    | byte b => exact congrArg (b :: ·) ih
    | event e =>
      rw [List.filterMap_cons, List.filterMap_cons, ← ih]
      by_cases hKind : e.kind = .filterDiscard
      · rw [Emit.piece?, if_pos hKind]
        rfl
      · rw [Emit.piece?, if_neg hKind]
        rfl

/-- The filter takes nothing out of a stream but status redraws on the main screen, and keeps a terminal
on its screen, exactly where no discarded block leaves the alternate screen and around none of them the
bytes join to the switch to it. -/
theorem faithful_iff_separates (chunks : List Bytes) : Faithful chunks ↔ Separates chunks := by
  obtain ⟨hReading, hAll, hOut⟩ := filterAll_reads chunks [] .empty reading_empty
  rw [List.nil_append] at hReading hAll
  have hEnds : EndsOnMain (pieces chunks) := hReading.ends
  refine ⟨Faithful.separates hEnds, fun h => ?_⟩
  have hMain : ∀ ps₁ block ps₂, pieces chunks = ps₁ ++ .dropped block :: ps₂ →
      OnMain (ps₁.flatMap Piece.input) block := fun ps₁ block ps₂ hps =>
    onMain_of_stays (hEnds ps₁ block ps₂ hps).2 (h.stays ps₁ block ps₂ hps)
  exact {
    input := (List.append_assoc ..).symm.trans hAll
    output := (output_pieces _).trans hOut.symm
    redraws := fun ps₁ block ps₂ hps => ⟨(hEnds ps₁ block ps₂ hps).1, hMain ps₁ block ps₂ hps⟩
    screens := by
      intro ps₁ ps₂ hps
      have hMore {p : Piece} {ps₃ ps₄ : List Piece} (hps₁ : ps₁ = ps₃ ++ p :: ps₄) :
          pieces chunks = ps₃ ++ p :: (ps₄ ++ ps₂) := by rw [hps, hps₁, List.append_assoc, List.cons_append]
      refine screens_agree (EndsOnMain.of_append (hps ▸ hEnds)) (fun ps₃ block ps₄ hps₁ => ?_)
        fun ps₃ b ps₄ hps₁ => h.apart ps₃ b _ (hMore hps₁)
      have hBefore := hMain ps₃ block _ (hMore hps₁) [] List.nil_prefix
      rwa [List.append_nil] at hBefore }

/-- On the alternate screen a program hides the cursor, goes back to the main screen, puts the cursor
there and shows it. The switch goes with the block. -/
theorem exit_in_block_lost :
    ¬ Faithful [encode "\x1b[?1049h\x1b[?25l\x1b[?1049l\x1b[1;1H$ \x1b[?25h".toList] := by
  intro h
  have hScreens := h.screens (pieces _) [] (List.append_nil _).symm
  exact absurd hScreens (by decide)

end ManyAiCli.Web.CursorHideFilter
