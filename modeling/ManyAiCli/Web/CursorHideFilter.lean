import ManyAiCli.Runs.Scanner
import ManyAiCli.Web.HubMarkerFilter

/-! The filter of blocks in which the cursor is hidden. A block with an absolute cursor position
and without a line feed is the update of a status line and is discarded, any other is passed on.
The sequences that begin and end a block are waited for when a chunk ends within one. The cursor
position is not: it is looked for in what has come of the chunk. -/

namespace ManyAiCli.Web.CursorHideFilter

open Runs HubMarkerFilter

def hideCursorSeq : Bytes := encode "\x1b[?25l".toList

def showCursorSeq : Bytes := encode "\x1b[?25h".toList

def altScreenEnterSeq : Bytes := encode "\x1b[?1049h".toList

def altScreenExitSeq : Bytes := encode "\x1b[?1049l".toList

def maxCursorHideBuf : ℕ := 2048

/-- The variables of the loop. -/
structure Vars where
  inBlock : Bool := false
  blockBuf : Bytes := []
  hasAbsPos : Bool := false
  hasNewline : Bool := false
  altScreen : Bool := false
  deriving DecidableEq, Repr

structure CursorHideFilterState extends Vars where
  carry : Bytes := []
  deriving DecidableEq, Repr

inductive CursorHideEventKind where
  | blockPassthroughOverflow
  | blockPassthroughShow
  | blockPassthroughAlt
  | blockPassthroughLf
  | filterDiscard
  deriving DecidableEq, Repr

structure CursorHideEvent where
  kind : CursorHideEventKind
  blockBuf : Bytes
  hasAbsPos : Bool
  hasNewline : Bool
  deriving DecidableEq, Repr

/-- What a turn adds to the output or to the events. -/
inductive Emit where
  | byte (b : UInt8)
  | event (e : CursorHideEvent)
  deriving DecidableEq, Repr

/-! ### The turns of the loop -/

/-- Out of the block. -/
def Vars.leave (v : Vars) : Vars :=
  { v with inBlock := false, blockBuf := [], hasAbsPos := false, hasNewline := false }

def Vars.push (v : Vars) (bytes : Bytes) : Vars := { v with blockBuf := v.blockBuf ++ bytes }

def Vars.event (v : Vars) (kind : CursorHideEventKind) : Emit :=
  .event ⟨kind, v.blockBuf, v.hasAbsPos, v.hasNewline⟩

/-- The block with what began it and what ends it. -/
def Vars.replay (v : Vars) (ending : Bytes) : List Emit :=
  (hideCursorSeq ++ v.blockBuf ++ ending).map .byte

/-- The number of digits in front. -/
def digits (bytes : Bytes) : ℕ := (bytes.takeWhile fun b => 0x30 ≤ b && b ≤ 0x39).length

/-- The length of an absolute cursor position in front, `ESC [ row ; col H`. -/
def cursorPosition : Bytes → Option ℕ
  | b :: b' :: rest =>
    if b = 0x1B ∧ 3 ≤ rest.length ∧ b' = 0x5B then
      match rest.drop (digits rest) with
      | [] => none
      | b'' :: rest' =>
        if 0 < digits rest ∧ b'' = 0x3B ∧ 0 < digits rest' ∧ (rest'.drop (digits rest')).head? = some 0x48
        then some (digits rest + digits rest' + 4)
        else none
    else none
  | _ => none

/-- Outside of a block. -/
def plainTurn (v : Vars) (b : UInt8) (rest : Bytes) : Option (Vars × List Emit × Bytes) :=
  let bytes := b :: rest
  if bytesStartWith bytes altScreenEnterSeq then
    some ({ v with altScreen := true }, altScreenEnterSeq.map .byte, bytes.drop altScreenEnterSeq.length)
  else if bytesStartWith bytes altScreenExitSeq then
    some ({ v with altScreen := false }, altScreenExitSeq.map .byte, bytes.drop altScreenExitSeq.length)
  else if bytesStartWith bytes hideCursorSeq then
    some ({ v.leave with inBlock := true }, [], bytes.drop hideCursorSeq.length)
  else if isPossiblePrefix bytes [hideCursorSeq, altScreenEnterSeq, altScreenExitSeq] then none
  else some (v, [.byte b], rest)

/-- The end of a block. -/
def showTurn (v : Vars) : List Emit :=
  if !v.hasAbsPos || v.hasNewline then v.event .blockPassthroughShow :: v.replay showCursorSeq
  else if v.altScreen then v.event .blockPassthroughAlt :: v.replay showCursorSeq
  else [v.event .filterDiscard]

/-- A byte of a block by itself; a line feed ends the block. -/
def pushTurn (v : Vars) (b : UInt8) (rest : Bytes) : Vars × List Emit × Bytes :=
  if b = 0x0A then
    (v.leave, { v.push [b] with hasNewline := true }.event .blockPassthroughLf :: (v.push [b]).replay [],
      rest)
  else (v.push [b], [], rest)

/-- A byte of a block that begins none of the sequences. -/
def byteTurn (v : Vars) (b : UInt8) (rest : Bytes) : Vars × List Emit × Bytes :=
  match if v.hasAbsPos then none else cursorPosition (b :: rest) with
  | some n => ({ v.push ((b :: rest).take n) with hasAbsPos := true }, [], (b :: rest).drop n)
  | none => pushTurn v b rest

/-- Within a block. -/
def blockTurn (v : Vars) (b : UInt8) (rest : Bytes) : Option (Vars × List Emit × Bytes) :=
  let bytes := b :: rest
  if maxCursorHideBuf ≤ v.blockBuf.length then
    some (v.leave, v.event .blockPassthroughOverflow :: v.replay [], bytes)
  else if bytesStartWith bytes showCursorSeq then
    some (v.leave, showTurn v, bytes.drop showCursorSeq.length)
  else if bytesStartWith bytes altScreenEnterSeq then
    some ({ v.push altScreenEnterSeq with altScreen := true }, [], bytes.drop altScreenEnterSeq.length)
  else if bytesStartWith bytes altScreenExitSeq then
    some ({ v.push altScreenExitSeq with altScreen := false }, [], bytes.drop altScreenExitSeq.length)
  else if isPossiblePrefix bytes [showCursorSeq, altScreenEnterSeq, altScreenExitSeq] then none
  else some (byteTurn v b rest)

def turn (v : Vars) : Bytes → Option (Vars × List Emit × Bytes)
  | [] => none
  | b :: rest => if v.inBlock then blockTurn v b rest else plainTurn v b rest

/-! ### What comes after a turn makes no difference to it, but for a cursor position -/

variable {v v' : Vars} {b : UInt8} {bytes rest ys pattern : Bytes} {out : List Emit}

/-- The sequences that a turn may find. -/
def sequences : List Bytes := [hideCursorSeq, showCursorSeq, altScreenEnterSeq, altScreenExitSeq]

/-- None of them begins with another one. -/
theorem sequence_unique : ∀ p ∈ sequences, ∀ q ∈ sequences, p.isPrefixOf q = true → p = q := by
  decide

theorem sequence_length_pos : ∀ p ∈ sequences, 0 < p.length := by decide

/-- A sequence that is there is there whatever follows, and is the only one. -/
theorem startWith_append_of_sequence (hm : pattern ∈ sequences) (h : bytesStartWith bytes pattern = true)
    (ys : Bytes) : ∀ p ∈ sequences, bytesStartWith (bytes ++ ys) p = bytesStartWith bytes p := by
  intro p hp
  have hpattern := List.isPrefixOf_iff_prefix.mp h
  cases hs : bytesStartWith bytes p with
  | true => exact startWith_append hs ys
  | false =>
    rw [Bool.eq_false_iff] at hs ⊢
    intro hs'
    have hp' := List.isPrefixOf_iff_prefix.mp hs'
    have hlong := hpattern.trans (List.prefix_append bytes ys)
    have heq : p = pattern := by
      rcases Nat.le_total p.length pattern.length with hle | hle
      · exact sequence_unique p hp pattern hm
          (List.isPrefixOf_iff_prefix.mpr (List.prefix_of_prefix_length_le hp' hlong hle))
      · exact (sequence_unique pattern hm p hp
          (List.isPrefixOf_iff_prefix.mpr (List.prefix_of_prefix_length_le hlong hp' hle))).symm
    exact hs (heq ▸ h)

theorem digits_append (h : digits bytes < bytes.length) (ys : Bytes) :
    digits (bytes ++ ys) = digits bytes := by
  rw [digits, List.takeWhile_append]
  split
  next heq => exact absurd heq (Nat.ne_of_lt h)
  next => rfl

theorem drop_digits_append (h : digits bytes < bytes.length) (ys : Bytes) :
    (bytes ++ ys).drop (digits (bytes ++ ys)) = bytes.drop (digits bytes) ++ ys := by
  rw [digits_append h, List.drop_append_of_le_length (Nat.le_of_lt h)]

theorem digits_lt_of_drop {tail : Bytes} (h : bytes.drop (digits bytes) = b :: tail) :
    digits bytes < bytes.length := by
  have hl := congrArg List.length h
  rw [List.length_drop, List.length_cons] at hl
  omega

/-- A cursor position that has come is one whatever follows. -/
theorem cursorPosition_append {n : ℕ} (h : cursorPosition bytes = some n) (ys : Bytes) :
    cursorPosition (bytes ++ ys) = some n ∧ n ≤ bytes.length := by
  match bytes, h with
  | b :: b' :: rest, h =>
    rw [cursorPosition] at h
    split at h
    next hesc =>
      obtain ⟨hb, hlen, hb'⟩ := hesc
      cases hdrop : rest.drop (digits rest) with
      | nil =>
        rw [hdrop] at h
        cases h
      | cons b'' rest' =>
        rw [hdrop] at h
        simp only [Option.ite_none_right_eq_some, Option.some.injEq] at h
        obtain ⟨⟨hrow, hb'', hcol, hhead⟩, rfl⟩ := h
        have hlt := digits_lt_of_drop hdrop
        have hlt' : digits rest' < rest'.length := by
          rw [List.head?_drop] at hhead
          exact (List.getElem?_eq_some_iff.mp hhead).1
        have hl := congrArg List.length hdrop
        rw [List.length_drop, List.length_cons] at hl
        constructor
        · change cursorPosition (b :: b' :: (rest ++ ys)) = _
          rw [cursorPosition, if_pos ⟨hb, by rw [List.length_append]; omega, hb'⟩, drop_digits_append hlt,
            hdrop, digits_append hlt]
          change (if 0 < digits rest ∧ b'' = 0x3B ∧ 0 < digits (rest' ++ ys) ∧
            ((rest' ++ ys).drop (digits (rest' ++ ys))).head? = some 0x48 then _ else none) = _
          rw [digits_append hlt', List.head?_drop, List.getElem?_append_left hlt', ← List.head?_drop,
            if_pos ⟨hrow, hb'', hcol, hhead⟩]
          change some (digits rest + digits (rest' ++ ys) + 4) = _
          rw [digits_append hlt']
        · simp only [List.length_cons]
          omega
    next => cases h

/-- The loop looks for a cursor position here. -/
def looksAhead (v : Vars) (bytes : Bytes) : Bool :=
  v.inBlock && !v.hasAbsPos && decide (v.blockBuf.length < maxCursorHideBuf) &&
    !isPossiblePrefix bytes [showCursorSeq, altScreenEnterSeq, altScreenExitSeq]

/-- The loop looks for a cursor position that has come in part and that `ys` completes. -/
def cutsPosition (v : Vars) (bytes ys : Bytes) : Bool :=
  looksAhead v bytes && (cursorPosition bytes).isNone && (cursorPosition (bytes ++ ys)).isSome

theorem plainTurn_append (h : plainTurn v b rest = some (v', out, bytes)) (ys : Bytes) :
    plainTurn v b (rest ++ ys) = some (v', out, bytes ++ ys) := by
  rw [plainTurn] at h ⊢
  rw [← List.cons_append]
  split at h
  next henter =>
    cases h
    rw [if_pos (startWith_append henter ys), drop_append_of_startWith henter]
  next henter =>
    split at h
    next hexit =>
      have hsame := startWith_append_of_sequence (by decide) hexit ys
      cases h
      rw [hsame altScreenEnterSeq (by decide), if_neg henter, if_pos (startWith_append hexit ys),
        drop_append_of_startWith hexit]
    next hexit =>
      split at h
      next hhide =>
        have hsame := startWith_append_of_sequence (by decide) hhide ys
        cases h
        rw [hsame altScreenEnterSeq (by decide), if_neg henter, hsame altScreenExitSeq (by decide),
          if_neg hexit, if_pos (startWith_append hhide ys), drop_append_of_startWith hhide]
      next hhide =>
        rw [Option.ite_none_left_eq_some] at h
        obtain ⟨hmaybe, h⟩ := h
        rw [Bool.not_eq_true] at hmaybe
        have hsame := startWith_append_of_settled hmaybe ys
        cases h
        rw [hsame altScreenEnterSeq (by decide), if_neg henter, hsame altScreenExitSeq (by decide),
          if_neg hexit, hsame hideCursorSeq (by decide), if_neg hhide, isPossiblePrefix_append hmaybe,
          if_neg Bool.false_ne_true]

theorem pushTurn_append (h : pushTurn v b rest = (v', out, bytes)) (ys : Bytes) :
    pushTurn v b (rest ++ ys) = (v', out, bytes ++ ys) := by
  rw [pushTurn] at h ⊢
  split at h
  next hb =>
    cases h
    rw [if_pos hb]
  next hb =>
    cases h
    rw [if_neg hb]

/-- A byte turn changes only if the position it looks for is completed. -/
theorem byteTurn_append (hcut : v.hasAbsPos = false → cursorPosition (b :: rest) = none →
    cursorPosition (b :: rest ++ ys) = none) (h : byteTurn v b rest = (v', out, bytes)) :
    byteTurn v b (rest ++ ys) = (v', out, bytes ++ ys) := by
  rw [byteTurn] at h ⊢
  rw [← List.cons_append]
  cases habs : v.hasAbsPos with
  | true =>
    rw [habs, if_pos rfl] at h
    rw [if_pos rfl]
    exact pushTurn_append h ys
  | false =>
    rw [habs, if_neg Bool.false_ne_true] at h
    rw [if_neg Bool.false_ne_true]
    cases hpos : cursorPosition (b :: rest) with
    | none =>
      rw [hpos] at h
      rw [hcut habs hpos]
      exact pushTurn_append h ys
    | some n =>
      obtain ⟨happend, hle⟩ := cursorPosition_append hpos ys
      rw [hpos] at h
      rw [happend]
      cases h
      dsimp only
      rw [List.take_append_of_le_length hle, List.drop_append_of_le_length hle]

theorem blockTurn_append (hv : v.inBlock = true) (hcut : cutsPosition v (b :: rest) ys = false)
    (h : blockTurn v b rest = some (v', out, bytes)) :
    blockTurn v b (rest ++ ys) = some (v', out, bytes ++ ys) := by
  rw [blockTurn] at h ⊢
  rw [← List.cons_append]
  split at h
  next hfull =>
    cases h
    rw [if_pos hfull]
  next hfull =>
    rw [if_neg hfull]
    split at h
    next hshow =>
      cases h
      rw [if_pos (startWith_append hshow ys), drop_append_of_startWith hshow]
    next hshow =>
      split at h
      next henter =>
        have hsame := startWith_append_of_sequence (by decide) henter ys
        cases h
        rw [hsame showCursorSeq (by decide), if_neg hshow, if_pos (startWith_append henter ys),
          drop_append_of_startWith henter]
      next henter =>
        split at h
        next hexit =>
          have hsame := startWith_append_of_sequence (by decide) hexit ys
          cases h
          rw [hsame showCursorSeq (by decide), if_neg hshow, hsame altScreenEnterSeq (by decide),
            if_neg henter, if_pos (startWith_append hexit ys), drop_append_of_startWith hexit]
        next hexit =>
          rw [Option.ite_none_left_eq_some] at h
          obtain ⟨hmaybe, h⟩ := h
          rw [Bool.not_eq_true] at hmaybe
          have hsame := startWith_append_of_settled hmaybe ys
          rw [hsame showCursorSeq (by decide), if_neg hshow, hsame altScreenEnterSeq (by decide),
            if_neg henter, hsame altScreenExitSeq (by decide), if_neg hexit,
            isPossiblePrefix_append hmaybe, if_neg Bool.false_ne_true]
          rw [Option.some_inj] at h ⊢
          refine byteTurn_append (fun habs hpos => ?_) h
          have hlooks : looksAhead v (b :: rest) = true := by
            rw [looksAhead, hv, habs, hmaybe, decide_eq_true (Nat.not_le.mp hfull)]
            rfl
          rw [cutsPosition, hlooks, hpos] at hcut
          exact Option.isSome_eq_false_iff.mp hcut |> Option.isNone_iff_eq_none.mp

/-- A turn that cuts no position is the same with more to come. -/
theorem turn_append (hcut : cutsPosition v bytes ys = false) (h : turn v bytes = some (v', out, rest)) :
    turn v (bytes ++ ys) = some (v', out, rest ++ ys) := by
  match bytes, h with
  | b :: bs, h =>
    rw [turn] at h
    rw [List.cons_append, turn]
    cases hv : v.inBlock with
    | true =>
      rw [hv, if_pos rfl] at h
      rw [if_pos rfl]
      exact blockTurn_append hv hcut h
    | false =>
      rw [hv, if_neg Bool.false_ne_true] at h
      rw [if_neg Bool.false_ne_true]
      exact plainTurn_append h ys

/-! ### The loop over a chunk -/

theorem cursorPosition_pos {n : ℕ} (h : cursorPosition bytes = some n) : 0 < n := by
  match bytes, h with
  | b :: b' :: bs, h =>
    rw [cursorPosition, Option.ite_none_right_eq_some] at h
    obtain ⟨-, h⟩ := h
    split at h
    next => cases h
    next =>
      rw [Option.ite_none_right_eq_some, Option.some_inj] at h
      omega

/-- Twice what is left, and one for the block that can still be left. -/
def size (v : Vars) (bytes : Bytes) : ℕ := 2 * bytes.length + v.inBlock.toNat

theorem size_drop_lt {v v' : Vars} (hp : pattern ∈ sequences) (h : bytesStartWith bytes pattern = true) :
    size v' (bytes.drop pattern.length) < size v bytes := by
  have hle := (List.isPrefixOf_iff_prefix.mp h).length_le
  have hpos := sequence_length_pos pattern hp
  have hbit := v'.inBlock.toNat_le
  rw [size, size, List.length_drop]
  omega

theorem size_tail_lt {v v' : Vars} : size v' rest < size v (b :: rest) := by
  have hbit := v'.inBlock.toNat_le
  rw [size, size, List.length_cons]
  omega

theorem plainTurn_shrinks (h : plainTurn v b rest = some (v', out, bytes)) :
    size v' bytes < size v (b :: rest) := by
  rw [plainTurn] at h
  split at h
  next henter =>
    cases h
    exact size_drop_lt (by decide) henter
  next =>
    split at h
    next hexit =>
      cases h
      exact size_drop_lt (by decide) hexit
    next =>
      split at h
      next hhide =>
        cases h
        exact size_drop_lt (by decide) hhide
      next =>
        rw [Option.ite_none_left_eq_some] at h
        obtain ⟨-, h⟩ := h
        cases h
        exact size_tail_lt

theorem byteTurn_shrinks (h : byteTurn v b rest = (v', out, bytes)) :
    size v' bytes < size v (b :: rest) := by
  rw [byteTurn] at h
  split at h
  next n hpos =>
    rw [Option.ite_none_left_eq_some] at hpos
    have hle := (cursorPosition_append hpos.2 []).2
    have hlt := cursorPosition_pos hpos.2
    cases h
    have hbit := v.inBlock.toNat_le
    change 2 * ((b :: rest).drop n).length + v.inBlock.toNat < 2 * (b :: rest).length + v.inBlock.toNat
    rw [List.length_drop]
    omega
  next =>
    rw [pushTurn] at h
    split at h
    next =>
      cases h
      exact size_tail_lt
    next =>
      cases h
      exact size_tail_lt

theorem blockTurn_shrinks (hv : v.inBlock = true) (h : blockTurn v b rest = some (v', out, bytes)) :
    size v' bytes < size v (b :: rest) := by
  rw [blockTurn] at h
  split at h
  next =>
    cases h
    rw [size, size, hv]
    exact Nat.lt_succ_self _
  next =>
    split at h
    next hshow =>
      cases h
      exact size_drop_lt (by decide) hshow
    next =>
      split at h
      next henter =>
        cases h
        exact size_drop_lt (by decide) henter
      next =>
        split at h
        next hexit =>
          cases h
          exact size_drop_lt (by decide) hexit
        next =>
          rw [Option.ite_none_left_eq_some, Option.some_inj] at h
          exact byteTurn_shrinks h.2

theorem turn_shrinks (h : turn v bytes = some (v', out, rest)) : size v' rest < size v bytes := by
  match bytes, h with
  | b :: bs, h =>
    rw [turn] at h
    cases hv : v.inBlock with
    | true =>
      rw [hv, if_pos rfl] at h
      exact blockTurn_shrinks hv h
    | false =>
      rw [hv, if_neg Bool.false_ne_true] at h
      exact plainTurn_shrinks h

def loop : Scanner Vars UInt8 Emit := ⟨turn, size, turn_shrinks⟩

structure Filtered where
  out : Bytes
  state : CursorHideFilterState
  events : List CursorHideEvent
  deriving DecidableEq, Repr

def Emit.byte? : Emit → Option UInt8
  | .byte b => some b
  | .event _ => none

def Emit.event? : Emit → Option CursorHideEvent
  | .byte _ => none
  | .event e => some e

def filterCursorHideBlocksPure (bytes : Bytes) (state : CursorHideFilterState) : Filtered :=
  let (v, emitted, rest) := loop.run state.toVars (state.carry ++ bytes)
  { out := emitted.filterMap Emit.byte?
    state := { (if v.inBlock ∨ rest = [] then v else v.leave) with carry := rest }
    events := emitted.filterMap Emit.event? }

/-! ### Reachable states -/

/-- The states that chunks lead to. -/
inductive Reachable : CursorHideFilterState → Prop
  | empty : Reachable {}
  | chunk {state : CursorHideFilterState} (h : Reachable state) (bytes : Bytes) :
    Reachable (filterCursorHideBlocksPure bytes state).state

/-- Outside of a block nothing is left of one. -/
def Clean (v : Vars) : Prop := v.inBlock = false → v.leave = v

theorem clean_leave (v : Vars) : Clean v.leave := fun _ => rfl

theorem clean_of_inBlock (hv : v.inBlock = true) : Clean v := fun h =>
  absurd (hv.symm.trans h) (by decide)

theorem Clean.plainTurn (hc : Clean v) (hv : v.inBlock = false)
    (h : plainTurn v b rest = some (v', out, bytes)) : Clean v' := by
  have hl := hc hv
  rw [CursorHideFilter.plainTurn] at h
  split at h
  next =>
    cases h
    intro _
    rw [← hl]
    rfl
  next =>
    split at h
    next =>
      cases h
      intro _
      rw [← hl]
      rfl
    next =>
      split at h
      next =>
        cases h
        exact clean_of_inBlock rfl
      next =>
        rw [Option.ite_none_left_eq_some] at h
        obtain ⟨-, h⟩ := h
        cases h
        exact hc

theorem clean_byteTurn (hv : v.inBlock = true) (h : byteTurn v b rest = (v', out, bytes)) : Clean v' := by
  rw [byteTurn] at h
  split at h
  next =>
    cases h
    exact clean_of_inBlock hv
  next =>
    rw [pushTurn] at h
    split at h
    next =>
      cases h
      exact clean_leave v
    next =>
      cases h
      exact clean_of_inBlock hv

theorem clean_blockTurn (hv : v.inBlock = true) (h : blockTurn v b rest = some (v', out, bytes)) :
    Clean v' := by
  rw [blockTurn] at h
  split at h
  next =>
    cases h
    exact clean_leave v
  next =>
    split at h
    next =>
      cases h
      exact clean_leave v
    next =>
      split at h
      next =>
        cases h
        exact clean_of_inBlock hv
      next =>
        split at h
        next =>
          cases h
          exact clean_of_inBlock hv
        next =>
          rw [Option.ite_none_left_eq_some, Option.some_inj] at h
          exact clean_byteTurn hv h.2

theorem Clean.turn (hc : Clean v) (h : turn v bytes = some (v', out, rest)) : Clean v' := by
  match bytes, h with
  | b :: bs, h =>
    rw [CursorHideFilter.turn] at h
    cases hv : v.inBlock with
    | true =>
      rw [hv, if_pos rfl] at h
      exact clean_blockTurn hv h
    | false =>
      rw [hv, if_neg Bool.false_ne_true] at h
      exact hc.plainTurn hv h

theorem Clean.run (hc : Clean v) (bytes : Bytes) : Clean (loop.run v bytes).1 :=
  Scanner.run_invariant (fun h ht => Clean.turn h ht) hc

/-- The state is what the loop ends with. -/
theorem Clean.state_eq (hc : Clean v) (rest : Bytes) : (if v.inBlock ∨ rest = [] then v else v.leave) = v :=
    by
  split
  next => rfl
  next h =>
    rw [not_or, Bool.not_eq_true] at h
    exact hc h.1

theorem Reachable.clean {state : CursorHideFilterState} (h : Reachable state) : Clean state.toVars := by
  induction h with
  | empty => exact fun _ => rfl
  | @chunk state h bytes ih =>
    have hrun := ih.run (state.carry ++ bytes)
    have hv := hrun.state_eq (loop.run state.toVars (state.carry ++ bytes)).2.2
    rw [filterCursorHideBlocksPure]
    dsimp only
    rw [hv]
    exact hrun

/-! ### Two chunks and one -/

/-- The end of the chunk falls into a cursor position that the loop looks for. -/
def endsInPosition (state : CursorHideFilterState) (x y : Bytes) : Bool :=
  (loop.positions state.toVars (state.carry ++ x)).any fun p => cutsPosition p.1 p.2 y

/-- Two chunks are filtered as one, unless the first ends in a cursor position that the loop looks
for and the second completes it. -/
theorem filter_append {state : CursorHideFilterState} (hs : Reachable state) (x y : Bytes)
    (hcut : endsInPosition state x y = false) :
    let first := filterCursorHideBlocksPure x state
    let second := filterCursorHideBlocksPure y first.state
    let one := filterCursorHideBlocksPure (x ++ y) state
    second.state = one.state ∧ first.events ++ second.events = one.events ∧
      first.out ++ second.out = one.out := by
  have hsettled : ∀ p ∈ loop.positions state.toVars (state.carry ++ x), loop.SettledAt y p := by
    intro p hp v' out rest ht
    have hp' := List.any_eq_false.mp hcut p hp
    rw [Bool.not_eq_true] at hp'
    exact turn_append hp' ht
  have happend := Scanner.run_append hsettled
  have hclean := hs.clean.run (state.carry ++ x)
  dsimp only [filterCursorHideBlocksPure]
  rw [hclean.state_eq, ← List.append_assoc, happend]
  refine ⟨rfl, ?_, ?_⟩
  · exact (List.filterMap_append ..).symm
  · exact (List.filterMap_append ..).symm

/-- The update of a status line, cut within the sequence that ends it. -/
theorem statusLine_cut :
    let first := filterCursorHideBlocksPure (encode "\x1b[?25l\x1b[3;1Hok\x1b[?2".toList) {}
    let second := filterCursorHideBlocksPure (encode "5h".toList) first.state
    let one := filterCursorHideBlocksPure
      (encode "\x1b[?25l\x1b[3;1Hok\x1b[?2".toList ++ encode "5h".toList) {}
    second.state = one.state ∧ first.events ++ second.events = one.events ∧
      first.out ++ second.out = one.out :=
  filter_append .empty _ _ (by decide)

/-- Cut within its cursor position, the same update is put out instead of discarded. -/
theorem statusLine_cut_in_position : ¬ ∀ (state : CursorHideFilterState), Reachable state →
    ∀ x y : Bytes,
    let first := filterCursorHideBlocksPure x state
    let second := filterCursorHideBlocksPure y first.state
    let one := filterCursorHideBlocksPure (x ++ y) state
    second.state = one.state ∧ first.events ++ second.events = one.events ∧
      first.out ++ second.out = one.out := by
  intro h
  obtain ⟨-, -, hout⟩ := h {} .empty (encode "\x1b[?25l\x1b[3".toList) (encode ";1Hok\x1b[?25h".toList)
  exact absurd hout (by decide)

end ManyAiCli.Web.CursorHideFilter
