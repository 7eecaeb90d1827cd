import ManyAiCli.Runs.Chunked
import ManyAiCli.Web.CursorHideFilter
import ManyAiCli.Web.HubMarkerFilter
import ManyAiCli.Web.TerminalQueue

/-! The filters between a session's output and its terminal. A flush joins the chunks that wait and
filters them as one. Does that display the same as the chunks one by one? -/

namespace ManyAiCli.Web.DisplayFilters

open Runs CursorHideFilter HubMarkerFilter

/-! ### Sequences that are taken out -/

def synchronizedUpdateSeqBytePatterns : List Bytes := [encode "\x1b[?2026h".toList, encode "\x1b[?2026l".toList]

def eraseScrollbackSeqBytePatterns : List Bytes := [encode "\x1b[3J".toList]

/-- `Math.max(...patterns.map(pattern => pattern.length)) - 1`. -/
def seqCarryLength (patterns : List Bytes) : ℕ := (patterns.map List.length).foldl max 0 - 1

/-- A round of the loop that takes out the patterns; none at its `break`. -/
def stripTurn (patterns : List Bytes) (_ : Unit) : Bytes → Option (Unit × Bytes × Bytes)
  | [] => none
  | b :: rest =>
    match patterns.find? (bytesStartWith (b :: rest)) with
    | some seq => some ((), [], (b :: rest).drop seq.length)
    | none =>
      if (b :: rest).length ≤ seqCarryLength patterns && isPossiblePrefix (b :: rest) patterns then none
      else some ((), [b], rest)

/-! ### Reverse video -/

def isFinal (b : UInt8) : Bool := 0x40 ≤ b && b ≤ 0x7E

/-- The colours that stand for reverse video. -/
def sgr (params : Bytes) : Bytes :=
  let parts := params.splitOn 0x3B
  let filtered := parts.filter fun p => p ≠ encode "7".toList && p ≠ encode "27".toList
  let filtered := if encode "7".toList ∈ parts then
    filtered ++ [encode "48".toList, encode "5".toList, encode "238".toList] else filtered
  let filtered := if encode "27".toList ∈ parts then filtered ++ [encode "49".toList] else filtered
  if filtered = [] then [] else encode "\x1b[".toList ++ [0x3B].intercalate filtered ++ encode "m".toList

/-- At `ESC [`. -/
def csiTurn (tail : Bytes) : Option (Unit × Bytes × Bytes) :=
  match tail.dropWhile (!isFinal ·) with
  | [] => none
  | final :: after =>
    let params := tail.takeWhile (!isFinal ·)
    if final ≠ 0x6D then some ((), 0x1B :: 0x5B :: params ++ [final], after) else some ((), sgr params, after)

/-- At an escape. -/
def escapeTurn : Bytes → Option (Unit × Bytes × Bytes)
  | [] => none
  | c :: tail => if c ≠ 0x5B then some ((), [0x1B], c :: tail) else csiTurn tail

def reverseVideoTurn (_ : Unit) : Bytes → Option (Unit × Bytes × Bytes)
  | [] => none
  | b :: rest => if b ≠ 0x1B then some ((), [b], rest) else escapeTurn rest

/-! ### Carriage returns -/

def eraseLineBytes : Bytes := encode "\x1b[K".toList

/-- At a carriage return. -/
def returnTurn : Bytes → Option (Unit × Bytes × Bytes)
  | [] => none
  | c :: tail => some ((), if c = 0x0A then [0x0D] else 0x0D :: eraseLineBytes, c :: tail)

def bareCarriageReturnTurn (_ : Unit) : Bytes → Option (Unit × Bytes × Bytes)
  | [] => none
  | b :: rest => if b ≠ 0x0D then some ((), [b], rest) else returnTurn rest

/-! ### They are readers -/

variable {patterns : List Bytes} {n : ℕ} {bytes out rest : Bytes} {u u' : Unit}

theorem seqCarryLength_of_length (hne : patterns ≠ []) (hlen : ∀ p ∈ patterns, p.length = n) :
    seqCarryLength patterns = n - 1 := by
  have hmax : ∀ (ps : List Bytes) (m : ℕ), (∀ p ∈ ps, p.length = n) →
      (ps.map List.length).foldl max m = if ps = [] then m else max m n := by
    intro ps
    induction ps with
    | nil => exact fun _ _ => rfl
    | cons p ps ih =>
      intro m h
      obtain ⟨hp, hps⟩ := List.forall_mem_cons.1 h
      rw [List.map_cons, List.foldl_cons, hp, ih _ hps, if_neg (List.cons_ne_nil p ps)]
      split_ifs
      · rfl
      · exact max_eq_left (le_max_right m n)
  rw [seqCarryLength, hmax patterns 0 hlen, if_neg hne, Nat.zero_max]

theorem stripTurn_shrinks (hpos : ∀ p ∈ patterns, 0 < p.length) (h : stripTurn patterns u bytes = some (u', out, rest)) :
    rest.length < bytes.length := by
  match bytes, h with
  | b :: bs, h =>
    rw [stripTurn] at h
    cases hfind : patterns.find? (bytesStartWith (b :: bs)) with
    | some seq =>
      rw [hfind] at h
      cases h
      have hp := hpos seq (List.mem_of_find?_eq_some hfind)
      rw [List.length_drop, List.length_cons]
      omega
    | none =>
      rw [hfind] at h
      dsimp only at h
      split_ifs at h
      cases h
      exact Nat.lt_succ_self _

/-- What is taken out does not depend on what comes after, for the patterns have one length. -/
theorem stripTurn_stable (hlen : ∀ p ∈ patterns, p.length = n) (h : stripTurn patterns u bytes = some (u', out, rest))
    (ys : Bytes) : stripTurn patterns u (bytes ++ ys) = some (u', out, rest ++ ys) := by
  match bytes, h with
  | b :: bs, h =>
    rw [stripTurn] at h
    rw [List.cons_append, stripTurn, ← List.cons_append]
    cases hfind : patterns.find? (bytesStartWith (b :: bs)) with
    | some seq =>
      rw [hfind] at h
      obtain ⟨rfl, rfl, rfl⟩ : () = u' ∧ [] = out ∧ (b :: bs).drop seq.length = rest := by simpa using h
      have hseq : bytesStartWith (b :: bs) seq = true := List.find?_some hfind
      have hle : n ≤ (b :: bs).length := by
        rw [← hlen seq (List.mem_of_find?_eq_some hfind)]
        exact (List.isPrefixOf_iff_prefix.1 hseq).length_le
      have hsettled : isPossiblePrefix (b :: bs) patterns = false :=
        isPossiblePrefix_eq_false.2 fun p hp hlt => by
          have := hlen p hp
          omega
      have hsame : patterns.find? (bytesStartWith (b :: bs ++ ys)) = patterns.find? (bytesStartWith (b :: bs)) :=
        Text.find?_eq_of_agree fun p hp => startWith_append_of_settled hsettled ys p hp
      rw [hsame, hfind]
      dsimp only
      rw [drop_append_of_startWith hseq]
    | none =>
      rw [hfind] at h
      dsimp only at h
      split_ifs at h with hmaybe
      obtain ⟨rfl, rfl, rfl⟩ : () = u' ∧ [b] = out ∧ bs = rest := by simpa using h
      have hsettled : isPossiblePrefix (b :: bs) patterns = false := by
        rw [Bool.and_eq_true, not_and, Bool.not_eq_true] at hmaybe
        by_cases hshort : (b :: bs).length ≤ seqCarryLength patterns
        · exact hmaybe (decide_eq_true hshort)
        · refine isPossiblePrefix_eq_false.2 fun p hp hlt => ?_
          have hp' := hlen p hp
          rw [seqCarryLength_of_length (List.ne_nil_of_mem hp) hlen] at hshort
          omega
      have hsame : patterns.find? (bytesStartWith (b :: bs ++ ys)) = patterns.find? (bytesStartWith (b :: bs)) :=
        Text.find?_eq_of_agree fun p hp => startWith_append_of_settled hsettled ys p hp
      rw [hsame, hfind]
      dsimp only
      rw [isPossiblePrefix_append hsettled, Bool.and_false, if_neg Bool.false_ne_true]

theorem dropWhile_append_of_cons {p : UInt8 → Bool} {s : Bytes} {b : UInt8} {after : Bytes}
    (h : s.dropWhile p = b :: after) (ys : Bytes) :
    (s ++ ys).dropWhile p = b :: after ++ ys ∧ (s ++ ys).takeWhile p = s.takeWhile p := by
  induction s with
  | nil => exact absurd h (by simp)
  | cons c s ih =>
    by_cases hc : p c = true
    · rw [List.dropWhile_cons_of_pos hc] at h
      rw [List.cons_append, List.dropWhile_cons_of_pos hc, List.takeWhile_cons_of_pos hc, List.takeWhile_cons_of_pos hc]
      exact ⟨(ih h).1, congrArg (c :: ·) (ih h).2⟩
    · rw [List.dropWhile_cons_of_neg hc] at h
      rw [List.cons_append, List.dropWhile_cons_of_neg hc, List.takeWhile_cons_of_neg hc, List.takeWhile_cons_of_neg hc,
        ← h]
      exact ⟨rfl, rfl⟩

theorem csiTurn_shrinks (h : csiTurn bytes = some (u, out, rest)) : rest.length < bytes.length := by
  have hle := (List.dropWhile_suffix (!isFinal ·) (l := bytes)).length_le
  rw [csiTurn] at h
  cases hd : bytes.dropWhile (!isFinal ·) with
  | nil => rw [hd] at h; cases h
  | cons final after =>
    rw [hd, List.length_cons] at hle
    rw [hd] at h
    dsimp only at h
    split_ifs at h <;> cases h <;> omega

theorem csiTurn_stable (h : csiTurn bytes = some (u, out, rest)) (ys : Bytes) :
    csiTurn (bytes ++ ys) = some (u, out, rest ++ ys) := by
  rw [csiTurn] at h ⊢
  cases hd : bytes.dropWhile (!isFinal ·) with
  | nil => rw [hd] at h; cases h
  | cons final after =>
    obtain ⟨hdrop, htake⟩ := dropWhile_append_of_cons hd ys
    rw [hd] at h
    rw [hdrop, htake]
    dsimp only [List.cons_append] at h ⊢
    split_ifs at h ⊢ <;> cases h <;> rfl

theorem reverseVideoTurn_shrinks (h : reverseVideoTurn u bytes = some (u', out, rest)) :
    rest.length < bytes.length := by
  match bytes, h with
  | b :: bs, h =>
    rw [reverseVideoTurn] at h
    split_ifs at h
    · cases h
      exact Nat.lt_succ_self _
    · match bs, h with
      | c :: tail, h =>
        rw [escapeTurn] at h
        split_ifs at h
        · cases h
          exact Nat.lt_succ_self _
        · have hlt := csiTurn_shrinks h
          simp only [List.length_cons]
          omega

theorem reverseVideoTurn_stable (h : reverseVideoTurn u bytes = some (u', out, rest)) (ys : Bytes) :
    reverseVideoTurn u (bytes ++ ys) = some (u', out, rest ++ ys) := by
  match bytes, h with
  | b :: bs, h =>
    rw [reverseVideoTurn] at h
    rw [List.cons_append, reverseVideoTurn]
    split_ifs at h ⊢
    · cases h
      rfl
    · match bs, h with
      | c :: tail, h =>
        rw [escapeTurn] at h
        rw [List.cons_append, escapeTurn]
        split_ifs at h ⊢
        · cases h
          rfl
        · exact csiTurn_stable h ys

theorem bareCarriageReturnTurn_shrinks (h : bareCarriageReturnTurn u bytes = some (u', out, rest)) :
    rest.length < bytes.length := by
  match bytes, h with
  | b :: bs, h =>
    rw [bareCarriageReturnTurn] at h
    split_ifs at h
    · cases h
      exact Nat.lt_succ_self _
    · match bs, h with
      | c :: tail, h =>
        cases h
        exact Nat.lt_succ_self _

theorem bareCarriageReturnTurn_stable (h : bareCarriageReturnTurn u bytes = some (u', out, rest)) (ys : Bytes) :
    bareCarriageReturnTurn u (bytes ++ ys) = some (u', out, rest ++ ys) := by
  match bytes, h with
  | b :: bs, h =>
    rw [bareCarriageReturnTurn] at h
    rw [List.cons_append, bareCarriageReturnTurn]
    split_ifs at h ⊢
    · cases h
      rfl
    · match bs, h with
      | c :: tail, h =>
        cases h
        rfl

/-! ### The filters -/

theorem sync_length : ∀ p ∈ synchronizedUpdateSeqBytePatterns, p.length = 8 := by decide

theorem erase_length : ∀ p ∈ eraseScrollbackSeqBytePatterns, p.length = 4 := by decide

theorem pos_of_length (h : ∀ p ∈ patterns, p.length = n + 1) : ∀ p ∈ patterns, 0 < p.length := fun p hp => by
  rw [h p hp]
  exact Nat.succ_pos n

theorem stripSync_shrinks {s s' : Unit} {xs out rest : Bytes}
    (h : stripTurn synchronizedUpdateSeqBytePatterns s xs = some (s', out, rest)) : rest.length < xs.length :=
  stripTurn_shrinks (pos_of_length sync_length) h

theorem stripErase_shrinks {s s' : Unit} {xs out rest : Bytes}
    (h : stripTurn eraseScrollbackSeqBytePatterns s xs = some (s', out, rest)) : rest.length < xs.length :=
  stripTurn_shrinks (pos_of_length erase_length) h

def syncReader : Reader Unit UInt8 UInt8 where
  turn := stripTurn synchronizedUpdateSeqBytePatterns
  shrinks := stripSync_shrinks
  stable := stripTurn_stable sync_length

def eraseReader : Reader Unit UInt8 UInt8 where
  turn := stripTurn eraseScrollbackSeqBytePatterns
  shrinks := stripErase_shrinks
  stable := stripTurn_stable erase_length

def reverseVideoReader : Reader Unit UInt8 UInt8 where
  turn := reverseVideoTurn
  shrinks := reverseVideoTurn_shrinks
  stable := reverseVideoTurn_stable

def bareCarriageReturnReader : Reader Unit UInt8 UInt8 where
  turn := bareCarriageReturnTurn
  shrinks := bareCarriageReturnTurn_shrinks
  stable := bareCarriageReturnTurn_stable

/-- The provider of the session. -/
inductive Provider
  | codex
  | grok
  | other
  deriving DecidableEq, Repr

/-- What a filter without variables carries over. -/
abbrev Carry := Unit × Bytes

def filterHubMarkersForDisplay : ChunkFilter HubMarkerFilterState UInt8 UInt8 := fun s x =>
  filterHubMarkersPure x s

def filterReverseVideoForDisplay : ChunkFilter Carry UInt8 UInt8 := reverseVideoReader.chunkFilter

def filterEraseScrollbackForDisplay (provider : Provider) : ChunkFilter Carry UInt8 UInt8 := fun s x =>
  if provider ≠ .codex then (x, s) else eraseReader.chunkFilter s x

def filterCursorHideShowBlocksForDisplay (provider : Provider) : ChunkFilter CursorHideFilterState UInt8 UInt8 :=
  fun s x =>
    if provider = .grok then (x, s)
    else
      let filtered := filterCursorHideBlocksPure x s
      (filtered.out, filtered.state)

def filterBareCarriageReturnForDisplay : ChunkFilter Carry UInt8 UInt8 := bareCarriageReturnReader.chunkFilter

def filterSynchronizedUpdateForDisplay : ChunkFilter Carry UInt8 UInt8 := syncReader.chunkFilter

/-- The filters in front of the one for hidden cursors. -/
def frontFilters (provider : Provider) : ChunkFilter ((HubMarkerFilterState × Carry) × Carry) UInt8 UInt8 :=
  (filterHubMarkersForDisplay.andThen filterReverseVideoForDisplay).andThen (filterEraseScrollbackForDisplay provider)

/-- What the filters of a terminal carry over. -/
abbrev FilterState := ((((HubMarkerFilterState × Carry) × Carry) × CursorHideFilterState) × Carry) × Carry

/-- The `displayBytes` of `writePTYChunk`. -/
def writePTYChunk (provider : Provider) : ChunkFilter FilterState UInt8 UInt8 :=
  (((frontFilters provider).andThen (filterCursorHideShowBlocksForDisplay provider)).andThen
    filterBareCarriageReturnForDisplay).andThen filterSynchronizedUpdateForDisplay

/-- A terminal without output. -/
def emptyFilters : FilterState := ((((({}, ((), [])), ((), [])), {}), ((), [])), ((), []))

/-- What comes in front of the filter for hidden cursors, and that filter's state. -/
def FilterState.front (s : FilterState) : (HubMarkerFilterState × Carry) × Carry := s.1.1.1

def FilterState.hide (s : FilterState) : CursorHideFilterState := s.1.1.2

/-! ### Joined chunks -/

/-- The chunk `x` ends within a cursor position that the filter for hidden cursors looks for, and `y`
completes it. A session of grok goes past that filter. -/
def cutsPosition (provider : Provider) (s : FilterState) (x y : Bytes) : Bool :=
  let first := frontFilters provider s.front x
  provider ≠ .grok && endsInPosition s.hide first.1 (frontFilters provider first.2 y).1

/-- No chunk ends within a cursor position that the rest completes. -/
def Uncut (provider : Provider) : FilterState → List Bytes → Prop
  | _, [] => True
  | s, chunk :: chunks =>
    cutsPosition provider s chunk chunks.flatten = false ∧ Uncut provider (writePTYChunk provider s chunk).2 chunks

variable {provider : Provider} {s : FilterState} {x y : Bytes}

theorem joins_hubMarkers (s : HubMarkerFilterState) (x y : Bytes) : filterHubMarkersForDisplay.Joins s x y := by
  simp only [ChunkFilter.Joins, filterHubMarkersForDisplay, filterHubMarkersPure, Option.getD_some, ← List.append_assoc]
  rw [Reader.run_append]

theorem joins_front (s : (HubMarkerFilterState × Carry) × Carry) (x y : Bytes) :
    (frontFilters provider).Joins s x y := by
  refine ChunkFilter.Joins.andThen (ChunkFilter.Joins.andThen (joins_hubMarkers ..) (Reader.joins_chunkFilter ..)) ?_
  by_cases hp : provider ≠ .codex
  · simp only [ChunkFilter.Joins, filterEraseScrollbackForDisplay, if_pos hp]
  · simp only [ChunkFilter.Joins, filterEraseScrollbackForDisplay, if_neg hp]
    exact Reader.joins_chunkFilter ..

theorem joins_cursorHide {s : CursorHideFilterState} (hs : Reachable s)
    (hcut : (decide (provider ≠ .grok) && endsInPosition s x y) = false) :
    (filterCursorHideShowBlocksForDisplay provider).Joins s x y := by
  by_cases hp : provider = .grok
  · simp only [ChunkFilter.Joins, filterCursorHideShowBlocksForDisplay, if_pos hp]
  · have hend : endsInPosition s x y = false := by simpa [hp] using hcut
    have hsettled : ∀ p ∈ loop.positions s.toVars (s.carry ++ x), loop.SettledAt y p := by
      intro p hmem v' out rest ht
      have hpos := List.any_eq_false.mp hend p hmem
      rw [Bool.not_eq_true] at hpos
      exact turn_append hpos ht
    simp only [ChunkFilter.Joins, filterCursorHideShowBlocksForDisplay, if_neg hp, filterCursorHideBlocksPure]
    rw [(hs.clean.run (s.carry ++ x)).state_eq, ← List.append_assoc, Scanner.run_append hsettled,
      List.filterMap_append]

theorem joins_writePTYChunk (hs : Reachable s.hide) (hcut : cutsPosition provider s x y = false) :
    (writePTYChunk provider).Joins s x y :=
  (((joins_front s.front x y).andThen (joins_cursorHide hs hcut)).andThen (Reader.joins_chunkFilter ..)).andThen
    (Reader.joins_chunkFilter ..)

theorem reachable_writePTYChunk (hs : Reachable s.hide) (x : Bytes) :
    Reachable (writePTYChunk provider s x).2.hide := by
  show Reachable (filterCursorHideShowBlocksForDisplay provider s.hide (frontFilters provider s.front x).1).2
  rw [filterCursorHideShowBlocksForDisplay]
  split_ifs
  · exact hs
  · exact hs.chunk _

theorem joinsAll_of_uncut {chunks : List Bytes} (hs : Reachable s.hide) (h : Uncut provider s chunks) :
    (writePTYChunk provider).JoinsAll s chunks := by
  induction chunks generalizing s with
  | nil => trivial
  | cons chunk chunks ih => exact ⟨fun _ => joins_writePTYChunk hs h.1, ih (reachable_writePTYChunk hs chunk) h.2⟩

theorem reachable_feed (hs : Reachable s.hide) (chunks : List Bytes) :
    Reachable ((writePTYChunk provider).feed s chunks).2.hide := by
  induction chunks generalizing s with
  | nil => exact hs
  | cons chunk chunks ih => exact ih (reachable_writePTYChunk hs chunk)

/-! ### What a terminal displays -/

/-- `resetTerminalHistoryForSession` drops what the filter for markers carries over. -/
def FilterState.reset (s : FilterState) : FilterState :=
  ((((({ s.front.1.1 with carry := [] }, s.front.1.2), s.front.2), s.hide), s.1.2), s.2)

/-- What the terminal is given for the events of a queue: each write filters its chunks `asOne` or one
by one. -/
def displayed (provider : Provider) (asOne : Bool) : FilterState → List TerminalQueue.Event → Bytes × FilterState
  | s, [] => ([], s)
  | s, .written chunks :: es =>
    let chunks := chunks.map (·.bytes)
    let written := (writePTYChunk provider).feed s (if asOne then [chunks.flatten] else chunks)
    let next := displayed provider asOne written.2 es
    (written.1 ++ next.1, next.2)
  | s, .dropped .. :: es => displayed provider asOne s es
  | s, .cleared _ :: es => displayed provider asOne s.reset es

/-- In no write a chunk ends within a cursor position that the rest completes. -/
def UncutWrites (provider : Provider) : FilterState → List TerminalQueue.Event → Prop
  | _, [] => True
  | s, .written chunks :: es =>
    let chunks := chunks.map (·.bytes)
    Uncut provider s chunks ∧ UncutWrites provider ((writePTYChunk provider).feed s chunks).2 es
  | s, .dropped .. :: es => UncutWrites provider s es
  | s, .cleared _ :: es => UncutWrites provider s.reset es

theorem displayed_asOne {es : List TerminalQueue.Event} (hs : Reachable s.hide) (hneeded : ∀ e ∈ es, e.Needed)
    (h : UncutWrites provider s es) : displayed provider true s es = displayed provider false s es := by
  induction es generalizing s with
  | nil => rfl
  | cons e es ih =>
    obtain ⟨he, hes⟩ := List.forall_mem_cons.1 hneeded
    cases e with
    | dropped gone kept => exact ih hs hes h
    | cleared chunks => exact ih hs hes h
    | written chunks =>
      obtain ⟨hcut, hrest⟩ := h
      have hne : chunks.map (·.bytes) ≠ [] := fun hnil => he (List.map_eq_nil_iff.1 hnil)
      have hone : (writePTYChunk provider).feed s [(chunks.map (·.bytes)).flatten] =
          (writePTYChunk provider).feed s (chunks.map (·.bytes)) := by
        rw [ChunkFilter.feed, ChunkFilter.feed, (joinsAll_of_uncut hs hcut).flatten hne, List.append_nil]
      rw [displayed, displayed, if_pos rfl, if_neg Bool.false_ne_true, hone]
      rw [ih (reachable_feed hs _) hes hrest]

/-- A session of grok goes past the filter that looks for positions. -/
theorem uncutWrites_grok (es : List TerminalQueue.Event) (s : FilterState) : UncutWrites .grok s es := by
  have huncut : ∀ (chunks : List Bytes) (s : FilterState), Uncut .grok s chunks := by
    intro chunks
    induction chunks with
    | nil => exact fun _ => trivial
    | cons chunk chunks ih => exact fun s => ⟨rfl, ih _⟩
  induction es generalizing s with
  | nil => trivial
  | cons e es ih =>
    cases e with
    | written chunks => exact ⟨huncut _ s, ih _⟩
    | dropped gone kept => exact ih s
    | cleared chunks => exact ih _

/-- Whatever the queue joins, the terminal is given the same bytes as by writing each chunk by itself,
and its filters end in the same state: for grok always, and else where no chunk ends within a cursor
position that the filter for hidden cursors looks for. -/
theorem joined_writes_display_same {run : List TerminalQueue.Step} {q : TerminalQueue.Queue}
    {es : List TerminalQueue.Event} (hx : exec TerminalQueue.Queue.step TerminalQueue.start run = some (q, es))
    (huncut : provider = .grok ∨ UncutWrites provider emptyFilters es) :
    displayed provider true emptyFilters es = displayed provider false emptyFilters es := by
  have hstart : Reachable emptyFilters.hide := .empty
  refine displayed_asOne hstart (TerminalQueue.run_needed hx) (huncut.elim (fun hp => ?_) id)
  exact hp ▸ uncutWrites_grok es emptyFilters

theorem joined_writes_display_same_cut :
    ∃ q es, exec TerminalQueue.Queue.step TerminalQueue.start
        [.ptyData false (encode "\x1b[?202".toList) 0, .ptyData false (encode "6hA\r".toList) 0, .flush] =
          some (q, es) ∧
      displayed .grok true emptyFilters es = displayed .grok false emptyFilters es := by
  refine ⟨_, _, rfl, ?_⟩
  exact joined_writes_display_same (rfl : exec TerminalQueue.Queue.step TerminalQueue.start
    [.ptyData false (encode "\x1b[?202".toList) 0, .ptyData false (encode "6hA\r".toList) 0, .flush] =
      some (_, _)) (.inl rfl)

end ManyAiCli.Web.DisplayFilters
