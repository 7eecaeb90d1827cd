import ManyAiCli.Runs.Reader
import ManyAiCli.Text.Cut
import ManyAiCli.Text.Regexp

/-! The filter of the terminal's bytes, in chunks: the tags of the hub's blocks are taken out,
and what is in a block is put out at its end, without escape sequences. Does it matter where
the chunks are cut? -/

namespace ManyAiCli.Web.HubMarkerFilter

open Runs Text

abbrev Bytes := List UInt8

/-! ### Text of a block -/

/-- `TextEncoder.encode`. -/
def encode (s : List Char) : Bytes := s.flatMap String.utf8EncodeChar

/-- A code point that is not complete: the bytes it needs still, the range of the next one, and
its bits so far. -/
structure Partial where
  needed : ℕ
  lower : UInt8
  upper : UInt8
  bits : ℕ

/-- A byte that no code point is waiting for. -/
def leadByte (b : UInt8) : List Char × Option Partial :=
  if b ≤ 0x7F then ([Char.ofNat b.toNat], none)
  else if 0xC2 ≤ b ∧ b ≤ 0xDF then ([], some ⟨1, 0x80, 0xBF, b.toNat % 32⟩)
  else if 0xE0 ≤ b ∧ b ≤ 0xEF then
    ([], some ⟨2, if b = 0xE0 then 0xA0 else 0x80, if b = 0xED then 0x9F else 0xBF, b.toNat % 16⟩)
  else if 0xF0 ≤ b ∧ b ≤ 0xF4 then
    ([], some ⟨3, if b = 0xF0 then 0x90 else 0x80, if b = 0xF4 then 0x8F else 0xBF, b.toNat % 8⟩)
  else (['\uFFFD'], none)

/-- The decoder of UTF-8 that puts a replacement character for each maximal part of a code point. -/
def decodeFrom : Option Partial → Bytes → List Char
  | none, [] => []
  | some _, [] => ['\uFFFD']
  | none, b :: bs => (leadByte b).1 ++ decodeFrom (leadByte b).2 bs
  | some p, b :: bs =>
    if p.lower ≤ b ∧ b ≤ p.upper then
      let bits := p.bits * 64 + b.toNat % 64
      if p.needed = 1 then Char.ofNat bits :: decodeFrom none bs
      else decodeFrom (some ⟨p.needed - 1, 0x80, 0xBF, bits⟩) bs
    else '\uFFFD' :: (leadByte b).1 ++ decodeFrom (leadByte b).2 bs

/-- `TextDecoder.decode`, which drops a byte order mark. -/
def decode (bytes : Bytes) : List Char :=
  decodeFrom none (if [0xEF, 0xBB, 0xBF].isPrefixOf bytes then bytes.drop 3 else bytes)

/-- `replace` of all matches by nothing; the first number of characters is in one. -/
def replaceAll (re : Regexp) : ℕ → List Char → List Char
  | _, [] => []
  | skip + 1, _ :: s => replaceAll re skip s
  | 0, c :: s =>
    match (re.ends ⟨0, c :: s, []⟩).head? with
    | some m => if m.pos = 0 then c :: replaceAll re 0 s else replaceAll re (m.pos - 1) s
    | none => c :: replaceAll re 0 s

def between (lo hi c : Char) : Bool := lo ≤ c && c ≤ hi

def ansiOscRe : Regexp :=
  .cat [.lit "\x1b]", .many (.char fun c => c ≠ '\x07' && c ≠ '\x1b'), .oneOf [.lit "\x07", .lit "\x1b\\"]]

def ansiCsiRe : Regexp :=
  .cat [.lit "\x1b[", .many (.char (between '0' '?')), .many (.char (between ' ' '/')), .char (between '@' '~')]

def ansiEscSingleRe : Regexp :=
  .cat [.lit "\x1b", .char fun c => between '@' 'Z' c || between '\\' '_' c]

def ansiEscBareRe : Regexp := .lit "\x1b"

def stripAnsiFromString (s : List Char) : List Char :=
  replaceAll ansiEscBareRe 0 (replaceAll ansiEscSingleRe 0 (replaceAll ansiCsiRe 0 (replaceAll ansiOscRe 0 s)))

/-! ### Markers -/

def hubMarkerOpenBytes : Bytes := encode "[MANY-AI-CLI]".toList

def hubMarkerEndBytes : Bytes := encode "[/MANY-AI-CLI]".toList

def hubMarkerBytePatterns : List Bytes := [hubMarkerOpenBytes, hubMarkerEndBytes]

def hubDoneMarkerOpen : Bytes := encode "[MANY-AI-CLI-DONE]".toList

def hubDoneMarkerClose : Bytes := encode "[/MANY-AI-CLI-DONE]".toList

def eraseDisplayBelowBytes : Bytes := encode "\x1b[J".toList

def maxMarkerBufferBytes : ℕ := 32 * 1024

/-- Of what is left from the offset on, here and below. -/
def bytesStartWith (bytes pattern : Bytes) : Bool := pattern.isPrefixOf bytes

def isPossiblePrefix (bytes : Bytes) (patterns : List Bytes) : Bool :=
  patterns.any fun pattern => bytes.length < pattern.length && bytes.isPrefixOf pattern

def isPossibleMarkerPrefix (bytes : Bytes) : Bool :=
  isPossiblePrefix bytes hubMarkerBytePatterns || isPossiblePrefix bytes [hubDoneMarkerOpen]

structure HubMarkerFilterState where
  carry : Bytes := []
  inDone : Bool := false
  inMarker : Bool := false
  markerBuf : Bytes := []
  doneBuf : Bytes := []
  lineStart : Option Bool := none
  escPhase : Option ℕ := none
  deriving DecidableEq, Repr

/-- The variables of the loop. -/
structure Vars where
  inDone : Bool
  inMarker : Bool
  markerBuf : Bytes
  doneBuf : Bytes
  lineStart : Bool
  escPhase : ℕ
  deriving DecidableEq, Repr

def trackByte (v : Vars) (b : UInt8) : Vars :=
  match v.escPhase with
  | 1 => { v with escPhase := if b = 0x5B then 2 else if b = 0x5D then 3 else 0 }
  | 2 =>
    if 0x40 ≤ b ∧ b ≤ 0x7E then
      { v with escPhase := 0, lineStart := v.lineStart || b = 0x48 || b = 0x66 }
    else v
  | 3 => if b = 0x07 then { v with escPhase := 0 } else if b = 0x1B then { v with escPhase := 1 } else v
  | _ =>
    if b = 0x1B then { v with escPhase := 1 }
    else if b = 0x0A ∨ b = 0x0D then { v with lineStart := true }
    else if b = 0x20 ∨ b = 0x09 ∨ b < 0x20 then v
    else { v with lineStart := false }

def flushBufToOut (buf : Bytes) : Bytes := if buf = [] then [] else encode (stripAnsiFromString (decode buf))

/-- In a done block. -/
def doneTurn (v : Vars) (b : UInt8) (rest : Bytes) : Option (Vars × Bytes × Bytes) :=
  if bytesStartWith (b :: rest) hubDoneMarkerClose then
    some ({ v with inDone := false, lineStart := false, doneBuf := [] },
      flushBufToOut v.doneBuf ++ eraseDisplayBelowBytes, (b :: rest).drop hubDoneMarkerClose.length)
  else if isPossiblePrefix (b :: rest) [hubDoneMarkerClose] then none
  else
    let doneBuf := v.doneBuf ++ [b]
    if doneBuf.length > maxMarkerBufferBytes then
      some ({ v with inDone := false, lineStart := false, doneBuf := [] }, [], rest)
    else some ({ v with doneBuf := doneBuf }, [], rest)

def passTurn (v : Vars) (b : UInt8) (rest : Bytes) : Option (Vars × Bytes × Bytes) :=
  some (trackByte v b, [b], rest)

/-- At a tag, where it counts as one. -/
def markerTurn (v : Vars) (bytes marker : Bytes) : Option (Vars × Bytes × Bytes) :=
  if marker = hubMarkerEndBytes then
    some ({ v with lineStart := false, inMarker := false, markerBuf := [] },
      flushBufToOut v.markerBuf ++ eraseDisplayBelowBytes, bytes.drop marker.length)
  else some ({ v with lineStart := false, inMarker := true }, [], bytes.drop marker.length)

def bodyTurn (v : Vars) (b : UInt8) (rest : Bytes) : Option (Vars × Bytes × Bytes) :=
  let markerBuf := v.markerBuf ++ [b]
  if markerBuf.length > maxMarkerBufferBytes then
    some ({ v with inMarker := false, lineStart := false, markerBuf := [] }, [], rest)
  else some ({ v with markerBuf := markerBuf }, [], rest)

/-- One round of the loop of `filterHubMarkersPure`; none at its `break`. -/
def turn (v : Vars) : Bytes → Option (Vars × Bytes × Bytes)
  | [] => none
  | b :: rest =>
    if v.inDone then doneTurn v b rest
    else if bytesStartWith (b :: rest) hubDoneMarkerOpen then
      if v.lineStart then
        some ({ v with inDone := true, lineStart := false }, [], (b :: rest).drop hubDoneMarkerOpen.length)
      else passTurn v b rest
    else match hubMarkerBytePatterns.find? (bytesStartWith (b :: rest)) with
      | some marker => if v.inMarker || v.lineStart then markerTurn v (b :: rest) marker else passTurn v b rest
      | none =>
        if (v.inMarker || v.lineStart) && isPossibleMarkerPrefix (b :: rest) then none
        else if v.inMarker then bodyTurn v b rest
        else passTurn v b rest

/-! ### What comes after a turn makes no difference to it -/

variable {v v' : Vars} {b : UInt8} {bytes rest ys pattern marker out : Bytes} {patterns : List Bytes}

theorem drop_append_of_startWith (h : bytesStartWith bytes pattern = true) (ys : Bytes) :
    (bytes ++ ys).drop pattern.length = bytes.drop pattern.length ++ ys :=
  List.drop_append_of_le_length (List.isPrefixOf_iff_prefix.1 h).length_le

theorem startWith_append (h : bytesStartWith bytes pattern = true) (ys : Bytes) :
    bytesStartWith (bytes ++ ys) pattern = true :=
  List.isPrefixOf_iff_prefix.2 ((List.isPrefixOf_iff_prefix.1 h).trans (List.prefix_append bytes ys))

theorem isPossiblePrefix_eq_false : isPossiblePrefix bytes patterns = false ↔
    ∀ pattern ∈ patterns, ¬ (bytes.length < pattern.length ∧ bytes <+: pattern) := by
  rw [isPossiblePrefix, List.any_eq_false]
  refine forall₂_congr fun pattern _ => ?_
  rw [Bool.and_eq_true, decide_eq_true_iff, List.isPrefixOf_iff_prefix]

theorem isPossiblePrefix_append (h : isPossiblePrefix bytes patterns = false) (ys : Bytes) :
    isPossiblePrefix (bytes ++ ys) patterns = false := by
  rw [isPossiblePrefix_eq_false] at h ⊢
  intro pattern hp ⟨hlen, hle⟩
  rw [List.length_append] at hlen
  exact h pattern hp ⟨by omega, (List.prefix_append bytes ys).trans hle⟩

/-- Where no pattern can begin any more, none does. -/
theorem startWith_append_of_settled (h : isPossiblePrefix bytes patterns = false) (ys : Bytes) :
    ∀ pattern ∈ patterns, bytesStartWith (bytes ++ ys) pattern = bytesStartWith bytes pattern := by
  intro pattern hp
  cases hs : bytesStartWith bytes pattern with
  | true => exact startWith_append hs ys
  | false =>
    rw [Bool.eq_false_iff] at hs ⊢
    intro hs'
    have hle := List.isPrefixOf_iff_prefix.1 hs'
    rcases Nat.lt_or_ge bytes.length pattern.length with hlen | hlen
    · have hbytes := List.prefix_of_prefix_length_le (List.prefix_append bytes ys) hle (Nat.le_of_lt hlen)
      exact (isPossiblePrefix_eq_false.1 h) pattern hp ⟨hlen, hbytes⟩
    · have hpattern := List.prefix_of_prefix_length_le hle (List.prefix_append bytes ys) hlen
      exact hs (List.isPrefixOf_iff_prefix.2 hpattern)

/-- The tags that begin a turn outside of a done block. -/
def tags : List Bytes := hubDoneMarkerOpen :: hubMarkerBytePatterns

/-- No tag begins with another one. -/
theorem tag_unique : ∀ p ∈ tags, ∀ q ∈ tags, p.isPrefixOf q = true → p = q := by
  decide

theorem eq_of_tags {p q : Bytes} (hp : p ∈ tags) (hq : q ∈ tags) (hps : bytesStartWith bytes p = true)
    (hqs : bytesStartWith bytes q = true) : p = q := by
  have hp' := List.isPrefixOf_iff_prefix.1 hps
  have hq' := List.isPrefixOf_iff_prefix.1 hqs
  rcases Nat.le_total p.length q.length with hle | hle
  · exact tag_unique p hp q hq (List.isPrefixOf_iff_prefix.2 (List.prefix_of_prefix_length_le hp' hq' hle))
  · exact (tag_unique q hq p hp (List.isPrefixOf_iff_prefix.2 (List.prefix_of_prefix_length_le hq' hp' hle))).symm

/-- A tag that is there is there whatever follows, and is the only one. -/
theorem startWith_append_of_tag (hm : marker ∈ tags) (h : bytesStartWith bytes marker = true) (ys : Bytes) :
    ∀ p ∈ tags, bytesStartWith (bytes ++ ys) p = bytesStartWith bytes p := by
  intro p hp
  cases hs : bytesStartWith bytes p with
  | true => exact startWith_append hs ys
  | false =>
    rw [Bool.eq_false_iff] at hs ⊢
    intro hs'
    obtain rfl := eq_of_tags hp hm hs' (startWith_append h ys)
    exact hs h

theorem passTurn_append (h : passTurn v b rest = some (v', out, bytes)) (ys : Bytes) :
    passTurn v b (rest ++ ys) = some (v', out, bytes ++ ys) := by
  cases h
  rfl

theorem bodyTurn_append (h : bodyTurn v b rest = some (v', out, bytes)) (ys : Bytes) :
    bodyTurn v b (rest ++ ys) = some (v', out, bytes ++ ys) := by
  unfold bodyTurn at h ⊢
  dsimp only at h ⊢
  split_ifs at h ⊢ with hlen
  all_goals
    cases h
    rfl

theorem markerTurn_append (hm : bytesStartWith bytes marker = true)
    (h : markerTurn v bytes marker = some (v', out, rest)) (ys : Bytes) :
    markerTurn v (bytes ++ ys) marker = some (v', out, rest ++ ys) := by
  unfold markerTurn at h ⊢
  rw [drop_append_of_startWith hm]
  split_ifs at h ⊢ with hend
  all_goals
    cases h
    rfl

theorem doneTurn_append (h : doneTurn v b rest = some (v', out, bytes)) (ys : Bytes) :
    doneTurn v b (rest ++ ys) = some (v', out, bytes ++ ys) := by
  unfold doneTurn at h ⊢
  rw [← List.cons_append]
  by_cases hclose : bytesStartWith (b :: rest) hubDoneMarkerClose = true
  · rw [if_pos hclose] at h
    rw [if_pos (startWith_append hclose ys), drop_append_of_startWith hclose]
    cases h
    rfl
  · rw [if_neg hclose] at h
    by_cases hmaybe : isPossiblePrefix (b :: rest) [hubDoneMarkerClose] = true
    · rw [if_pos hmaybe] at h
      cases h
    · rw [if_neg hmaybe] at h
      rw [Bool.not_eq_true] at hmaybe
      have hsame := startWith_append_of_settled hmaybe ys hubDoneMarkerClose (List.mem_singleton_self _)
      rw [hsame, if_neg hclose, isPossiblePrefix_append hmaybe, if_neg Bool.false_ne_true]
      dsimp only at h ⊢
      split_ifs at h ⊢ with hlen
      all_goals
        cases h
        rfl

/-- In the midst of a line every byte passes. -/
theorem turn_of_midst (hdone : v.inDone = false) (hgate : (v.inMarker || v.lineStart) = false) (b : UInt8)
    (rest : Bytes) : turn v (b :: rest) = passTurn v b rest := by
  obtain ⟨hmarker, hline⟩ := Bool.or_eq_false_iff.1 hgate
  simp only [turn, hdone, hmarker, hline, Bool.or_self, Bool.false_and, Bool.false_eq_true, if_false]
  split
  · rfl
  · split <;> rfl

theorem turn_stable (h : turn v bytes = some (v', out, rest)) (ys : Bytes) :
    turn v (bytes ++ ys) = some (v', out, rest ++ ys) := by
  cases bytes with
  | nil => cases h
  | cons b bs =>
    by_cases hdone : v.inDone = true
    · rw [turn, if_pos hdone] at h
      rw [List.cons_append, turn, if_pos hdone]
      exact doneTurn_append h ys
    · cases hgate : v.inMarker || v.lineStart with
      | false =>
        rw [turn_of_midst (Bool.eq_false_iff.2 hdone) hgate] at h
        rw [List.cons_append, turn_of_midst (Bool.eq_false_iff.2 hdone) hgate]
        exact passTurn_append h ys
      | true =>
        rw [turn, if_neg hdone] at h
        rw [List.cons_append, turn, if_neg hdone, ← List.cons_append]
        by_cases hopen : bytesStartWith (b :: bs) hubDoneMarkerOpen = true
        · rw [if_pos hopen] at h
          rw [if_pos (startWith_append hopen ys)]
          split_ifs at h ⊢ with hline
          · rw [drop_append_of_startWith hopen]
            cases h
            rfl
          · exact passTurn_append h ys
        · rw [if_neg hopen] at h
          cases hfind : hubMarkerBytePatterns.find? (bytesStartWith (b :: bs)) with
          | some marker =>
            have hmarker : bytesStartWith (b :: bs) marker = true := List.find?_some hfind
            have htag : marker ∈ tags := List.mem_cons_of_mem _ (List.mem_of_find?_eq_some hfind)
            have hsame := startWith_append_of_tag htag hmarker ys
            have hfind' : hubMarkerBytePatterns.find? (bytesStartWith (b :: bs ++ ys)) = some marker :=
              (find?_eq_of_agree fun p hp => hsame p (List.mem_cons_of_mem _ hp)).trans hfind
            simp only [hfind, hgate, if_true] at h
            simp only [hsame _ (List.mem_cons_self ..), if_neg hopen, hfind', hgate, if_true]
            exact markerTurn_append hmarker h ys
          | none =>
            simp only [hfind, hgate, Bool.true_and] at h
            by_cases hmaybe : isPossibleMarkerPrefix (b :: bs) = true
            · rw [if_pos hmaybe] at h
              cases h
            · rw [if_neg hmaybe] at h
              obtain ⟨hpatterns, hdoneOpen⟩ := Bool.or_eq_false_iff.1 (Bool.eq_false_iff.2 hmaybe)
              have hsame := startWith_append_of_settled hdoneOpen ys _ (List.mem_singleton_self _)
              have hfind' : hubMarkerBytePatterns.find? (bytesStartWith (b :: bs ++ ys)) = none :=
                (find?_eq_of_agree (startWith_append_of_settled hpatterns ys)).trans hfind
              have hmaybe' : isPossibleMarkerPrefix (b :: bs ++ ys) = false :=
                Bool.or_eq_false_iff.2 ⟨isPossiblePrefix_append hpatterns ys, isPossiblePrefix_append hdoneOpen ys⟩
              simp only [hsame, if_neg hopen, hfind', hmaybe', hgate, Bool.true_and, Bool.false_eq_true, if_false]
              split_ifs at h ⊢ with hmarker
              · exact bodyTurn_append h ys
              · exact passTurn_append h ys

/-! ### Turns take something -/

theorem tag_ne_nil : ∀ p ∈ hubDoneMarkerClose :: tags, 0 < p.length := by decide

theorem drop_shrinks (hp : pattern ∈ hubDoneMarkerClose :: tags) :
    ((b :: rest).drop pattern.length).length < (b :: rest).length := by
  have hlen := tag_ne_nil pattern hp
  rw [List.length_drop, List.length_cons]
  omega

theorem passTurn_shrinks (h : passTurn v b rest = some (v', out, bytes)) : bytes.length < (b :: rest).length := by
  cases h
  exact Nat.lt_succ_self _

theorem bodyTurn_shrinks (h : bodyTurn v b rest = some (v', out, bytes)) : bytes.length < (b :: rest).length := by
  unfold bodyTurn at h
  dsimp only at h
  split_ifs at h with hlen
  all_goals
    cases h
    exact Nat.lt_succ_self _

theorem doneTurn_shrinks (h : doneTurn v b rest = some (v', out, bytes)) : bytes.length < (b :: rest).length := by
  unfold doneTurn at h
  dsimp only at h
  split_ifs at h with hclose hmaybe hlen
  · cases h
    exact drop_shrinks (List.mem_cons_self ..)
  · cases h
    exact Nat.lt_succ_self _
  · cases h
    exact Nat.lt_succ_self _

theorem markerTurn_shrinks (hm : marker ∈ tags) (h : markerTurn v (b :: rest) marker = some (v', out, bytes)) :
    bytes.length < (b :: rest).length := by
  unfold markerTurn at h
  split_ifs at h with hend
  all_goals
    cases h
    exact drop_shrinks (List.mem_cons_of_mem _ hm)

theorem turn_shrinks (h : turn v bytes = some (v', out, rest)) : rest.length < bytes.length := by
  cases bytes with
  | nil => cases h
  | cons b bs =>
    rw [turn] at h
    by_cases hdone : v.inDone = true
    · rw [if_pos hdone] at h
      exact doneTurn_shrinks h
    · rw [if_neg hdone] at h
      by_cases hopen : bytesStartWith (b :: bs) hubDoneMarkerOpen = true
      · rw [if_pos hopen] at h
        by_cases hline : v.lineStart = true
        · rw [if_pos hline] at h
          cases h
          exact drop_shrinks (List.mem_cons_of_mem _ (List.mem_cons_self ..))
        · rw [if_neg hline] at h
          exact passTurn_shrinks h
      · rw [if_neg hopen] at h
        cases hfind : hubMarkerBytePatterns.find? (bytesStartWith (b :: bs)) with
        | some marker =>
          have htag : marker ∈ tags := List.mem_cons_of_mem _ (List.mem_of_find?_eq_some hfind)
          simp only [hfind] at h
          by_cases hgate : (v.inMarker || v.lineStart) = true
          · rw [if_pos hgate] at h
            exact markerTurn_shrinks htag h
          · rw [if_neg hgate] at h
            exact passTurn_shrinks h
        | none =>
          simp only [hfind] at h
          by_cases hmaybe : ((v.inMarker || v.lineStart) && isPossibleMarkerPrefix (b :: bs)) = true
          · rw [if_pos hmaybe] at h
            cases h
          · rw [if_neg hmaybe] at h
            by_cases hmarker : v.inMarker = true
            · rw [if_pos hmarker] at h
              exact bodyTurn_shrinks h
            · rw [if_neg hmarker] at h
              exact passTurn_shrinks h

/-! ### The filter -/

def filter : Reader Vars UInt8 UInt8 where
  turn := turn
  shrinks := turn_shrinks
  stable := turn_stable

/-- What it puts out, and the state for the next chunk. -/
def filterHubMarkersPure (bytes : Bytes) (state : HubMarkerFilterState) : Bytes × HubMarkerFilterState :=
  let combined := state.carry ++ bytes
  let (v, out, carry) := filter.run
    { inDone := state.inDone
      inMarker := state.inMarker
      markerBuf := state.markerBuf
      doneBuf := state.doneBuf
      lineStart := state.lineStart.getD true
      escPhase := state.escPhase.getD 0 } combined
  (out,
    { carry := carry
      inDone := v.inDone
      inMarker := v.inMarker
      markerBuf := v.markerBuf
      doneBuf := v.doneBuf
      lineStart := some v.lineStart
      escPhase := some v.escPhase })

/-- Two chunks one after the other are filtered as one, from any state. -/
theorem filterHubMarkersPure_append (state : HubMarkerFilterState) (x y : Bytes) :
    filterHubMarkersPure (x ++ y) state =
      ((filterHubMarkersPure x state).1 ++ (filterHubMarkersPure y (filterHubMarkersPure x state).2).1,
        (filterHubMarkersPure y (filterHubMarkersPure x state).2).2) := by
  simp only [filterHubMarkersPure, Option.getD_some, ← List.append_assoc]
  rw [Reader.run_append]

/-- A block in two chunks, cut in its first tag. -/
example : let first := filterHubMarkersPure (encode "a\n[MANY".toList) {}
    (first.1, first.2.carry, (filterHubMarkersPure (encode "-AI-CLI]Q[/MANY-AI-CLI]".toList) first.2).1) =
      (encode "a\n".toList, encode "[MANY".toList, encode "Q\x1b[J".toList) := by
  decide

end ManyAiCli.Web.HubMarkerFilter
