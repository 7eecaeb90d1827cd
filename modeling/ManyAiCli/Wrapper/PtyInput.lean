import ManyAiCli.Text.RuneBorders
import Mathlib.Data.List.GetD

/-! What the wrapper does with a `pty_input` message (`wrapper.go`): the line clear in front goes alone to
cursor-agent, an old `@path` line and its text go apart to claude, an Enter at the end goes alone, and
everything is written in chunks, each of them by as many writes as the terminal takes. With a terminal
that takes something at each write the input arrives whole. The pauses are left out. -/

namespace ManyAiCli.Wrapper.PtyInput

open Text

def ptyInputChunkBytes : ℕ := 1024

theorem ptyInputChunkBytes_pos : 0 < ptyInputChunkBytes := Nat.succ_pos 1023

/-! ### The terminal -/

/-- A `Write` of the terminal: how many bytes it took, never more than there are, and the error. -/
structure Terminal (σ ε : Type*) where
  write : σ → List UInt8 → σ × ℕ × Option ε
  write_le : ∀ s data, (write s data).2.1 ≤ data.length

inductive Failure (ε : Type*)
  | write (err : ε)
  | shortWrite

/-- The state of the terminal, the bytes it has taken, what `writePTY` was given to write, and the
errors that were logged. -/
structure Session (σ ε : Type*) where
  terminal : σ
  written : List UInt8
  chunks : List (List UInt8)
  logged : List (String × Failure ε)

variable {σ ε : Type*} (pty : Terminal σ ε)

/-- One write of the loop in `writePTY`. -/
def writeOnce (s : Session σ ε) (data : List UInt8) : Session σ ε :=
  { s with
    terminal := (pty.write s.terminal data).1
    written := s.written ++ data.take (pty.write s.terminal data).2.1 }

/-- Each round that goes on has written something. -/
def writeLoop (s : Session σ ε) (data : List UInt8) : Session σ ε × Option (Failure ε) :=
  if _ : data = [] then (s, none)
  else
    match (pty.write s.terminal data).2.2 with
    | some err => (writeOnce pty s data, some (.write err))
    | none =>
      if _ : (pty.write s.terminal data).2.1 = 0 then (writeOnce pty s data, some .shortWrite)
      else writeLoop (writeOnce pty s data) (data.drop (pty.write s.terminal data).2.1)
termination_by data.length
decreasing_by
  have hLong := List.length_pos_of_ne_nil ‹data ≠ []›
  rw [List.length_drop]
  omega

def writePTY (s : Session σ ε) (data : List UInt8) : Session σ ε × Option (Failure ε) :=
  if data = [] then (s, none) else writeLoop pty { s with chunks := s.chunks ++ [data] } data

/-! ### Chunks -/

/-- `utf8.RuneStart`. -/
def runeStart (b : UInt8) : Bool := b &&& 0xC0 != 0x80

/-- The nearest place up to `n` that holds the first byte of a character, or the front. -/
def backOff (data : List UInt8) : ℕ → ℕ
  | 0 => 0
  | n + 1 => if runeStart (data.getD (n + 1) 0) then n + 1 else backOff data n

def nextPTYInputChunkLen (data : List UInt8) (limit : ℕ) : ℕ :=
  if data.length ≤ limit then data.length
  else if backOff data limit = 0 then limit
  else backOff data limit

theorem backOff_le (data : List UInt8) (n : ℕ) : backOff data n ≤ n := by
  induction n with
  | zero => exact Nat.le_refl 0
  | succ n ih =>
    rw [backOff]
    split_ifs
    · exact Nat.le_refl _
    · exact Nat.le_succ_of_le ih

/-- There is always a next chunk, no longer than the limit. -/
theorem nextPTYInputChunkLen_bounds {data : List UInt8} (h : data ≠ []) {limit : ℕ} (hLimit : 0 < limit) :
    1 ≤ nextPTYInputChunkLen data limit ∧ nextPTYInputChunkLen data limit ≤ limit ∧
      nextPTYInputChunkLen data limit ≤ data.length := by
  have hLong := List.length_pos_of_ne_nil h
  have hBack := backOff_le data limit
  rw [nextPTYInputChunkLen]
  split_ifs with hAll hFront
  · exact ⟨hLong, hAll, Nat.le_refl _⟩
  · exact ⟨hLimit, Nat.le_refl _, by omega⟩
  · exact ⟨by omega, hBack, by omega⟩

def chunkLoop (s : Session σ ε) (data : List UInt8) : Session σ ε × Option (Failure ε) :=
  if _ : data = [] then (s, none)
  else
    match writePTY pty s (data.take (nextPTYInputChunkLen data ptyInputChunkBytes)) with
    | (s, some err) => (s, some err)
    | (s, none) => chunkLoop s (data.drop (nextPTYInputChunkLen data ptyInputChunkBytes))
termination_by data.length
decreasing_by
  have hLong := List.length_pos_of_ne_nil ‹data ≠ []›
  have hNext := (nextPTYInputChunkLen_bounds ‹data ≠ []› ptyInputChunkBytes_pos).1
  rw [List.length_drop]
  omega

def writePTYChunked (s : Session σ ε) (data : List UInt8) : Session σ ε × Option (Failure ε) :=
  if data.length ≤ ptyInputChunkBytes then writePTY pty s data else chunkLoop pty s data

/-! ### The message -/

/-- The Enter at the end is written behind the rest, and not at all where that failed. -/
def writeWithTrailingEnter (s : Session σ ε) (data : List UInt8) : Session σ ε × Option (Failure ε) :=
  if 1 < data.length ∧ data.getLast? = some 0x0D then
    match writePTYChunked pty s data.dropLast with
    | (s, some err) => (s, some err)
    | (s, none) => writePTY pty s (data.drop (data.length - 1))
  else writePTYChunked pty s data

/-- The byte in front and the rest, where Ctrl+U is to be written alone. -/
def splitLeadingClearControl (provider : String) (data : List UInt8) : Option (List UInt8) × List UInt8 :=
  if provider = "cursor-agent" ∧ 1 < data.length ∧ data.head? = some 0x15 then
    (some (data.take 1), data.drop 1)
  else (none, data)

def isLetter (b : UInt8) : Bool := 0x41 ≤ b && b ≤ 0x5A || 0x61 ≤ b && b ≤ 0x7A

/-- `/…`, or `C:\…` or `C:/…`. -/
def looksLikeInjectPath : List UInt8 → Bool
  | [] => false
  | 0x2F :: _ => true
  | c :: 0x3A :: sep :: _ => isLetter c && (sep == 0x5C || sep == 0x2F)
  | _ => false

/-- `logPTYWriteError`. -/
def logError (op : String) : Session σ ε × Option (Failure ε) → Session σ ε
  | (s, some err) => { s with logged := s.logged ++ [(op, err)] }
  | (s, none) => s

/-- The line with the path and the rest behind its Enter. -/
def splitInject (data : List UInt8) : Option (List UInt8 × List UInt8) :=
  match data.findIdx? (· == 0x0D) with
  | some idx => if idx + 1 < data.length then some (data.take (idx + 1), data.drop (idx + 1)) else none
  | none => none

/-- What follows the line clear. -/
def writeBody (provider : String) (s : Session σ ε) (data : List UInt8) : Session σ ε :=
  if provider = "claude" ∧ 1 < data.length ∧ data.head? = some 0x40 ∧ looksLikeInjectPath (data.drop 1) then
    match splitInject data with
    | some (path, rest) =>
      logError "inject_text"
        (writeWithTrailingEnter pty (logError "inject_path" (writeWithTrailingEnter pty s path)) rest)
    | none => logError "inject" (writeWithTrailingEnter pty s data)
  else if 1 < data.length ∧ data.getLast? = some 0x0D then
    logError "input_enter" (writeWithTrailingEnter pty s data)
  else logError "input" (writePTYChunked pty s data)

/-- The branch `pty_input` of the receive loop. -/
def ptyInput (provider : String) (s : Session σ ε) (data : List UInt8) : Session σ ε :=
  if data = [] then s
  else
    match splitLeadingClearControl provider data with
    | (some lead, rest) => writeBody pty provider (logError "clear_prefix" (writePTY pty s lead)) rest
    | (none, rest) => writeBody pty provider s rest

/-! ### A terminal that takes something at each write -/

/-- No write fails, and every write makes progress. -/
def Terminal.Reliable : Prop :=
  ∀ s data, data ≠ [] → (pty.write s data).2.2 = none ∧ 0 < (pty.write s data).2.1

/-- What has happened to a session when chunks have been written. -/
structure Wrote (s s' : Session σ ε) (chunks : List (List UInt8)) : Prop where
  written : s'.written = s.written ++ chunks.flatten
  chunks : s'.chunks = s.chunks ++ chunks
  logged : s'.logged = s.logged

theorem Wrote.refl (s : Session σ ε) : Wrote s s [] :=
  ⟨(List.append_nil _).symm, (List.append_nil _).symm, rfl⟩

theorem Wrote.trans {s₁ s₂ s₃ : Session σ ε} {cs ds : List (List UInt8)} (h : Wrote s₁ s₂ cs)
    (h' : Wrote s₂ s₃ ds) : Wrote s₁ s₃ (cs ++ ds) where
  written := by rw [h'.written, h.written, List.flatten_append, List.append_assoc]
  chunks := by rw [h'.chunks, h.chunks, List.append_assoc]
  logged := h'.logged.trans h.logged

/-- The data as it is cut into chunks: each of them small and not empty, and a text into texts. -/
structure Cuts (data : List UInt8) (chunks : List (List UInt8)) : Prop where
  flatten : chunks.flatten = data
  sizes : ∀ chunk ∈ chunks, 1 ≤ chunk.length ∧ chunk.length ≤ ptyInputChunkBytes
  texts : ∀ text, data = encode text → ∃ parts : List (List Char), chunks = parts.map encode ∧ parts.flatten = text

theorem Cuts.nil : Cuts [] [] where
  flatten := rfl
  sizes _ h := absurd h List.not_mem_nil
  texts _ h := ⟨[], rfl, (encode_eq_nil.1 h.symm).symm⟩

theorem Cuts.singleton {data : List UInt8} (h : data ≠ []) (hLen : data.length ≤ ptyInputChunkBytes) :
    Cuts data [data] where
  flatten := List.flatten_singleton
  sizes chunk hChunk := by
    rw [List.mem_singleton.1 hChunk]
    exact ⟨List.length_pos_of_ne_nil h, hLen⟩
  texts text hText := ⟨[text], by rw [List.map_singleton, hText], List.flatten_singleton⟩

theorem Cuts.append {xs ys : List UInt8} {cs ds : List (List UInt8)} (h : Cuts xs cs) (h' : Cuts ys ds)
    (hAligned : Aligned xs ys) : Cuts (xs ++ ys) (cs ++ ds) where
  flatten := by rw [List.flatten_append, h.flatten, h'.flatten]
  sizes chunk hChunk := (List.mem_append.1 hChunk).elim (h.sizes chunk) (h'.sizes chunk)
  texts text hText := by
    obtain ⟨t, u, hSplit, ht, hu⟩ := hAligned text hText
    obtain ⟨ps, hps, rfl⟩ := h.texts t ht
    obtain ⟨qs, hqs, rfl⟩ := h'.texts u hu
    exact ⟨ps ++ qs, by rw [hps, hqs, List.map_append], by rw [hSplit, List.flatten_append]⟩

variable {pty}

/-- The loop ends without an error, and all has been taken. -/
theorem writeLoop_written (hReliable : pty.Reliable) (s : Session σ ε) (data : List UInt8) :
    (writeLoop pty s data).2 = none ∧ (writeLoop pty s data).1.written = s.written ++ data ∧
      (writeLoop pty s data).1.chunks = s.chunks ∧ (writeLoop pty s data).1.logged = s.logged := by
  fun_induction writeLoop pty s data with
  | case1 s => exact ⟨rfl, (List.append_nil _).symm, rfl, rfl⟩
  | case2 s data hData err hErr =>
    rw [(hReliable s.terminal data hData).1] at hErr
    exact absurd hErr.symm (Option.some_ne_none err)
  | case3 s data hData hErr hTaken =>
    exact absurd hTaken (Nat.pos_iff_ne_zero.1 (hReliable s.terminal data hData).2)
  | case4 s data hData hErr hTaken ih =>
    refine ⟨ih.1, ?_, ih.2.2⟩
    rw [ih.2.1, writeOnce, List.append_assoc, List.take_append_drop]

theorem writePTY_wrote (hReliable : pty.Reliable) (s : Session σ ε) {data : List UInt8} (h : data ≠ []) :
    ∃ s', writePTY pty s data = (s', none) ∧ Wrote s s' [data] := by
  obtain ⟨hNone, hWritten, hChunks, hLogged⟩ :=
    writeLoop_written hReliable { s with chunks := s.chunks ++ [data] } data
  refine ⟨(writePTY pty s data).1, ?_, ?_, ?_, ?_⟩
  · rw [writePTY, if_neg h, ← hNone]
  · rw [writePTY, if_neg h, hWritten, List.flatten_singleton]
  · rw [writePTY, if_neg h, hChunks]
  · rw [writePTY, if_neg h, hLogged]

/-! ### Chunks end between characters -/

theorem runeStart_eq (b : UInt8) : runeStart b = !isTail b := by
  have hAll : ∀ m < 16, ∀ n < 16, runeStart (UInt8.ofNat (m * 16 + n)) = !isTail (UInt8.ofNat (m * 16 + n)) := by
    decide
  have hLt := b.toNat_lt
  have hByte := hAll (b.toNat / 16) (by omega) (b.toNat % 16) (by omega)
  rwa [Nat.div_add_mod', UInt8.ofNat_toNat] at hByte

/-- A place that was not reached by backing off holds a continuation byte. -/
theorem isTail_of_backOff {data : List UInt8} {n : ℕ} (h : backOff data n = 0) :
    ∀ i, 1 ≤ i → i ≤ n → isTail (data.getD i 0) = true := by
  induction n with
  | zero => intro i h₁ h₂; omega
  | succ n ih =>
    rw [backOff] at h
    split_ifs at h with hStart
    rw [runeStart_eq, Bool.not_eq_true, Bool.not_eq_false'] at hStart
    intro i h₁ h₂
    rcases Nat.lt_or_ge n i with hLast | hEarlier
    · rwa [show i = n + 1 by omega]
    · exact ih h i h₁ hEarlier

theorem runeStart_backOff {data : List UInt8} {n : ℕ} (h : backOff data n ≠ 0) :
    runeStart (data.getD (backOff data n) 0) = true := by
  induction n with
  | zero => exact absurd rfl h
  | succ n ih =>
    rw [backOff] at h ⊢
    split_ifs at h ⊢ with hStart
    · exact hStart
    · exact ih h

/-- In a text there is a place to back off to, as a character has four bytes at most. -/
theorem aligned_next {data : List UInt8} (h : ptyInputChunkBytes < data.length) :
    Aligned (data.take (nextPTYInputChunkLen data ptyInputChunkBytes))
      (data.drop (nextPTYInputChunkLen data ptyInputChunkBytes)) := by
  rw [nextPTYInputChunkLen, if_neg (Nat.not_le.2 h)]
  have hLong : 1024 < data.length := h
  have hBack := backOff_le data ptyInputChunkBytes
  split_ifs with hFront
  · intro s hs
    rw [List.take_append_drop] at hs
    obtain ⟨p, ps, rfl⟩ := List.exists_cons_of_ne_nil (List.ne_nil_of_length_pos (Nat.zero_lt_of_lt hLong))
    rw [List.length_cons] at hLong
    obtain ⟨q, hq, hLead⟩ := exists_lead hs (by omega)
    obtain ⟨i, hi, hqi⟩ := List.mem_iff_getElem.1 hq
    have hiLt : i < 4 := by
      rw [List.length_take] at hi
      omega
    rw [List.getElem_take] at hqi
    have hTail := isTail_of_backOff hFront (i + 1) (Nat.succ_pos i) (show i + 1 ≤ 1024 by omega)
    rw [List.getD_cons_succ, List.getD_eq_getElem _ 0 (by omega), hqi, hLead] at hTail
    exact absurd hTail Bool.false_ne_true
  · have hLt : backOff data ptyInputChunkBytes < data.length := Nat.lt_of_le_of_lt hBack h
    have hStart := runeStart_backOff hFront
    rw [runeStart_eq, Bool.not_eq_true', List.getD_eq_getElem _ 0 hLt] at hStart
    rw [List.drop_eq_getElem_cons hLt]
    exact aligned_cons _ _ hStart

/-! ### The functions of the source -/

theorem chunkLoop_wrote (hReliable : pty.Reliable) (s : Session σ ε) (data : List UInt8) :
    ∃ s' chunks, chunkLoop pty s data = (s', none) ∧ Wrote s s' chunks ∧ Cuts data chunks := by
  induction hLen : data.length using Nat.strong_induction_on generalizing s data with
  | _ len ih =>
    by_cases hData : data = []
    · subst hData
      exact ⟨s, [], by rw [chunkLoop, dif_pos rfl], Wrote.refl s, Cuts.nil⟩
    obtain ⟨hPos, hLimit, hAll⟩ := nextPTYInputChunkLen_bounds hData ptyInputChunkBytes_pos
    have hTake : (data.take (nextPTYInputChunkLen data ptyInputChunkBytes)).length =
        nextPTYInputChunkLen data ptyInputChunkBytes := List.length_take_of_le hAll
    have hFirst : data.take (nextPTYInputChunkLen data ptyInputChunkBytes) ≠ [] :=
      List.ne_nil_of_length_pos (by rwa [hTake])
    have hRest : (data.drop (nextPTYInputChunkLen data ptyInputChunkBytes)).length < len := by
      rw [List.length_drop]
      omega
    obtain ⟨s₁, hWrite, hWrote⟩ := writePTY_wrote hReliable s hFirst
    obtain ⟨s₂, chunks, hLoop, hMore, hCuts⟩ := ih _ hRest s₁ _ rfl
    have hAligned : Aligned (data.take (nextPTYInputChunkLen data ptyInputChunkBytes))
        (data.drop (nextPTYInputChunkLen data ptyInputChunkBytes)) := by
      rcases Nat.lt_or_ge ptyInputChunkBytes data.length with hLong | hShort
      · exact aligned_next hLong
      · rw [nextPTYInputChunkLen, if_pos hShort, List.drop_length]
        exact aligned_nil _
    have hCutsAll := (Cuts.singleton hFirst (by rwa [hTake])).append hCuts hAligned
    rw [List.take_append_drop] at hCutsAll
    refine ⟨s₂, _, ?_, hWrote.trans hMore, hCutsAll⟩
    rw [chunkLoop, dif_neg hData, hWrite]
    exact hLoop

theorem writePTYChunked_wrote (hReliable : pty.Reliable) (s : Session σ ε) {data : List UInt8}
    (h : data ≠ []) :
    ∃ s' chunks, writePTYChunked pty s data = (s', none) ∧ Wrote s s' chunks ∧ Cuts data chunks := by
  rw [writePTYChunked]
  split_ifs with hShort
  · obtain ⟨s', hWrite, hWrote⟩ := writePTY_wrote hReliable s h
    exact ⟨s', [data], hWrite, hWrote, Cuts.singleton h hShort⟩
  · exact chunkLoop_wrote hReliable s data

theorem writeWithTrailingEnter_wrote (hReliable : pty.Reliable) (s : Session σ ε) {data : List UInt8}
    (h : data ≠ []) :
    ∃ s' chunks, writeWithTrailingEnter pty s data = (s', none) ∧ Wrote s s' chunks ∧ Cuts data chunks := by
  rw [writeWithTrailingEnter]
  split_ifs with hEnter
  · obtain ⟨hLong, hLast⟩ := hEnter
    have hText : data.dropLast ≠ [] := by
      apply List.ne_nil_of_length_pos
      rw [List.length_dropLast]
      omega
    have hSplit : data.dropLast ++ [0x0D] = data := List.dropLast_append_getLast? _ hLast
    have hEnd : data.drop (data.length - 1) = [0x0D] := by
      have hLen : data.length - 1 = data.dropLast.length := List.length_dropLast.symm
      rw [hLen]
      conv_lhs => rw [← hSplit]
      rw [List.dropLast_concat, List.drop_left]
    obtain ⟨s₁, chunks, hWrite, hWrote, hCuts⟩ := writePTYChunked_wrote hReliable s hText
    obtain ⟨s₂, hWrite', hWrote'⟩ := writePTY_wrote hReliable s₁ (List.cons_ne_nil 0x0D [])
    have hCutsAll := hCuts.append (Cuts.singleton (List.cons_ne_nil 0x0D []) ptyInputChunkBytes_pos)
      (aligned_cons _ _ (isTail_of_lt (by decide)))
    rw [hSplit] at hCutsAll
    refine ⟨s₂, _, ?_, hWrote.trans hWrote', hCutsAll⟩
    rw [hWrite, hEnd]
    exact hWrite'
  · exact writePTYChunked_wrote hReliable s h

theorem splitInject_spec {data path rest : List UInt8} (h : splitInject data = some (path, rest)) :
    path ++ rest = data ∧ path ≠ [] ∧ rest ≠ [] ∧ Aligned path rest := by
  unfold splitInject at h
  cases hIdx : data.findIdx? (· == 0x0D) with
  | none =>
    rw [hIdx] at h
    exact absurd h.symm (Option.some_ne_none _)
  | some idx =>
    simp only [hIdx] at h
    split_ifs at h with hMore
    rw [Option.some.injEq, Prod.mk.injEq] at h
    obtain ⟨rfl, rfl⟩ := h
    obtain ⟨hLt, hEnter, -⟩ := List.findIdx?_eq_some_iff_getElem.1 hIdx
    rw [beq_iff_eq] at hEnter
    have hPath : data.take (idx + 1) = data.take idx ++ [0x0D] := by
      rw [List.take_succ_eq_append_getElem hLt, hEnter]
    refine ⟨List.take_append_drop _ _, ?_, ?_, ?_⟩
    · rw [hPath]
      exact List.concat_ne_nil _ _
    · apply List.ne_nil_of_length_pos
      rw [List.length_drop]
      omega
    · rw [hPath]
      exact aligned_concat _ _ (by decide)

theorem writeBody_wrote (hReliable : pty.Reliable) (provider : String) (s : Session σ ε) {data : List UInt8}
    (h : data ≠ []) : ∃ chunks, Wrote s (writeBody pty provider s data) chunks ∧ Cuts data chunks := by
  have hWhole (op : String) : ∃ chunks,
      Wrote s (logError op (writeWithTrailingEnter pty s data)) chunks ∧ Cuts data chunks := by
    obtain ⟨s', chunks, hWrite, hWrote⟩ := writeWithTrailingEnter_wrote hReliable s h
    rw [hWrite]
    exact ⟨chunks, hWrote⟩
  rw [writeBody]
  split_ifs with hClaude hEnter
  · cases hSplit : splitInject data with
    | none => exact hWhole "inject"
    | some parts =>
      obtain ⟨path, rest⟩ := parts
      obtain ⟨hData, hPath, hRest, hAligned⟩ := splitInject_spec hSplit
      obtain ⟨s₁, chunks, hWrite, hWrote, hCuts⟩ := writeWithTrailingEnter_wrote hReliable s hPath
      obtain ⟨s₂, chunks', hWrite', hWrote', hCuts'⟩ := writeWithTrailingEnter_wrote hReliable s₁ hRest
      have hAll := hCuts.append hCuts' hAligned
      rw [hData] at hAll
      refine ⟨chunks ++ chunks', ?_, hAll⟩
      simp only [hWrite, logError, hWrite']
      exact hWrote.trans hWrote'
  · exact hWhole "input_enter"
  · obtain ⟨s', chunks, hWrite, hWrote⟩ := writePTYChunked_wrote hReliable s h
    rw [hWrite]
    exact ⟨chunks, hWrote⟩

/-- For every provider and every payload: the terminal takes the payload, in chunks of 1 to
`ptyInputChunkBytes` bytes that are it together, and where it is a text, so is each chunk. -/
theorem input_complete (pty : Terminal σ ε) (hReliable : pty.Reliable) (provider : String) (s : Session σ ε)
    (data : List UInt8) :
    ∃ chunks, Wrote s (ptyInput pty provider s data) chunks ∧ Cuts data chunks ∧
      (ptyInput pty provider s data).written = s.written ++ data := by
  have hFull : ∃ chunks, Wrote s (ptyInput pty provider s data) chunks ∧ Cuts data chunks := by
    rw [ptyInput]
    split_ifs with hData
    · rw [hData]
      exact ⟨[], Wrote.refl s, Cuts.nil⟩
    rw [splitLeadingClearControl]
    split_ifs with hClear
    · obtain ⟨-, hLong, hHead⟩ := hClear
      obtain ⟨x, rest, rfl⟩ := List.exists_cons_of_ne_nil hData
      obtain rfl : x = 0x15 := Option.some.inj hHead
      have hRest : rest ≠ [] := List.ne_nil_of_length_pos (Nat.lt_of_succ_lt_succ hLong)
      obtain ⟨s₁, hWrite, hWrote⟩ := writePTY_wrote hReliable s (List.cons_ne_nil 0x15 [])
      obtain ⟨chunks, hWrote', hCuts⟩ := writeBody_wrote hReliable provider s₁ hRest
      have hAll := (Cuts.singleton (List.cons_ne_nil 0x15 []) ptyInputChunkBytes_pos).append hCuts
        (aligned_concat [] rest (by decide))
      refine ⟨[[0x15]] ++ chunks, ?_, hAll⟩
      show Wrote s (writeBody pty provider (logError "clear_prefix" (writePTY pty s [0x15])) rest) _
      rw [hWrite]
      exact hWrote.trans hWrote'
    · exact writeBody_wrote hReliable provider s hData
  obtain ⟨chunks, hWrote, hCuts⟩ := hFull
  exact ⟨chunks, hWrote, hCuts, by rw [hWrote.written, hCuts.flatten]⟩

/-- A terminal that takes one byte at a time. -/
def slow : Terminal Unit String where
  write _ data := ((), min 1 data.length, none)
  write_le _ _ := Nat.min_le_right _ _

theorem slow_reliable : slow.Reliable := fun _ _ h =>
  ⟨rfl, Nat.lt_min.2 ⟨Nat.zero_lt_one, List.length_pos_of_ne_nil h⟩⟩

/-- `@/a`, Enter and `b` to claude. -/
theorem slow_complete :
    (ptyInput slow "claude" ⟨(), [], [], []⟩ [0x40, 0x2F, 0x61, 0x0D, 0x62]).written =
      [0x40, 0x2F, 0x61, 0x0D, 0x62] := by
  obtain ⟨chunks, -, -, hWritten⟩ :=
    input_complete slow slow_reliable "claude" ⟨(), [], [], []⟩ [0x40, 0x2F, 0x61, 0x0D, 0x62]
  exact hWritten

end ManyAiCli.Wrapper.PtyInput
