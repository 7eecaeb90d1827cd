import ManyAiCli.Text.Json

/-! The numbers of a Codex rollout (`usagerelay.go`): a scan of its lines for the last event of type
`token_count`. A line is a candidate when it has that text in quotes; what is counted of it depends
on its numbers alone. -/

namespace ManyAiCli.UsageRelay

open ManyAiCli.Text

abbrev Text := List Char

/-! ### Decoding -/

/-- How `encoding/json` compares the name of a member with a field's: without case, where two runes
beyond ASCII fold to letters. -/
def foldRune (c : Char) : Char :=
  if 'A' ≤ c ∧ c ≤ 'Z' then Char.ofNat (c.toNat + 32)
  else if c = '\u017F' then 's'
  else if c = '\u212A' then 'k'
  else c

def foldName (name : Text) : Text := name.map foldRune

def digitsValue (s : Text) : ℕ := s.foldl (fun n c => 10 * n + (c.toNat - '0'.toNat)) 0

/-- A whole number that fits into 64 bits, as `strconv.ParseInt` reads it. -/
def parseInt (raw : Text) : Option ℤ :=
  let digits := if raw.head? = some '-' then raw.tail else raw
  let value : ℤ := if raw.head? = some '-' then -digitsValue digits else digitsValue digits
  if Json.digits1 digits ∧ -9223372036854775808 ≤ value ∧ value ≤ 9223372036854775807 then some value else none

/-- Into an `int` field; `null` leaves it. -/
def decodeInt (old : ℤ) : Json → Option ℤ
  | .num raw => parseInt raw
  | .null => some old
  | _ => none

def decodeText (old : Text) : Json → Option Text
  | .str s => some s
  | .null => some old
  | _ => none

/-- Into a struct, member by member. After an error nothing of the value is used. -/
def decodeStruct {α : Type} (setField : α → Text → Json → Option α) (old : α) : Json → Option α
  | .obj members => members.foldlM (fun a m => setField a (foldName m.1) m.2) old
  | .null => some old
  | _ => none

structure TokenUsageNumbers where
  input : ℤ
  output : ℤ
  cached : ℤ
  total : ℤ
  inputTokens : ℤ
  outputTokens : ℤ
  cachedInputTokens : ℤ
  cachedTokens : ℤ
  promptTokens : ℤ
  completionTokens : ℤ
  totalTokens : ℤ
  reasoningOutputTokens : ℤ

def TokenUsageNumbers.zero : TokenUsageNumbers := ⟨0, 0, 0, 0, 0, 0, 0, 0, 0, 0, 0, 0⟩

def TokenUsageNumbers.setField (u : TokenUsageNumbers) (name : Text) (v : Json) : Option TokenUsageNumbers :=
  if name = "input".toList then (decodeInt u.input v).map fun n => { u with input := n }
  else if name = "output".toList then (decodeInt u.output v).map fun n => { u with output := n }
  else if name = "cached".toList then (decodeInt u.cached v).map fun n => { u with cached := n }
  else if name = "total".toList then (decodeInt u.total v).map fun n => { u with total := n }
  else if name = "input_tokens".toList then (decodeInt u.inputTokens v).map fun n => { u with inputTokens := n }
  else if name = "output_tokens".toList then (decodeInt u.outputTokens v).map fun n =>
    { u with outputTokens := n }
  else if name = "cached_input_tokens".toList then
    (decodeInt u.cachedInputTokens v).map fun n => { u with cachedInputTokens := n }
  else if name = "cached_tokens".toList then (decodeInt u.cachedTokens v).map fun n =>
    { u with cachedTokens := n }
  else if name = "prompt_tokens".toList then (decodeInt u.promptTokens v).map fun n =>
    { u with promptTokens := n }
  else if name = "completion_tokens".toList then
    (decodeInt u.completionTokens v).map fun n => { u with completionTokens := n }
  else if name = "total_tokens".toList then (decodeInt u.totalTokens v).map fun n => { u with totalTokens := n }
  else if name = "reasoning_output_tokens".toList then
    (decodeInt u.reasoningOutputTokens v).map fun n => { u with reasoningOutputTokens := n }
  else some u

structure Info where
  totalTokenUsage : TokenUsageNumbers
  lastTokenUsage : TokenUsageNumbers
  modelContextWindow : ℤ

def Info.zero : Info := ⟨.zero, .zero, 0⟩

def Info.setField (i : Info) (name : Text) (v : Json) : Option Info :=
  if name = "total_token_usage".toList then
    (decodeStruct TokenUsageNumbers.setField i.totalTokenUsage v).map fun u => { i with totalTokenUsage := u }
  else if name = "last_token_usage".toList then
    (decodeStruct TokenUsageNumbers.setField i.lastTokenUsage v).map fun u => { i with lastTokenUsage := u }
  else if name = "model_context_window".toList then
    (decodeInt i.modelContextWindow v).map fun n => { i with modelContextWindow := n }
  else some i

structure Payload where
  type : Text
  info : Info
  modelContextWindow : ℤ

def Payload.zero : Payload := ⟨[], .zero, 0⟩

def Payload.setField (p : Payload) (name : Text) (v : Json) : Option Payload :=
  if name = "type".toList then (decodeText p.type v).map fun t => { p with type := t }
  else if name = "info".toList then (decodeStruct Info.setField p.info v).map fun i => { p with info := i }
  else if name = "model_context_window".toList then
    (decodeInt p.modelContextWindow v).map fun n => { p with modelContextWindow := n }
  else some p

structure TokenCountEvent where
  /-- Embedded: its fields are read at the top. -/
  tokenUsageNumbers : TokenUsageNumbers
  info : Info
  usage : TokenUsageNumbers
  payload : Payload
  modelContextWindow : ℤ

def TokenCountEvent.zero : TokenCountEvent := ⟨.zero, .zero, .zero, .zero, 0⟩

def TokenCountEvent.setField (e : TokenCountEvent) (name : Text) (v : Json) : Option TokenCountEvent :=
  if name = "info".toList then (decodeStruct Info.setField e.info v).map fun i => { e with info := i }
  else if name = "usage".toList then
    (decodeStruct TokenUsageNumbers.setField e.usage v).map fun u => { e with usage := u }
  else if name = "payload".toList then (decodeStruct Payload.setField e.payload v).map fun p =>
    { e with payload := p }
  else if name = "model_context_window".toList then
    (decodeInt e.modelContextWindow v).map fun n => { e with modelContextWindow := n }
  else (e.tokenUsageNumbers.setField name v).map fun u => { e with tokenUsageNumbers := u }

/-- `json.Unmarshal` of a line. -/
def unmarshalEvent (line : Text) : Option TokenCountEvent :=
  (Json.parse line).bind (decodeStruct TokenCountEvent.setField .zero)

/-! ### Resolving -/

def firstNonZero (vals : List ℤ) : ℤ := (vals.find? (· ≠ 0)).getD 0

/-- A sum of two `int`s. -/
def wrap (n : ℤ) : ℤ := (n + 9223372036854775808) % 18446744073709551616 - 9223372036854775808

/-- The results of `resolve`. -/
structure Numbers where
  tokIn : ℤ
  out : ℤ
  cache : ℤ
  total : ℤ
  ctxWindow : ℤ
  reasoningOut : ℤ
deriving DecidableEq

def Numbers.zero : Numbers := ⟨0, 0, 0, 0, 0, 0⟩

def Numbers.positive (n : Numbers) : Bool := n.tokIn > 0 || n.out > 0 || n.total > 0

def TokenUsageNumbers.resolve (u : TokenUsageNumbers) (ctxWindow : ℤ) : Numbers :=
  let tokIn := firstNonZero [u.inputTokens, u.input, u.promptTokens]
  let out := firstNonZero [u.outputTokens, u.output, u.completionTokens]
  let cache := firstNonZero [u.cachedInputTokens, u.cached, u.cachedTokens]
  let total := firstNonZero [u.totalTokens, u.total]
  let total := if total = 0 ∧ (tokIn > 0 ∨ out > 0) then wrap (tokIn + out) else total
  { tokIn, out, cache, total, ctxWindow, reasoningOut := u.reasoningOutputTokens }

/-- The formats in the order they are tried, each with its context window. -/
def TokenCountEvent.formats (e : TokenCountEvent) : List Numbers :=
  let payloadWindow := firstNonZero [e.payload.info.modelContextWindow, e.payload.modelContextWindow]
  (if e.payload.type = "token_count".toList then
    [e.payload.info.totalTokenUsage.resolve payloadWindow, e.payload.info.lastTokenUsage.resolve payloadWindow]
  else []) ++
  [e.tokenUsageNumbers.resolve e.modelContextWindow,
    e.info.totalTokenUsage.resolve e.info.modelContextWindow,
    e.info.lastTokenUsage.resolve e.info.modelContextWindow,
    e.usage.resolve 0]

def TokenCountEvent.resolve (e : TokenCountEvent) : Numbers := (e.formats.find? Numbers.positive).getD .zero

/-! ### The scan -/

/-- `isTokenCountLine`: the type in its quotes anywhere. -/
def isTokenCountLine (line : Text) : Bool := decide ("\"token_count\"".toList <:+: line)

inductive ScanError
  | tokenTooLong
deriving DecidableEq

def maxTokenSize : ℕ := 256 * 1024

/-- In UTF-8. -/
def byteLength (s : Text) : ℕ := s.foldr (fun c n => c.utf8Size + n) 0

/-- The lines without their line feeds; there is none after the last. -/
def rawLines (file : Text) : List Text :=
  let lines := file.splitOn '\n'
  if lines.getLast? = some [] then lines.dropLast else lines

/-- A line's token is without a carriage return at the end. -/
def dropCR (line : Text) : Text := if line.getLast? = some '\r' then line.dropLast else line

/-- A turn of the loop. -/
def countLine (last : Numbers) (line : Text) : Numbers :=
  if isTokenCountLine line then
    match unmarshalEvent line with
    | none => last
    | some e =>
      let n := e.resolve
      if n.positive then { n with ctxWindow := if n.ctxWindow > 0 then n.ctxWindow else last.ctxWindow }
        else last
  else last

def scan : Numbers → List Text → Except ScanError Numbers
  | last, [] => .ok last
  | last, line :: rest =>
    -- the buffer is full before the line's end is seen
    if maxTokenSize ≤ byteLength line then .error .tokenTooLong else scan (countLine last (dropCR line)) rest

/-- Of a rollout that can be opened. -/
def scanLastTokenCount (file : Text) : Except ScanError Numbers := scan .zero (rawLines file)

/-! ### What is wanted of it -/

/-- The last member of that very name. -/
def member (name : Text) : Json → Option Json
  | .obj members => (members.filter (·.1 = name)).getLast?.map (·.2)
  | _ => none

/-- An object whose `type` is `token_count`. -/
def hasType (v : Json) : Bool :=
  match member "type".toList v with
  | some (.str s) => s = "token_count".toList
  | _ => false

/-- An event of the type, by its own or by its payload's `type`. -/
def isTokenCountEvent (line : Text) : Bool :=
  match Json.parse line with
  | none => false
  | some v => hasType v || ((member "payload".toList v).map hasType).getD false

/-- The numbers of an event that carries usage. -/
def usageOf (line : Text) :
    Option Numbers := ((unmarshalEvent line).map TokenCountEvent.resolve).filter Numbers.positive

/-- The last window that is stated. -/
def lastWindow (ns : List Numbers) : ℤ := ((ns.filter (·.ctxWindow > 0)).getLast?.map Numbers.ctxWindow).getD 0

/-- The last numbers, with the last window. -/
def lastUsage (ns : List Numbers) : Numbers :=
  match ns.getLast? with
  | none => .zero
  | some n => { n with ctxWindow := lastWindow ns }

/-! ### The scan by its lines -/

theorem scan_eq (last : Numbers) (lines : List Text) :
    scan last lines =
      if ∀ line ∈ lines, byteLength line < maxTokenSize then .ok ((lines.map dropCR).foldl countLine last)
      else .error .tokenTooLong := by
  induction lines generalizing last with
  | nil => simp [scan]
  | cons line rest ih =>
    by_cases h : maxTokenSize ≤ byteLength line
    · rw [scan, if_pos h, if_neg fun hAll => absurd (hAll line List.mem_cons_self) (by omega)]
    · rw [scan, if_neg h, ih]
      simp only [List.forall_mem_cons, Nat.not_le.1 h, true_and, List.map_cons, List.foldl_cons]

/-- What a turn counts. -/
def counted (line : Text) : Option Numbers := if isTokenCountLine line then usageOf line else none

theorem countLine_of_none {line : Text} (h : counted line = none) (last : Numbers) :
    countLine last line = last := by
  unfold countLine
  split
  · rename_i hLine
    rw [counted, if_pos hLine, usageOf] at h
    cases hEvent : unmarshalEvent line with
    | none => rfl
    | some e =>
      have hNot : e.resolve.positive = false := by simpa [hEvent] using h
      simp [hNot]
  · rfl

theorem countLine_of_some {line : Text} {n : Numbers} (h : counted line = some n) (last : Numbers) :
    countLine last line = { n with ctxWindow := if n.ctxWindow > 0 then n.ctxWindow else last.ctxWindow } := by
  have hLine : isTokenCountLine line = true := by
    by_contra hNot
    rw [counted, if_neg hNot] at h
    exact Option.some_ne_none n h.symm
  rw [counted, if_pos hLine, usageOf, Option.filter_eq_some_iff, Option.map_eq_some_iff] at h
  obtain ⟨⟨e, hEvent, rfl⟩, hPositive⟩ := h
  simp [countLine, hLine, hEvent, hPositive]

theorem lastUsage_concat (ns : List Numbers) (n : Numbers) :
    lastUsage (ns ++ [n]) =
      { n with ctxWindow := if n.ctxWindow > 0 then n.ctxWindow else (lastUsage ns).ctxWindow } := by
  have hWindow : lastWindow ns = (lastUsage ns).ctxWindow := by
    cases h : ns.getLast? with
    | none => simp [lastUsage, lastWindow, List.getLast?_eq_none_iff.1 h, Numbers.zero]
    | some m => simp [lastUsage, h]
  rw [lastUsage, List.getLast?_concat]
  by_cases h : n.ctxWindow > 0
  · simp [lastWindow, List.filter_append, h]
  · simp [lastWindow, List.filter_append, h, ← hWindow]

/-- The turns together, by induction from the last line. -/
theorem foldl_countLine (lines : List Text) :
    lines.foldl countLine .zero = lastUsage (lines.filterMap counted) := by
  induction lines using List.reverseRecOn with
  | nil => rfl
  | append_singleton lines line ih =>
    rw [List.foldl_concat, ih, List.filterMap_append]
    cases h : counted line with
    | none => rw [countLine_of_none h, List.filterMap_cons_none h, List.filterMap_nil, List.append_nil]
    | some n => rw [countLine_of_some h, List.filterMap_cons_some h, List.filterMap_nil, lastUsage_concat]

/-- Where the quoted text and the type agree on the events with usage, those of the type are counted. -/
theorem filterMap_counted {lines : List Text}
    (h : ∀ line ∈ lines, usageOf line ≠ none → isTokenCountLine line = isTokenCountEvent line) :
    lines.filterMap counted = (lines.filter isTokenCountEvent).filterMap usageOf := by
  rw [List.filterMap_filter]
  refine List.filterMap_congr fun line hline => ?_
  cases hUsage : usageOf line with
  | none => simp [counted, hUsage]
  | some n => rw [counted, h line hline (hUsage ▸ Option.some_ne_none n), hUsage]

/-- A rollout whose lines fit into the buffer gives the numbers of its events; one with a longer line
gives none. -/
theorem scanLastTokenCount_eq {file : Text}
    (h : ∀ line ∈ (rawLines file).map dropCR, usageOf line ≠ none →
      isTokenCountLine line = isTokenCountEvent line) :
    scanLastTokenCount file =
      if ∀ line ∈ rawLines file, byteLength line < maxTokenSize then
        .ok (lastUsage ((((rawLines file).map dropCR).filter isTokenCountEvent).filterMap usageOf))
      else .error .tokenTooLong := by
  rw [scanLastTokenCount, scan_eq, foldl_countLine, filterMap_counted h]

def statedLine : Text := "\x7b\"type\":\"token_count\",\"model_context_window\":1000,\"input_tokens\":7\x7d".toList

def laterLine : Text := "\x7b\"type\":\"token_count\",\"input\":12,\"output\":3\x7d".toList

/-- A message that mentions the type, an event of a payload, and one with its numbers at the top. -/
def shortLines : List Text :=
  ["\x7b\"type\":\"message\",\"text\":\"a \\\"token_count\\\"\"\x7d".toList,
    "\x7b\"payload\":\x7b\"type\":\"token_count\",\"info\":\x7b\"model_context_window\":9\x7d\x7d,\"input\":5\x7d".toList,
    statedLine, laterLine]

def joinLines (lines : List Text) : Text := lines.flatMap (· ++ ['\n'])

theorem scanLastTokenCount_shortLines :
    scanLastTokenCount (joinLines shortLines) = .ok ⟨12, 3, 0, 15, 1000, 0⟩ := by
  have hRaw : rawLines (joinLines shortLines) = shortLines := by rfl
  have hLines : (rawLines (joinLines shortLines)).map dropCR = shortLines := by rfl
  have hAgree : ∀ line ∈ shortLines, isTokenCountLine line = isTokenCountEvent line := by
    simp only [shortLines, List.forall_mem_cons]
    exact ⟨rfl, rfl, rfl, rfl, fun _ h => absurd h List.not_mem_nil⟩
  have hFits : ∀ line ∈ rawLines (joinLines shortLines), byteLength line < maxTokenSize := by
    rw [hRaw]
    decide
  have hUsage : (shortLines.filter isTokenCountEvent).filterMap usageOf =
      [⟨5, 0, 0, 5, 0, 0⟩, ⟨7, 0, 0, 7, 1000, 0⟩, ⟨12, 3, 0, 15, 0, 0⟩] := by decide
  rw [scanLastTokenCount_eq fun line hline _ => hAgree line (hLines ▸ hline), if_pos hFits, hLines, hUsage]
  rfl

/-! ### A line that does not fit, a window kept, and a type with an escape -/

theorem length_le_byteLength (s : Text) : s.length ≤ byteLength s := by
  induction s with
  | nil => exact le_rfl
  | cons c s ih =>
    show s.length + 1 ≤ c.utf8Size + byteLength s
    have := c.utf8Size_pos
    omega

theorem flatMap_writeChar_replicate (n : ℕ) :
    (List.replicate n 'a').flatMap Json.writeChar = List.replicate n 'a' := by
  have hChar : Json.writeChar 'a' = ['a'] := by decide
  induction n with
  | zero => rfl
  | succ n ih => rw [List.replicate_succ, List.flatMap_cons, ih, hChar, List.singleton_append]

/-- A line of one text. -/
def longLine (n : ℕ) : Text := '"' :: (List.replicate n 'a' ++ ['"'])

theorem parse_longLine (n : ℕ) : Json.parse (longLine n) = some (.str (List.replicate n 'a')) := by
  have hSkip : Json.skipWhite (longLine n) = '"' :: (List.replicate n 'a' ++ ['"']) := rfl
  have hFuel : (List.replicate n 'a').length < n + 1 := by rw [List.length_replicate]; omega
  have hRead := Json.readString_flatMap hFuel []
  rw [flatMap_writeChar_replicate] at hRead
  have hValue : Json.readValue (Json.maxNestingDepth + 1) (longLine n) =
    some (.str (List.replicate n 'a'), []) := by
    rw [Json.readValue_of_quote _ hSkip, List.length_append, List.length_replicate, List.length_singleton,
      hRead]
    rfl
  exact Json.parse_of_readValue hValue rfl

/-- Nothing of a rollout with such a line is counted, whatever comes after it. -/
theorem scan_long_line {n : ℕ} (hn : maxTokenSize ≤ n) (rest : Text) :
    scanLastTokenCount (longLine n ++ '\n' :: rest) = .error .tokenTooLong := by
  have hNot : '\n' ∉ longLine n := by simp [longLine, List.mem_replicate]
  have hLong : maxTokenSize ≤ byteLength (longLine n) := by
    refine le_trans ?_ (length_le_byteLength (longLine n))
    rw [longLine, List.length_cons, List.length_append, List.length_replicate]
    omega
  have hFirst : ∃ lines, rawLines (longLine n ++ '\n' :: rest) = longLine n :: lines := by
    rw [rawLines, List.splitOn_append_cons_self_of_not_mem hNot]
    obtain ⟨line, lines, h⟩ := List.exists_cons_of_ne_nil (List.splitOn_ne_nil '\n' rest)
    rw [h]
    split
    · exact ⟨_, List.dropLast_cons_cons⟩
    · exact ⟨_, rfl⟩
  obtain ⟨lines, hFirst⟩ := hFirst
  rw [scanLastTokenCount, hFirst, scan, if_pos hLong]

def escapedLine : Text := "\x7b\"type\":\"token\\u005fcount\",\"input\":1\x7d".toList

/-- The rollout of a long line and an event is not counted; a window is from an event before the last;
and an event whose type is written with an escape is passed over. -/
theorem numbers_of_other_events :
    (Json.parse (longLine maxTokenSize) ≠ none ∧
      scanLastTokenCount (longLine maxTokenSize ++ '\n' :: joinLines shortLines) = .error .tokenTooLong) ∧
    (usageOf laterLine = some ⟨12, 3, 0, 15, 0, 0⟩ ∧
      scanLastTokenCount (joinLines [statedLine, laterLine]) = .ok ⟨12, 3, 0, 15, 1000, 0⟩) ∧
    isTokenCountEvent escapedLine = true ∧ usageOf escapedLine = some ⟨1, 0, 0, 1, 0, 0⟩ ∧
      scanLastTokenCount escapedLine = .ok .zero := by
  refine ⟨⟨?_, scan_long_line le_rfl _⟩, ⟨by decide, ?_⟩, by decide, by decide, ?_⟩
  · rw [parse_longLine]
    exact Option.some_ne_none _
  · have hRaw : rawLines (joinLines [statedLine, laterLine]) = [statedLine, laterLine] := by rfl
    have hCounted : ([statedLine, laterLine].map dropCR).filterMap counted =
        [⟨7, 0, 0, 7, 1000, 0⟩, ⟨12, 3, 0, 15, 0, 0⟩] := by decide
    rw [scanLastTokenCount, scan_eq, hRaw, if_pos (by decide), foldl_countLine, hCounted]
    rfl
  · rfl

end ManyAiCli.UsageRelay
