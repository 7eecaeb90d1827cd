import Mathlib.Order.Basic
import ManyAiCli.Runs.Machine
import ManyAiCli.Text.Borders
import ManyAiCli.Web.UngluedLines

/-! The transcript of a session on a phone. It is read off the terminal's buffer: what is new since the
last look, or behind the longest overlap with it, becomes the text of the AI's message. A message stays
pending until the user submits something. -/

namespace ManyAiCli.Web.MobileTranscript

open Text (borderTable)
open UngluedLines

def maxMessagesPerSession : ℕ := 200

def maxScanLines : ℕ := 800

def maxOverlapChars : ℕ := 2000

inductive Role
  | user
  | ai
  deriving DecidableEq, Repr

structure Message where
  id : ℕ
  role : Role
  text : Line
  atTime : ℕ
  pending : Bool
  deriving DecidableEq, Repr

structure State where
  messages : List Message
  nextId : ℕ
  lastBufferText : Line
  pendingEchoText : Line
  lastUserSubmittedAt : ℕ
  deriving DecidableEq, Repr

/-- A session that `stateFor` meets for the first time. -/
def fresh : State := ⟨[], 1, [], [], 0⟩

/-! ### The buffer's text -/

/-- `/^[\s_\-─=*]+$/` on three characters or more. -/
def isRuleLine (s : Line) : Bool := 3 ≤ (trim s).length && (trim s).all fun u => isSpace u || among "_-─=*" u

/-- The loop of `collapseDecorations`. -/
def collapse : ℕ → Bool → List Line → List Line
  | _, _, [] => []
  | blankRun, prevRule, raw :: lines =>
    if trim raw = [] then
      if blankRun = 0 then raw :: collapse 1 false lines else collapse (blankRun + 1) false lines
    else if isRuleLine raw then
      if prevRule then collapse 0 true lines else raw :: collapse 0 true lines
    else raw :: collapse 0 false lines

def collapseDecorations (lines : List Line) : List Line := collapse 0 false lines

/-- `lines.join('\n')`. -/
def joinLines (lines : List Line) : Line := List.intercalate (units "\n") lines

/-- The last lines of the buffer. -/
def scanBuffer (buffer : List Line) (limit : ℕ) : List Line := buffer.drop (buffer.length - limit)

def cleanBufferText (buffer : List Line) : Line :=
  let lines := (scanBuffer buffer maxScanLines).rdropWhile fun s => trim s = []
  trim (joinLines (collapseDecorations lines))

/-! ### What is new -/

/-- The length of the longest end of `prev` that `next` begins with, read off the border table of
`next`, a NUL and `prev`. -/
def suffixPrefixOverlap (prev next : Line) : ℕ :=
  let max := min (min prev.length next.length) maxOverlapChars
  if max = 0 then 0
  else
    let combined := next.take max ++ 0 :: prev.drop (prev.length - max)
    min ((borderTable combined [0] (combined.drop 1)).getLastD 0) max

def trimLeft (s : Line) : Line := s.dropWhile isSpace

/-- The text without the echo of what was submitted, and the echo that is still to come. -/
def trimPendingEcho (pendingEchoText text : Line) : Line × Line :=
  let echo := trim pendingEchoText
  if echo = [] then (text, pendingEchoText)
  else if echo <+: trimLeft text then (trimLeft ((trimLeft text).drop echo.length), [])
  else (text, pendingEchoText)

namespace State

variable (s : State)

def existingTranscriptText : Line := trim (joinLines (s.messages.map (·.text)))

def trimExistingTranscriptPrefix (text : Line) : Line :=
  if s.existingTranscriptText = [] then text
  else text.drop (suffixPrefixOverlap s.existingTranscriptText text)

/-! ### Messages -/

/-- `while (messages.length > 200) messages.shift()`. -/
def keepLast (messages : List Message) : List Message := messages.drop (messages.length - maxMessagesPerSession)

def appendMessage (role : Role) (text : Line) (now : ℕ) (pending : Bool) : State :=
  let clean := trim text
  if clean = [] then s
  else
    let pushed : State :=
      { s with
        messages := keepLast (s.messages ++ [⟨s.nextId, role, clean, now, pending⟩])
        nextId := s.nextId + 1 }
    match s.messages.getLast? with
    | some last =>
      let replaced : Message := { last with text := clean, pending := pending, atTime := now }
      if role = .ai ∧ last.role = .ai ∧ last.pending then
        { s with messages := keepLast (s.messages.dropLast ++ [replaced]) }
      else pushed
    | none => pushed

/-- The last message of the AI is finished. -/
def commitLast (s : State) : State :=
  match s.messages.getLast? with
  | some last =>
    if last.role = .ai then { s with messages := s.messages.dropLast ++ [{ last with pending := false }] } else s
  | none => s

/-- What the buffer has that the last look did not see. -/
def newText (current : Line) : Line :=
  if s.lastBufferText <+: current then current.drop s.lastBufferText.length
  else s.trimExistingTranscriptPrefix (current.drop (suffixPrefixOverlap s.lastBufferText current))

def syncMobileTranscriptFromBuffer (buffer : List Line) (commitPending : Bool) (now : ℕ) : State :=
  let current := cleanBufferText buffer
  if s.lastBufferText = [] then
    let s := { s with lastBufferText := current }
    if s.messages = [] ∧ current ≠ [] then s.appendMessage .ai current now !commitPending else s
  else if current = s.lastBufferText then
    if commitPending then s.commitLast else s
  else
    let (delta, echo) := trimPendingEcho s.pendingEchoText (s.newText current)
    let s := { s with pendingEchoText := echo }
    { s.appendMessage .ai delta now !commitPending with lastBufferText := current }

end State

/-! ### What was submitted -/

/-- `replace(/…/g, '')` for a fixed text; the first argument is how much is left to skip. -/
def removeAll (p : Line) : ℕ → Line → Line
  | _, [] => []
  | skip + 1, _ :: s => removeAll p skip s
  | 0, u :: s => if p <+: u :: s then removeAll p (p.length - 1) s else u :: removeAll p 0 s

/-- `[\x00-\x09\x0b-\x1f\x7f]`. -/
def isControl (u : UInt16) : Bool := u ≤ 9 || 11 ≤ u && u ≤ 31 || u == 127

def sanitizeSubmittedText (text : Line) : Line :=
  let out := removeAll (units "\x1b[201~") 0 (removeAll (units "\x1b[200~") 0 text)
  let out := out.filter fun u => !isControl u
  trim (out.map fun u => if u = 13 then 10 else u)

def State.recordMobileTranscriptUserSubmission (s : State) (buffer : List Line) (submitted : Line) (now : ℕ) :
    State :=
  let s := (s.syncMobileTranscriptFromBuffer buffer true now).appendMessage .user submitted now false
  { s with pendingEchoText := submitted, lastUserSubmittedAt := now, lastBufferText := cleanBufferText buffer }

/-! ### Runs -/

inductive Call
  | recordMobileTranscriptUserSubmission (buffer : List Line) (text : Line) (now : ℕ)
  | syncMobileTranscriptFromBuffer (buffer : List Line) (commitPending : Bool) (now : ℕ)
  deriving DecidableEq, Repr

/-- What the terminal shows at a call. -/
def Call.buffer : Call → List Line
  | .recordMobileTranscriptUserSubmission buffer _ _ => buffer
  | .syncMobileTranscriptFromBuffer buffer _ _ => buffer

/-- A call on a phone. -/
def State.call (s : State) : Call → State
  | .recordMobileTranscriptUserSubmission buffer text now =>
    let submitted := sanitizeSubmittedText text
    if submitted = [] then s else s.recordMobileTranscriptUserSubmission buffer submitted now
  | .syncMobileTranscriptFromBuffer buffer commitPending now =>
    s.syncMobileTranscriptFromBuffer buffer commitPending now

/-! ### The longest overlap -/

/-- What `next` repeats of the end of `prev` is found in full, up to the limit. -/
theorem suffixPrefixOverlap_longest {next : Line} (h : 0 ∉ next) (prev : Line) :
    suffixPrefixOverlap prev next ≤ min (min prev.length next.length) maxOverlapChars ∧
      next.take (suffixPrefixOverlap prev next) <:+ prev ∧
      ∀ k ≤ min (min prev.length next.length) maxOverlapChars,
        next.take k <:+ prev → k ≤ suffixPrefixOverlap prev next := by
  rw [suffixPrefixOverlap]
  set most := min (min prev.length next.length) maxOverlapChars
  by_cases h0 : most = 0
  · rw [if_pos h0]
    exact ⟨Nat.zero_le _, List.nil_suffix, fun k hk _ => hk.trans h0.le⟩
  · rw [if_neg h0]
    have hnext : most ≤ next.length := by omega
    have hprev : most ≤ prev.length := by omega
    have hhead : (next.take most).length = most := List.length_take_of_le hnext
    have htail : (prev.drop (prev.length - most)).length = most := by
      rw [List.length_drop]
      omega
    have hz : 0 ∉ next.take most := fun hz => h (List.mem_of_mem_take hz)
    have hlast := Text.borderTable_last (w := next.take most ++ 0 :: prev.drop (prev.length - most)) (by simp)
    obtain ⟨hle, hs, hmax⟩ := hlast.overlap hz (htail.trans hhead.symm)
    rw [hhead] at hle hmax
    dsimp only
    rw [min_eq_left hle]
    have htake {k : ℕ} (hk : k ≤ most) : (next.take most).take k = next.take k := by
      rw [List.take_take, min_eq_left hk]
    have hin {k : ℕ} (hk : k ≤ most) :
        next.take k <:+ prev.drop (prev.length - most) ↔ next.take k <:+ prev := by
      constructor
      · exact fun hs => hs.trans (List.drop_suffix _ _)
      · intro hs
        refine List.suffix_of_suffix_length_le hs (List.drop_suffix _ _) ?_
        rw [htail, List.length_take]
        omega
    refine ⟨hle, (hin hle).1 (htake hle ▸ hs), fun k hk hks => ?_⟩
    exact hmax k hk ((htake hk).symm ▸ (hin hk).2 hks)

theorem suffixPrefixOverlap_longest_two :
    units "ab" <:+ units "zab" ∧ 2 ≤ suffixPrefixOverlap (units "zab") (units "abcd") ∧
      (units "abcd").take (suffixPrefixOverlap (units "zab") (units "abcd")) <:+ units "zab" := by
  have hmark : 0 ∉ units "abcd" := by decide
  have h := suffixPrefixOverlap_longest hmark (units "zab")
  exact ⟨by decide, h.2.2 2 (by decide) (by decide), h.2.1⟩

/-! ### Every run -/

/-- The ID of the oldest message, or the next one. -/
def State.firstId (s : State) : ℕ := s.nextId - s.messages.length

structure Inv (s : State) : Prop where
  ids : s.messages.map (·.id) = List.range' s.firstId s.messages.length
  length_lt : s.messages.length < s.nextId
  bound : s.messages.length ≤ maxMessagesPerSession
  text : ∀ m ∈ s.messages, m.text ≠ [] ∧ trim m.text = m.text
  pending : ∀ m ∈ s.messages, m.pending = true → m.role = .ai

/-- The invariant is kept, no number comes back, and what is finished stays until it is the oldest to go. -/
def Keeps (s t : State) : Prop :=
  Inv s → Inv t ∧ s.firstId ≤ t.firstId ∧
    ∀ m ∈ s.messages, m.pending = false → t.firstId ≤ m.id → m ∈ t.messages

theorem keeps_of_messages {s t : State} (hm : t.messages = s.messages) (hn : t.nextId = s.nextId) :
    Keeps s t := by
  intro hs
  have hf : t.firstId = s.firstId := by rw [State.firstId, State.firstId, hm, hn]
  refine ⟨⟨?_, ?_, ?_, ?_, ?_⟩, hf.ge, fun m hmem _ _ => hm ▸ hmem⟩
  · rw [hm, hf]
    exact hs.ids
  · rw [hm, hn]
    exact hs.length_lt
  · rw [hm]
    exact hs.bound
  · rw [hm]
    exact hs.text
  · rw [hm]
    exact hs.pending

theorem Keeps.trans {s t u : State} (h : Keeps s t) (h' : Keeps t u) : Keeps s u := by
  intro hs
  obtain ⟨ht, hst, hmem⟩ := h hs
  obtain ⟨hu, htu, hmem'⟩ := h' ht
  exact ⟨hu, hst.trans htu, fun m hm hp hid => hmem' m (hmem m hm hp (htu.trans hid)) hp hid⟩

/-- The last message changes, unless it is finished. -/
theorem keeps_replace {s t : State} {init : List Message} {last : Message} (new : Message)
    (hs : s.messages = init ++ [last]) (ht : t.messages = init ++ [new]) (hn : t.nextId = s.nextId)
    (hid : new.id = last.id) (htext : new.text ≠ [] ∧ trim new.text = new.text)
    (hpending : new.pending = true → new.role = .ai) (hkept : last.pending = false → new = last) :
    Keeps s t := by
  intro hi
  have hlen : t.messages.length = s.messages.length := by rw [hs, ht, List.length_append, List.length_append]; rfl
  have hf : t.firstId = s.firstId := by rw [State.firstId, State.firstId, hlen, hn]
  have hmem {m : Message} (hm : m ∈ t.messages) : m ∈ s.messages ∨ m = new := by
    rw [ht, List.mem_append, List.mem_singleton] at hm
    rw [hs]
    exact hm.imp (List.mem_append_left _) id
  refine ⟨⟨?_, ?_, ?_, ?_, ?_⟩, hf.ge, ?_⟩
  · have hmap : t.messages.map (·.id) = s.messages.map (·.id) := by simp [hs, ht, hid]
    rw [hmap, hf, hlen]
    exact hi.ids
  · rw [hlen, hn]
    exact hi.length_lt
  · rw [hlen]
    exact hi.bound
  · intro m hm
    rcases hmem hm with hm | rfl
    · exact hi.text m hm
    · exact htext
  · intro m hm
    rcases hmem hm with hm | rfl
    · exact hi.pending m hm
    · exact hpending
  · intro m hm hp _
    rw [hs, List.mem_append, List.mem_singleton] at hm
    rw [ht]
    rcases hm with hm | rfl
    · exact List.mem_append_left _ hm
    · rw [hkept hp]
      exact List.mem_append_right _ (List.mem_singleton_self _)

/-- A new message takes the next number; at most the oldest goes. -/
theorem keeps_push {s t : State} (new : Message)
    (ht : t.messages = State.keepLast (s.messages ++ [new])) (hn : t.nextId = s.nextId + 1) (hid : new.id = s.nextId)
    (htext : new.text ≠ [] ∧ trim new.text = new.text) (hpending : new.pending = true → new.role = .ai) :
    Keeps s t := by
  intro hi
  have hlt := hi.length_lt
  have hbound := hi.bound
  have hids : (s.messages ++ [new]).map (·.id) = List.range' s.firstId (s.messages.length + 1) := by
    rw [List.map_append, hi.ids, List.range'_concat, List.map_singleton, hid, State.firstId]
    congr 2
    omega
  set gone := s.messages.length + 1 - maxMessagesPerSession
  have hdrop : t.messages = (s.messages ++ [new]).drop gone := by
    rw [ht, State.keepLast, List.length_append, List.length_singleton]
  have hlen : t.messages.length = s.messages.length + 1 - gone := by
    rw [hdrop, List.length_drop, List.length_append, List.length_singleton]
  have hgone : gone ≤ s.messages.length + 1 := Nat.sub_le _ _
  have hf : t.firstId = s.firstId + gone := by
    rw [State.firstId, State.firstId, hlen, hn]
    omega
  have hmem {m : Message} (hm : m ∈ t.messages) : m ∈ s.messages ∨ m = new := by
    rw [hdrop] at hm
    simpa using List.mem_of_mem_drop hm
  refine ⟨⟨?_, ?_, ?_, ?_, ?_⟩, by omega, ?_⟩
  · rw [hlen, hf, hdrop, List.map_drop, hids, List.drop_range', Nat.mul_one]
  · omega
  · omega
  · intro m hm
    rcases hmem hm with hm | rfl
    · exact hi.text m hm
    · exact htext
  · intro m hm
    rcases hmem hm with hm | rfl
    · exact hi.pending m hm
    · exact hpending
  · intro m hm _ hge
    obtain ⟨i, hlt', rfl⟩ := List.getElem_of_mem hm
    have hget : (s.messages.map (·.id))[i]? = some (s.firstId + i) := by
      rw [hi.ids, List.getElem?_range' hlt', Nat.one_mul]
    have hmid : s.messages[i].id = s.firstId + i := by
      simpa [List.getElem?_eq_getElem hlt'] using hget
    rw [hdrop, List.mem_iff_getElem?]
    refine ⟨i - gone, ?_⟩
    rw [List.getElem?_drop, Nat.add_sub_cancel' (by omega), List.getElem?_append_left hlt',
      List.getElem?_eq_getElem hlt']

theorem trim_trim (s : Line) : trim (trim s) = trim s := by
  rw [trim, trim]
  rcases hs : s.dropWhile isSpace with _ | ⟨u, t⟩
  · rfl
  · have hu : isSpace u = false := by
      have h := List.head?_dropWhile_not isSpace s
      rwa [hs] at h
    obtain ⟨t', ht'⟩ : ∃ t', (u :: t).rdropWhile isSpace = u :: t' := by
      obtain ⟨rest, hrest⟩ := List.rdropWhile_prefix isSpace (u :: t)
      rcases hr : (u :: t).rdropWhile isSpace with _ | ⟨v, t'⟩
      · have := List.rdropWhile_eq_nil_iff.1 hr u List.mem_cons_self
        rw [hu] at this
        exact absurd this (by simp)
      · rw [hr, List.cons_append] at hrest
        exact ⟨t', by rw [(List.cons.inj hrest).1]⟩
    rw [ht', List.dropWhile_cons_of_neg (by simp [hu]), ← ht', List.rdropWhile_idempotent]

theorem keeps_appendMessage (s : State) (role : Role) (text : Line) (now : ℕ) (pending : Bool)
    (h : pending = true → role = .ai) : Keeps s (s.appendMessage role text now pending) := by
  rw [State.appendMessage]
  by_cases hclean : trim text = []
  · rw [if_pos hclean]
    exact keeps_of_messages rfl rfl
  have htext : trim text ≠ [] ∧ trim (trim text) = trim text := ⟨hclean, trim_trim text⟩
  have hpush : Keeps s { s with
      messages := State.keepLast (s.messages ++ [⟨s.nextId, role, trim text, now, pending⟩])
      nextId := s.nextId + 1 } :=
    keeps_push ⟨s.nextId, role, trim text, now, pending⟩ (by with_reducible rfl) rfl rfl htext h
  rw [if_neg hclean]
  rcases hlast : s.messages.getLast? with _ | last
  · exact hpush
  · dsimp only
    split_ifs with hc
    · obtain ⟨-, hai, hp⟩ := hc
      intro hi
      have hsplit : s.messages = s.messages.dropLast ++ [last] :=
        (List.dropLast_append_getLast? last hlast).symm
      refine keeps_replace { last with text := trim text, pending := pending, atTime := now } hsplit ?_ rfl rfl
        htext (fun _ => hai) (fun hno => ?_) hi
      · have hbound := hi.bound
        rw [hsplit, List.length_append, List.length_singleton] at hbound
        dsimp only
        rw [State.keepLast, List.length_append, List.length_singleton, Nat.sub_eq_zero_of_le hbound, List.drop_zero]
      · rw [hno] at hp
        exact absurd hp (by simp)
    · exact hpush

theorem keeps_commitLast (s : State) : Keeps s s.commitLast := by
  rw [State.commitLast]
  rcases hlast : s.messages.getLast? with _ | last
  · exact keeps_of_messages rfl rfl
  · dsimp only
    split_ifs with hai
    · intro hi
      have hsplit : s.messages = s.messages.dropLast ++ [last] :=
        (List.dropLast_append_getLast? last hlast).symm
      have hmem : last ∈ s.messages := List.mem_of_getLast? hlast
      refine keeps_replace { last with pending := false } hsplit rfl rfl rfl (hi.text last hmem)
        (fun h => absurd h (by simp)) (fun hno => ?_) hi
      rw [← hno]
    · exact keeps_of_messages rfl rfl

theorem keeps_sync (s : State) (buffer : List Line) (commitPending : Bool) (now : ℕ) :
    Keeps s (s.syncMobileTranscriptFromBuffer buffer commitPending now) := by
  rw [State.syncMobileTranscriptFromBuffer]
  dsimp only
  split_ifs
  · have hread : Keeps s { s with lastBufferText := cleanBufferText buffer } := keeps_of_messages rfl rfl
    exact hread.trans (keeps_appendMessage _ .ai _ now _ fun _ => rfl)
  · exact keeps_of_messages rfl rfl
  · exact keeps_commitLast s
  · exact keeps_of_messages rfl rfl
  · set trimmed := trimPendingEcho s.pendingEchoText (s.newText (cleanBufferText buffer))
    have hecho : Keeps s { s with pendingEchoText := trimmed.2 } := keeps_of_messages rfl rfl
    refine (hecho.trans (keeps_appendMessage _ .ai trimmed.1 now (!commitPending) fun _ => rfl)).trans ?_
    exact keeps_of_messages rfl rfl

theorem keeps_call (s : State) (c : Call) : Keeps s (s.call c) := by
  cases c with
  | syncMobileTranscriptFromBuffer buffer commitPending now => exact keeps_sync s buffer commitPending now
  | recordMobileTranscriptUserSubmission buffer text now =>
    rw [State.call]
    split_ifs
    · exact keeps_of_messages rfl rfl
    · rw [State.recordMobileTranscriptUserSubmission]
      refine (keeps_sync s buffer true now).trans ?_
      refine (keeps_appendMessage _ .user (sanitizeSubmittedText text) now false (by simp)).trans ?_
      exact keeps_of_messages rfl rfl

theorem keeps_run (s : State) (run : List Call) : Keeps s (run.foldl State.call s) := by
  induction run generalizing s with
  | nil => exact keeps_of_messages rfl rfl
  | cons c run ih => exact (keeps_call s c).trans (ih _)

theorem inv_fresh : Inv fresh where
  ids := rfl
  length_lt := by decide
  bound := by decide
  text := fun m hm => absurd hm (List.not_mem_nil)
  pending := fun m hm => absurd hm (List.not_mem_nil)

/-- Whatever the terminal shows and whenever it is read or something is submitted: the messages are
numbered without a gap, none is blank, only the AI's can be pending, and one that is finished is not
touched again before it is dropped as the oldest. -/
theorem finished_messages_stay (run more : List Call) :
    let s := run.foldl State.call fresh
    let t := more.foldl State.call s
    (∃ first, t.messages.map (·.id) = List.range' first t.messages.length) ∧
      t.messages.length ≤ maxMessagesPerSession ∧
      (∀ m ∈ t.messages, m.text ≠ [] ∧ trim m.text = m.text ∧ (m.pending = true → m.role = .ai)) ∧
      ∀ m ∈ s.messages, m.pending = false → m ∈ t.messages ∨ ∀ m' ∈ t.messages, m.id < m'.id := by
  intro s t
  obtain ⟨hs, -, -⟩ := keeps_run fresh run inv_fresh
  obtain ⟨ht, -, hkept⟩ := keeps_run s more hs
  refine ⟨⟨t.firstId, ht.ids⟩, ht.bound,
    fun m hm => ⟨(ht.text m hm).1, (ht.text m hm).2, ht.pending m hm⟩, fun m hm hp => ?_⟩
  rcases Nat.lt_or_ge m.id t.firstId with hlt | hge
  · right
    intro m' hm'
    have hin : m'.id ∈ t.messages.map (·.id) := List.mem_map_of_mem hm'
    rw [ht.ids, List.mem_range'_1] at hin
    exact hlt.trans_le hin.1
  · exact .inl (hkept m hm hp hge)

end ManyAiCli.Web.MobileTranscript
