import ManyAiCli.Web.HubMarkerFilter

/-! Where the filter of the hub's tags puts each byte. Next to it a ledger is kept: what is
outside of the blocks goes out at once, what is in a block goes to its account, which is paid
out when the block closes. A tag that opens a done block within a marker block is text of the
marker block; the filter puts its first byte out. -/

namespace ManyAiCli.Web.HubMarkerFilter

open Runs

/-! ### The ledger -/

inductive Block where
  | marker
  | done
  deriving DecidableEq, Repr

/-- What a turn takes: a tag that counts as one, or a byte. -/
inductive Item where
  | opening (block : Block)
  | closing (block : Block)
  | byte (b : UInt8)
  deriving DecidableEq, Repr

def Item.text : Item → Bytes
  | .opening .marker => hubMarkerOpenBytes
  | .opening .done => hubDoneMarkerOpen
  | .closing .marker => hubMarkerEndBytes
  | .closing .done => hubDoneMarkerClose
  | .byte b => [b]

/-- The block that is open and its text so far. -/
structure Ledger where
  block : Option Block := none
  text : Bytes := []
  deriving DecidableEq, Repr

/-- The entry for an item, and what is paid out. -/
def Ledger.enter (l : Ledger) : Item → Ledger × Bytes
  | .opening block => ({ l with block := some block }, [])
  | .closing _ => ({}, flushBufToOut l.text ++ eraseDisplayBelowBytes)
  | .byte b =>
    if l.block = none then (l, [b])
    else if (l.text ++ [b]).length > maxMarkerBufferBytes then ({}, [])
    else ({ l with text := l.text ++ [b] }, [])

/-- The tag that the loop looks for and finds, or the next byte. -/
def item (v : Vars) (bytes : Bytes) : Item :=
  let byte := Item.byte (bytes.headD 0)
  if v.inDone then
    if bytesStartWith bytes hubDoneMarkerClose then .closing .done else byte
  else if v.lineStart && bytesStartWith bytes hubDoneMarkerOpen then .opening .done
  else match hubMarkerBytePatterns.find? (bytesStartWith bytes) with
    | some marker =>
      if v.inMarker || v.lineStart then
        if marker = hubMarkerEndBytes then .closing .marker else .opening .marker
      else byte
    | none => byte

/-- The state of the filter is that of the ledger. -/
def Agrees (v : Vars) (l : Ledger) : Prop :=
  match l.block with
  | none => v.inDone = false ∧ v.inMarker = false ∧ v.markerBuf = [] ∧ v.doneBuf = [] ∧ l.text = []
  | some .marker => v.inDone = false ∧ v.inMarker = true ∧ v.markerBuf = l.text ∧ v.doneBuf = []
  | some .done => v.inDone = true ∧ v.inMarker = false ∧ v.markerBuf = [] ∧ v.doneBuf = l.text

/-! ### The turns of a stream -/

abbrev FilterTurn := Reader.Turn Vars UInt8 UInt8

/-- With what state the loop begins. -/
def vars (state : HubMarkerFilterState) : Vars :=
  { inDone := state.inDone
    inMarker := state.inMarker
    markerBuf := state.markerBuf
    doneBuf := state.doneBuf
    lineStart := state.lineStart.getD true
    escPhase := state.escPhase.getD 0 }

/-- All turns while the chunks come one after the other. -/
def turnsOf : HubMarkerFilterState → List Bytes → List FilterTurn
  | _, [] => []
  | state, chunk :: chunks =>
    filter.trace (vars state) (state.carry ++ chunk) ++ turnsOf (filterHubMarkersPure chunk state).2 chunks

/-- Each turn puts out what the ledger pays out, and leaves the state of the ledger. -/
def Follows : Ledger → List FilterTurn → Prop
  | _, [] => True
  | l, t :: ts =>
    let next := l.enter (item t.before t.input)
    t.out = next.2 ∧ Agrees t.after next.1 ∧ Follows next.1 ts

/-- A tag of a done block begins within a marker block. -/
def Nested (t : FilterTurn) : Prop := t.before.inMarker = true ∧ bytesStartWith t.input hubDoneMarkerOpen = true

instance : DecidablePred Nested := fun t =>
  inferInstanceAs (Decidable (t.before.inMarker = true ∧ bytesStartWith t.input hubDoneMarkerOpen = true))

/-- What all chunks display. -/
def displayed : HubMarkerFilterState → List Bytes → Bytes
  | _, [] => []
  | state, chunk :: chunks =>
    let (out, next) := filterHubMarkersPure chunk state
    out ++ displayed next chunks

theorem displayed_eq (state : HubMarkerFilterState) (chunks : List Bytes) :
    displayed state chunks = (turnsOf state chunks).flatMap Reader.Turn.out := by
  induction chunks generalizing state with
  | nil => rfl
  | cons chunk chunks ih =>
    rw [turnsOf, List.flatMap_append, ← ih, ← Reader.run_out]
    rfl

/-- What no turn has taken yet. -/
def carryOf : HubMarkerFilterState → List Bytes → Bytes
  | state, [] => state.carry
  | state, chunk :: chunks => carryOf (filterHubMarkersPure chunk state).2 chunks

/-! ### One turn -/

/-- Within a marker block no line begins. -/
structure Sound (v : Vars) (l : Ledger) : Prop where
  agrees : Agrees v l
  midst : v.inMarker = true → v.lineStart = false

variable {v v' : Vars} {l : Ledger} {b : UInt8} {bytes rest out : Bytes}

/-- Where a done block opens, no other tag does. -/
theorem find?_of_done (hopen : bytesStartWith bytes hubDoneMarkerOpen = true) :
    hubMarkerBytePatterns.find? (bytesStartWith bytes) = none := by
  rw [List.find?_eq_none]
  intro p hp hstarts
  obtain rfl := eq_of_tags (List.mem_cons_of_mem _ hp) (List.mem_cons_self ..) hstarts hopen
  exact absurd hp (by decide)

theorem drop_of_startWith {pattern : Bytes} (h : bytesStartWith bytes pattern = true) :
    pattern ++ bytes.drop pattern.length = bytes := by
  obtain ⟨after, rfl⟩ := List.isPrefixOf_iff_prefix.1 h
  rw [List.drop_left]

/-- An item is taken from the front. -/
theorem turn_takes (ht : turn v bytes = some (v', out, rest)) : (item v bytes).text ++ rest = bytes := by
  cases bytes with
  | nil => cases ht
  | cons b bs =>
    rw [turn] at ht
    rw [item, List.headD_cons]
    by_cases hdone : v.inDone = true
    · rw [if_pos hdone] at ht ⊢
      unfold doneTurn at ht
      dsimp only at ht
      split_ifs at ht ⊢ with hclose hmaybe hfull
      · cases ht
        exact drop_of_startWith hclose
      · cases ht
        rfl
      · cases ht
        rfl
    · rw [if_neg hdone] at ht ⊢
      by_cases hopen : bytesStartWith (b :: bs) hubDoneMarkerOpen = true
      · have hfind : hubMarkerBytePatterns.find? (bytesStartWith (b :: bs)) = none := find?_of_done hopen
        rw [if_pos hopen] at ht
        rw [hfind, hopen, Bool.and_true]
        dsimp only
        split_ifs at ht ⊢ with hline
        · cases ht
          exact drop_of_startWith hopen
        · cases ht
          rfl
      · have hopen' : (v.lineStart && bytesStartWith (b :: bs) hubDoneMarkerOpen) ≠ true :=
          fun both => hopen (Bool.and_eq_true_iff.1 both).2
        rw [if_neg hopen] at ht
        rw [if_neg hopen']
        cases hfind : hubMarkerBytePatterns.find? (bytesStartWith (b :: bs)) with
        | some marker =>
          have hmarker : bytesStartWith (b :: bs) marker = true := List.find?_some hfind
          rw [hfind] at ht
          dsimp only at ht ⊢
          split_ifs at ht ⊢ with hgate hend
          · rw [markerTurn, if_pos hend] at ht
            cases ht
            subst hend
            exact drop_of_startWith hmarker
          · rw [markerTurn, if_neg hend] at ht
            cases ht
            rcases List.mem_pair.1 (List.mem_of_find?_eq_some hfind) with rfl | rfl
            · exact drop_of_startWith hmarker
            · exact absurd rfl hend
          · cases ht
            rfl
        | none =>
          rw [hfind] at ht
          dsimp only at ht ⊢
          unfold bodyTurn passTurn at ht
          dsimp only at ht
          split_ifs at ht
          all_goals
            cases ht
            rfl

theorem trackByte_buffers (v : Vars) (b : UInt8) :
    (trackByte v b).inDone = v.inDone ∧ (trackByte v b).inMarker = v.inMarker ∧
      (trackByte v b).markerBuf = v.markerBuf ∧ (trackByte v b).doneBuf = v.doneBuf := by
  unfold trackByte
  split
  · exact ⟨rfl, rfl, rfl, rfl⟩
  · split_ifs <;> exact ⟨rfl, rfl, rfl, rfl⟩
  · split_ifs <;> exact ⟨rfl, rfl, rfl, rfl⟩
  · split_ifs <;> exact ⟨rfl, rfl, rfl, rfl⟩

theorem agrees_of_none (h : l.block = none) : Agrees v l ↔
    v.inDone = false ∧ v.inMarker = false ∧ v.markerBuf = [] ∧ v.doneBuf = [] ∧ l.text = [] := by
  rw [Agrees, h]

theorem agrees_of_marker (h : l.block = some .marker) : Agrees v l ↔
    v.inDone = false ∧ v.inMarker = true ∧ v.markerBuf = l.text ∧ v.doneBuf = [] := by
  rw [Agrees, h]

theorem agrees_of_done (h : l.block = some .done) : Agrees v l ↔
    v.inDone = true ∧ v.inMarker = false ∧ v.markerBuf = [] ∧ v.doneBuf = l.text := by
  rw [Agrees, h]

/-- A turn that keeps to the ledger. -/
structure Kept (l : Ledger) (i : Item) (v' : Vars) (out : Bytes) : Prop where
  out_eq : out = (l.enter i).2
  sound : Sound v' (l.enter i).1

theorem passTurn_kept (h : Sound v l) (hnone : l.block = none) (ht : passTurn v b rest = some (v', out, bytes)) :
    Kept l (.byte b) v' out := by
  cases ht
  obtain ⟨hdone, hmarker, hmbuf, hdbuf, htext⟩ := (agrees_of_none hnone).1 h.agrees
  obtain ⟨kdone, kmarker, kmbuf, kdbuf⟩ := trackByte_buffers v b
  have henter : l.enter (.byte b) = (l, [b]) := if_pos hnone
  refine ⟨by rw [henter], ?_, ?_⟩
  · rw [henter, agrees_of_none hnone, kdone, kmarker, kmbuf, kdbuf]
    exact ⟨hdone, hmarker, hmbuf, hdbuf, htext⟩
  · intro hin
    rw [kmarker, hmarker] at hin
    cases hin

theorem enter_byte_full (hsome : l.block ≠ none) (hfull : (l.text ++ [b]).length > maxMarkerBufferBytes) :
    l.enter (.byte b) = ({}, []) := by
  rw [Ledger.enter, if_neg hsome, if_pos hfull]

theorem enter_byte_fits (hsome : l.block ≠ none) (hfits : ¬ (l.text ++ [b]).length > maxMarkerBufferBytes) :
    l.enter (.byte b) = ({ l with text := l.text ++ [b] }, []) := by
  rw [Ledger.enter, if_neg hsome, if_neg hfits]

theorem bodyTurn_kept (h : Sound v l) (hblock : l.block = some .marker)
    (ht : bodyTurn v b rest = some (v', out, bytes)) : Kept l (.byte b) v' out := by
  obtain ⟨hdone, hmarker, hmbuf, hdbuf⟩ := (agrees_of_marker hblock).1 h.agrees
  have hsome : l.block ≠ none := by
    rw [hblock]
    exact Option.some_ne_none _
  unfold bodyTurn at ht
  rw [hmbuf] at ht
  dsimp only at ht
  split_ifs at ht with hfull
  · cases ht
    refine ⟨by rw [enter_byte_full hsome hfull], ?_, ?_⟩
    · rw [enter_byte_full hsome hfull]
      exact ⟨hdone, rfl, rfl, hdbuf, rfl⟩
    · intro hin
      cases hin
  · cases ht
    refine ⟨by rw [enter_byte_fits hsome hfull], ?_, h.midst⟩
    rw [enter_byte_fits hsome hfull]
    exact (agrees_of_marker (l := { l with text := l.text ++ [b] }) hblock).2 ⟨hdone, hmarker, rfl, hdbuf⟩

theorem doneTurn_kept (h : Sound v l) (hblock : l.block = some .done)
    (ht : doneTurn v b rest = some (v', out, bytes)) : Kept l (item v (b :: rest)) v' out := by
  obtain ⟨hdone, hmarker, hmbuf, hdbuf⟩ := (agrees_of_done hblock).1 h.agrees
  have hsome : l.block ≠ none := by
    rw [hblock]
    exact Option.some_ne_none _
  unfold doneTurn at ht
  rw [hdbuf] at ht
  dsimp only at ht
  rw [item, if_pos hdone]
  split_ifs at ht ⊢ with hclose hmaybe hfull
  · cases ht
    exact ⟨rfl, ⟨rfl, hmarker, hmbuf, rfl, rfl⟩, fun _ => rfl⟩
  · cases ht
    rw [List.headD_cons]
    refine ⟨by rw [enter_byte_full hsome hfull], ?_, fun _ => rfl⟩
    rw [enter_byte_full hsome hfull]
    exact ⟨rfl, hmarker, hmbuf, rfl, rfl⟩
  · cases ht
    rw [List.headD_cons]
    refine ⟨by rw [enter_byte_fits hsome hfull], ?_, h.midst⟩
    rw [enter_byte_fits hsome hfull]
    exact (agrees_of_done (l := { l with text := l.text ++ [b] }) hblock).2 ⟨hdone, hmarker, hmbuf, rfl⟩

/-- The tags are not taken for each other. -/
theorem end_not_open : hubMarkerOpenBytes ≠ hubMarkerEndBytes := by decide

theorem markerTurn_kept {marker : Bytes} (h : Sound v l) (hblock : l.block ≠ some .done)
    (ht : markerTurn v bytes marker = some (v', out, rest)) :
    Kept l (if marker = hubMarkerEndBytes then .closing .marker else .opening .marker) v' out := by
  have hbufs : v.inDone = false ∧ v.doneBuf = [] ∧ v.markerBuf = l.text := by
    cases hb : l.block with
    | none =>
      obtain ⟨hdone, -, hmbuf, hdbuf, htext⟩ := (agrees_of_none hb).1 h.agrees
      exact ⟨hdone, hdbuf, by rw [hmbuf, htext]⟩
    | some block =>
      cases block with
      | marker =>
        obtain ⟨hdone, -, hmbuf, hdbuf⟩ := (agrees_of_marker hb).1 h.agrees
        exact ⟨hdone, hdbuf, hmbuf⟩
      | done => exact absurd hb hblock
  obtain ⟨hdone, hdbuf, hmbuf⟩ := hbufs
  unfold markerTurn at ht
  rw [hmbuf] at ht
  split_ifs at ht ⊢ with hend
  · cases ht
    exact ⟨rfl, ⟨hdone, rfl, rfl, hdbuf, rfl⟩, fun _ => rfl⟩
  · cases ht
    exact ⟨rfl, ⟨hdone, rfl, rfl, hdbuf⟩, fun _ => rfl⟩

/-- A turn outside of the done blocks, if no tag of theirs begins within a marker block. -/
theorem plainTurn_kept (h : Sound v l) (hblock : l.block ≠ some .done) (hdone : v.inDone = false)
    (hnested : ¬ (v.inMarker = true ∧ bytesStartWith (b :: rest) hubDoneMarkerOpen = true))
    (ht : turn v (b :: rest) = some (v', out, bytes)) : Kept l (item v (b :: rest)) v' out := by
  have hopens : v.inMarker = false → l.block = none := by
    intro hout
    cases hb : l.block with
    | none => rfl
    | some block =>
      cases block with
      | marker =>
        obtain ⟨-, hin, -⟩ := (agrees_of_marker hb).1 h.agrees
        rw [hout] at hin
        cases hin
      | done => exact absurd hb hblock
  have hin : l.block ≠ none → l.block = some .marker := by
    intro hsome
    cases hb : l.block with
    | none => exact absurd hb hsome
    | some block =>
      cases block with
      | marker => rfl
      | done => exact absurd hb hblock
  rw [turn, hdone, if_neg Bool.false_ne_true] at ht
  rw [item, hdone, if_neg Bool.false_ne_true, List.headD_cons]
  by_cases hopen : bytesStartWith (b :: rest) hubDoneMarkerOpen = true
  · have hout : v.inMarker = false := Bool.eq_false_iff.2 fun hm => hnested ⟨hm, hopen⟩
    have hnone := hopens hout
    rw [if_pos hopen] at ht
    cases hline : v.lineStart with
    | true =>
      rw [if_pos hline] at ht
      rw [Bool.true_and, if_pos hopen]
      cases ht
      obtain ⟨-, -, hmbuf, hdbuf, htext⟩ := (agrees_of_none hnone).1 h.agrees
      exact ⟨rfl, ⟨rfl, hout, hmbuf, hdbuf.trans htext.symm⟩, fun _ => rfl⟩
    | false =>
      rw [hline, if_neg Bool.false_ne_true] at ht
      rw [Bool.false_and, if_neg Bool.false_ne_true, hout]
      have hpass := passTurn_kept h hnone ht
      cases hfind : hubMarkerBytePatterns.find? (bytesStartWith (b :: rest)) <;> exact hpass
  · rw [if_neg hopen] at ht
    have hopen' : (v.lineStart && bytesStartWith (b :: rest) hubDoneMarkerOpen) ≠ true :=
      fun both => hopen (Bool.and_eq_true_iff.1 both).2
    rw [if_neg hopen']
    cases hfind : hubMarkerBytePatterns.find? (bytesStartWith (b :: rest)) with
    | some marker =>
      rw [hfind] at ht
      dsimp only at ht ⊢
      by_cases hgate : (v.inMarker || v.lineStart) = true
      · rw [if_pos hgate] at ht ⊢
        exact markerTurn_kept h hblock ht
      · rw [if_neg hgate] at ht ⊢
        exact passTurn_kept h (hopens (Bool.or_eq_false_iff.1 (Bool.eq_false_iff.2 hgate)).1) ht
    | none =>
      rw [hfind] at ht
      dsimp only at ht ⊢
      split_ifs at ht with hmaybe hmarker
      · have hsome : l.block ≠ none := by
          intro hnone
          obtain ⟨-, hout, -⟩ := (agrees_of_none hnone).1 h.agrees
          rw [hout] at hmarker
          cases hmarker
        exact bodyTurn_kept h (hin hsome) ht
      · exact passTurn_kept h (hopens (Bool.eq_false_iff.2 hmarker)) ht

theorem turn_kept (h : Sound v l)
    (hnested : ¬ (v.inMarker = true ∧ bytesStartWith bytes hubDoneMarkerOpen = true))
    (ht : turn v bytes = some (v', out, rest)) : Kept l (item v bytes) v' out := by
  cases bytes with
  | nil => cases ht
  | cons b bs =>
    by_cases hblock : l.block = some .done
    · obtain ⟨hdone, -⟩ := (agrees_of_done hblock).1 h.agrees
      rw [turn, if_pos hdone] at ht
      exact doneTurn_kept h hblock ht
    · apply plainTurn_kept h hblock _ hnested ht
      cases hb : l.block with
      | none => exact ((agrees_of_none hb).1 h.agrees).1
      | some block =>
        cases block with
        | marker => exact ((agrees_of_marker hb).1 h.agrees).1
        | done => exact absurd hb hblock

/-- The other way of a tag within a marker block: its first byte is put out. -/
theorem nested_out (h : Sound v l) (hmarker : v.inMarker = true)
    (hopen : bytesStartWith bytes hubDoneMarkerOpen = true) (ht : turn v bytes = some (v', out, rest)) :
    out ≠ (l.enter (item v bytes)).2 := by
  cases bytes with
  | nil => cases ht
  | cons b bs =>
    have hline := h.midst hmarker
    have hblock : l.block = some .marker ∧ v.inDone = false := by
      cases hb : l.block with
      | none =>
        obtain ⟨-, hout, -⟩ := (agrees_of_none hb).1 h.agrees
        rw [hout] at hmarker
        cases hmarker
      | some block =>
        cases block with
        | marker => exact ⟨rfl, ((agrees_of_marker hb).1 h.agrees).1⟩
        | done =>
          obtain ⟨-, hout, -⟩ := (agrees_of_done hb).1 h.agrees
          rw [hout] at hmarker
          cases hmarker
    obtain ⟨hblock, hdone⟩ := hblock
    have hitem : item v (b :: bs) = .byte b := by
      rw [item, hdone, if_neg Bool.false_ne_true, hline, Bool.false_and, if_neg Bool.false_ne_true,
        find?_of_done hopen, List.headD_cons]
    have hpaid : (l.enter (.byte b)).2 = [] := by
      rw [Ledger.enter, if_neg (by rw [hblock]; exact Option.some_ne_none _)]
      split_ifs <;> rfl
    rw [turn, hdone, if_neg Bool.false_ne_true, if_pos hopen, hline, if_neg Bool.false_ne_true] at ht
    cases ht
    rw [hitem, hpaid]
    exact List.cons_ne_nil _ _

/-! ### All turns -/

/-- After the turns. -/
def Ledger.after (l : Ledger) : List FilterTurn → Ledger
  | [] => l
  | t :: ts => ((l.enter (item t.before t.input)).1).after ts

theorem follows_append (l : Ledger) (ts us : List FilterTurn) :
    Follows l (ts ++ us) ↔ Follows l ts ∧ Follows (l.after ts) us := by
  induction ts generalizing l with
  | nil => exact ⟨fun hf => ⟨trivial, hf⟩, fun hf => hf.2⟩
  | cons t ts ih =>
    rw [List.cons_append, Follows, Follows, Ledger.after, ih, and_assoc, and_assoc]

/-- One chunk: exactly the nested tags break with the ledger. -/
theorem trace_follows (h : Sound v l) (bytes : Bytes) :
    (Follows l (filter.trace v bytes) ↔ ∀ t ∈ filter.trace v bytes, ¬ Nested t) ∧
      (Follows l (filter.trace v bytes) → Sound (filter.run v bytes).1 (l.after (filter.trace v bytes))) := by
  induction hn : bytes.length using Nat.strongRecOn generalizing v l bytes with
  | ind n ih =>
    cases ht : filter.turn v bytes with
    | none =>
      rw [Reader.trace_of_none ht, Reader.run_of_none ht]
      exact ⟨⟨fun _ t hmem => absurd hmem List.not_mem_nil, fun _ => trivial⟩, fun _ => h⟩
    | some next =>
      obtain ⟨v', out, rest⟩ := next
      have hlt := turn_shrinks ht
      rw [Reader.trace_of_some ht, Reader.run_of_some ht]
      by_cases hnested : v.inMarker = true ∧ bytesStartWith bytes hubDoneMarkerOpen = true
      · have hbreak := nested_out h hnested.1 hnested.2 ht
        refine ⟨⟨fun hf => absurd hf.1 hbreak, fun hno => ?_⟩, fun hf => absurd hf.1 hbreak⟩
        exact absurd hnested (hno _ (List.mem_cons_self ..))
      · have hkept := turn_kept h hnested ht
        obtain ⟨hiff, hsound⟩ := ih rest.length (by omega) hkept.sound rest rfl
        refine ⟨⟨fun hf t hmem => ?_, fun hno => ?_⟩, fun hf => hsound hf.2.2⟩
        · rcases List.mem_cons.1 hmem with rfl | hmem
          · exact hnested
          · exact hiff.1 hf.2.2 t hmem
        · exact ⟨hkept.out_eq, hkept.sound.agrees, hiff.2 fun t hmem => hno t (List.mem_cons_of_mem _ hmem)⟩

theorem turnsOf_follows {state : HubMarkerFilterState} (h : Sound (vars state) l) (chunks : List Bytes) :
    Follows l (turnsOf state chunks) ↔ ∀ t ∈ turnsOf state chunks, ¬ Nested t := by
  induction chunks generalizing state l with
  | nil => exact ⟨fun _ t hmem => absurd hmem List.not_mem_nil, fun _ => trivial⟩
  | cons chunk chunks ih =>
    obtain ⟨hiff, hsound⟩ := trace_follows h (state.carry ++ chunk)
    have hnext : ∀ (l' : Ledger), Sound (filter.run (vars state) (state.carry ++ chunk)).1 l' →
        Sound (vars (filterHubMarkersPure chunk state).2) l' := fun _ hs => hs
    rw [turnsOf, follows_append, List.forall_mem_append]
    constructor
    · intro hf
      exact ⟨hiff.1 hf.1, (ih (hnext _ (hsound hf.1))).1 hf.2⟩
    · intro hno
      have hfirst := hiff.2 hno.1
      exact ⟨hfirst, (ih (hnext _ (hsound hfirst))).2 hno.2⟩

theorem trace_takes (v : Vars) (bytes : Bytes) :
    (filter.trace v bytes).flatMap (fun t => (item t.before t.input).text) ++ (filter.run v bytes).2.2 = bytes := by
  induction hn : bytes.length using Nat.strongRecOn generalizing v bytes with
  | ind n ih =>
    cases ht : filter.turn v bytes with
    | none =>
      rw [Reader.trace_of_none ht, Reader.run_of_none ht]
      rfl
    | some next =>
      obtain ⟨v', out, rest⟩ := next
      have hlt := turn_shrinks ht
      rw [Reader.trace_of_some ht, Reader.run_of_some ht, List.flatMap_cons, List.append_assoc]
      rw [ih rest.length (by omega) v' rest rfl]
      exact turn_takes ht

/-- No byte of the stream is left out. -/
theorem turnsOf_takes (state : HubMarkerFilterState) (chunks : List Bytes) :
    (turnsOf state chunks).flatMap (fun t => (item t.before t.input).text) ++ carryOf state chunks =
      state.carry ++ chunks.flatten := by
  induction chunks generalizing state with
  | nil => exact (List.append_nil _).symm
  | cons chunk chunks ih =>
    rw [turnsOf, carryOf, List.flatMap_append, List.append_assoc, ih, ← List.append_assoc]
    rw [show (filterHubMarkersPure chunk state).2.carry = (filter.run (vars state) (state.carry ++ chunk)).2.2 from rfl]
    rw [trace_takes, List.flatten_cons, List.append_assoc]

theorem sound_empty : Sound (vars {}) {} :=
  ⟨⟨rfl, rfl, rfl, rfl, rfl⟩, fun hin => by cases hin⟩

/-- From the empty state, the turns take the whole stream and put out all that is displayed. They
keep to the ledger exactly if no tag that opens a done block begins within a marker block. -/
theorem follows_iff_not_nested (chunks : List Bytes) :
    (turnsOf {} chunks).flatMap (fun t => (item t.before t.input).text) ++ carryOf {} chunks = chunks.flatten ∧
      displayed {} chunks = (turnsOf {} chunks).flatMap Reader.Turn.out ∧
      (Follows {} (turnsOf {} chunks) ↔ ∀ t ∈ turnsOf {} chunks, ¬ Nested t) :=
  ⟨turnsOf_takes {} chunks, displayed_eq {} chunks, turnsOf_follows sound_empty chunks⟩

/-- The bracket of the inner tag is displayed before the text of the block. -/
theorem nested_bracket_displayed :
    let chunk := encode "[MANY-AI-CLI]a[MANY-AI-CLI-DONE]b[/MANY-AI-CLI]".toList
    ¬ Follows {} (turnsOf {} [chunk]) ∧
      displayed {} [chunk] = encode "[aMANY-AI-CLI-DONE]b\x1b[J".toList := by
  intro chunk
  constructor
  · rw [(turnsOf_follows sound_empty [chunk])]
    decide +kernel
  · decide +kernel

end ManyAiCli.Web.HubMarkerFilter
