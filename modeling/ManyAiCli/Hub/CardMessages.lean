import Mathlib.Data.Finset.Dedup
import Mathlib.Data.Finset.Insert
import ManyAiCli.Hub.InputGate
import ManyAiCli.SessionLog.MaskSecrets

/-! What a session's card in the browser shows of the session: its first and last message and its
badge for board notices. A browser that connects receives them in a snapshot; after that each
change comes in a partial message. The encoder leaves out empty and false fields, and the browser
merges each field under a rule of its own. -/

namespace ManyAiCli.Hub.CardMessages

open Text Runs

/-! ### The server -/

structure Session where
  state : String
  autoTitle : List Char := []
  firstMessage : List Char := []
  lastMessage : List Char := []
  boardNotifyPending : Bool := false
  deriving DecidableEq, Repr

/-- The sessions by ID; IDs are allocated from 1. -/
structure Server where
  ids : Finset ℤ
  sessions : ℤ → Option Session
  mem_ids : ∀ id, id ∈ ids ↔ (sessions id).isSome
  pos : ∀ id ∈ ids, 0 < id

/-- Change some of the sessions. -/
def Server.modify (srv : Server) (ids : List ℤ) (f : Session → Session) : Server where
  ids := srv.ids
  sessions id := if id ∈ ids then (srv.sessions id).map f else srv.sessions id
  mem_ids id := by
    rw [srv.mem_ids]
    split
    · rw [Option.isSome_map]
    · rfl
  pos := srv.pos

inductive MessageType
  | ptyData
  | sessionUpdate
  | sessionHistoryReset
  deriving DecidableEq, Repr

/-- A broadcast. A field without a value is empty, and so the encoder sees it. -/
structure Message where
  type : MessageType
  sessionID : ℤ
  state : String := ""
  firstMessage : List Char := []
  lastMessage : List Char := []
  boardNotifyPending : Bool := false
  sessionMeta : Option (List Char) := none
  deriving DecidableEq, Repr

def isControl (c : Char) : Bool := c.toNat < 0x20 || (0x7f ≤ c.toNat && c.toNat < 0xa0)

def normalizeSessionMetaText (value : List Char) (maxRunes : ℕ) : List Char :=
  let value := [' '].intercalate (fields (value.filter fun c => !isControl c))
  if maxRunes = 0 then value else value.take maxRunes

def isDigitsOnly (s : List Char) : Bool := s ≠ [] && s.all fun c => '0' ≤ c && c ≤ '9'

/-- The text of a turn that the input ends, without the marks of a paste. -/
def turnText (text : Input) : Option (List Char) :=
  if hasSuffix text ['\r'] || hasSuffix text bracketedPasteEnd then
    let text := trimRight (fun c => c = '\r' || c = '\n') text
    let text := removeAll bracketedPasteStart 0 text
    some (removeAll bracketedPasteEnd 0 text)
  else none

def clearCommand : List Char := ['/', 'c', 'l', 'e', 'a', 'r']

def Session.forget (ses : Session) : Session := { ses with firstMessage := [], lastMessage := [] }

/-- The messages and the title of a session after a turn that is not empty. -/
def Session.takeTurn (ses : Session) (text : List Char) : Session :=
  let maskedText := SessionLog.maskSecrets text
  { ses with
    firstMessage := if ses.firstMessage = [] then maskedText else ses.firstMessage
    autoTitle :=
      if ses.firstMessage = [] ∧ ses.autoTitle = [] then normalizeSessionMetaText maskedText 40
      else ses.autoTitle
    lastMessage := if isDigitsOnly text then ses.lastMessage else maskedText }

def turnMessage (id : ℤ) (ses : Session) : Message :=
  { type := .sessionUpdate, sessionID := id, state := ses.state, firstMessage := ses.firstMessage,
    lastMessage := ses.lastMessage, sessionMeta := some ses.autoTitle }

/-- What `handleInput` does to a card; the text's way to the wrapper is left out. -/
def handleInput (srv : Server) (id : ℤ) (text : Input) : Server × List Message :=
  match srv.sessions id, turnText text with
  | some ses, some text =>
    if text = clearCommand then
      (srv.modify [id] Session.forget, [{ type := .sessionUpdate, sessionID := id, state := ses.state }])
    else if text ≠ [] then
      (srv.modify [id] fun ses => ses.takeTurn text,
        [{ type := .ptyData, sessionID := id }, turnMessage id (ses.takeTurn text)])
    else (srv, [])
  | _, _ => (srv, [])

/-- The sessions that a reset is for: one, or all in the order in which the map yields them. -/
def resetIDs (srv : Server) (id : ℤ) (order : List ℤ) : List ℤ :=
  if 0 < id then if (srv.sessions id).isSome then [id] else [] else order

def resetUpdate (srv : Server) (id : ℤ) : Option Message :=
  (srv.sessions id).map fun ses => { type := .sessionUpdate, sessionID := id, state := ses.state }

def handleHistoryReset (srv : Server) (id : ℤ) (order : List ℤ) : Server × List Message :=
  let ids := resetIDs srv id order
  (srv.modify ids Session.forget,
    if 0 < id ∧ ids = [] then []
    else { type := .sessionHistoryReset, sessionID := id } :: ids.filterMap (resetUpdate srv))

def sessionUpdateMessage (id : ℤ) (ses : Session) : Message :=
  { type := .sessionUpdate, sessionID := id, state := ses.state, boardNotifyPending := ses.boardNotifyPending
    }

def setBoardNotifyPending (srv : Server) (id : ℤ) (pending : Bool) : Server × List Message :=
  match srv.sessions id with
  | some ses =>
    if ses.boardNotifyPending = pending then (srv, [])
    else
      let ses := { ses with boardNotifyPending := pending }
      (srv.modify [id] fun ses => { ses with boardNotifyPending := pending }, [sessionUpdateMessage id ses])
  | none => (srv, [])

/-! ### On the wire -/

/-- `omitempty`: the zero value is left out. -/
def omitEmpty {α : Type} [DecidableEq α] (zero a : α) : Option α := if a = zero then none else some a

/-- A message as the browser reads it; a field that is left out is undefined. -/
structure Wire where
  type : MessageType
  sessionID : Option ℤ
  state : Option String
  firstMessage : Option (List Char)
  lastMessage : Option (List Char)
  boardNotifyPending : Option Bool
  sessionMeta : Option (List Char)
  deriving DecidableEq, Repr

def Message.encode (m : Message) : Wire where
  type := m.type
  sessionID := omitEmpty 0 m.sessionID
  state := omitEmpty "" m.state
  firstMessage := omitEmpty [] m.firstMessage
  lastMessage := omitEmpty [] m.lastMessage
  boardNotifyPending := omitEmpty false m.boardNotifyPending
  sessionMeta := m.sessionMeta

/-- A session in the browser's memory. -/
structure UISession where
  autoTitle : Option (List Char) := none
  firstMessage : Option (List Char) := none
  lastMessage : Option (List Char) := none
  boardNotifyPending : Option Bool := none
  deriving DecidableEq, Repr

/-- The browser's sessions; a key may be undefined. -/
abbrev UI := Option ℤ → Option UISession

/-- A session's fields in a snapshot. -/
structure SnapshotSession where
  state : String
  fields : UISession

def snapshot (srv : Server) (id : ℤ) : Option SnapshotSession :=
  (srv.sessions id).map fun ses => {
    state := ses.state
    fields := {
      autoTitle := omitEmpty [] ses.autoTitle
      firstMessage := omitEmpty [] ses.firstMessage
      lastMessage := omitEmpty [] ses.lastMessage
      boardNotifyPending := omitEmpty false ses.boardNotifyPending } }

/-! ### The browser -/

def completed : String := "completed"

/-- A snapshot replaces the sessions it names, but for the completed ones. -/
def UI.onSnapshot (ui : UI) (snap : ℤ → Option SnapshotSession) : UI := fun key =>
  match key with
  | some id =>
    match snap id with
    | some s => if s.state = completed then ui key else some s.fields
    | none => ui key
  | none => ui key

/-- `if (m.field) cur.field = m.field`. -/
def mergeTruthy (cur field : Option (List Char)) : Option (List Char) :=
  if field.getD [] = [] then cur else field

/-- `if (m.field !== undefined) cur.field = m.field`. -/
def mergeDefined {α : Type} (cur field : Option α) : Option α := field.or cur

def UISession.merge (cur : UISession) (m : Wire) : UISession where
  autoTitle := mergeDefined cur.autoTitle m.sessionMeta
  firstMessage := mergeTruthy cur.firstMessage m.firstMessage
  lastMessage := mergeTruthy cur.lastMessage m.lastMessage
  boardNotifyPending := mergeDefined cur.boardNotifyPending m.boardNotifyPending

def UISession.forget (s : UISession) : UISession := { s with firstMessage := some [], lastMessage := some [] }

/-- `resetLocalSessionHistory`. -/
def UI.resetLocalSessionHistory (ui : UI) (key : Option ℤ) : UI :=
  Function.update ui key ((ui key).map UISession.forget)

/-- `resetAllLocalSessionHistory`. -/
def UI.resetAllLocalSessionHistory (ui : UI) : UI := fun key => (ui key).map UISession.forget

/-- The handler of the browser's socket; a missing ID is 0 to a test for truth. -/
def UI.onMessage (ui : UI) (m : Wire) : UI :=
  match m.type with
  | .ptyData => ui
  | .sessionHistoryReset =>
    if m.sessionID.getD 0 = 0 then ui.resetAllLocalSessionHistory else ui.resetLocalSessionHistory m.sessionID
  | .sessionUpdate =>
    if m.state = some completed then Function.update ui m.sessionID none
    else Function.update ui m.sessionID (some (((ui m.sessionID).getD {}).merge m))

/-- A browser that has just connected. -/
def connect (srv : Server) : UI := UI.onSnapshot (fun _ => none) (snapshot srv)

/-! ### Runs -/

inductive Op
  | handleInput (id : ℤ) (text : Input)
  /-- With the order in which the map of sessions is walked. -/
  | handleHistoryReset (id : ℤ) (order : List ℤ)
  | setBoardNotifyPending (id : ℤ) (pending : Bool)
  deriving DecidableEq, Repr

/-- The order of a walk names each session once. -/
def Op.possible (srv : Server) : Op → Bool
  | .handleHistoryReset _ order => order.Nodup ∧ order.toFinset = srv.ids
  | _ => true

def apply (srv : Server) : Op → Server × List Message
  | .handleInput id text => handleInput srv id text
  | .handleHistoryReset id order => handleHistoryReset srv id order
  | .setBoardNotifyPending id pending => setBoardNotifyPending srv id pending

/-- An operation, with its broadcasts handled in order. -/
def step (s : Server × UI) (op : Op) : Option ((Server × UI) × List Wire) :=
  if op.possible s.1 then
    let r := apply s.1 op
    let sent := r.2.map Message.encode
    some ((r.1, sent.foldl UI.onMessage s.2), sent)
  else none

/-! ### Cards -/

/-- A card without telling absent, empty and false apart. -/
structure Card where
  firstMessage : List Char := []
  lastMessage : List Char := []
  boardNotifyPending : Bool := false
  deriving DecidableEq, Repr

def UISession.card (s : UISession) : Card where
  firstMessage := s.firstMessage.getD []
  lastMessage := s.lastMessage.getD []
  boardNotifyPending := s.boardNotifyPending.getD false

def Session.card (ses : Session) : Card where
  firstMessage := ses.firstMessage
  lastMessage := ses.lastMessage
  boardNotifyPending := ses.boardNotifyPending

def UI.cards (ui : UI) (key : Option ℤ) : Option Card := (ui key).map UISession.card

/-- The browser's cards are those it had if it connected now. -/
def Agrees (srv : Server) (ui : UI) : Prop := ui.cards = (connect srv).cards

/-- A card with the fields of a message that are not left out. -/
def Card.merge (c : Card) (m : Message) : Card where
  firstMessage := if m.firstMessage = [] then c.firstMessage else m.firstMessage
  lastMessage := if m.lastMessage = [] then c.lastMessage else m.lastMessage
  boardNotifyPending := m.boardNotifyPending || c.boardNotifyPending

def Card.forget (c : Card) : Card := { c with firstMessage := [], lastMessage := [] }

/-- The card of a session, which a completed session does not have. -/
def Session.shown (ses : Session) : Option Card := if ses.state = completed then none else some ses.card

@[simp] theorem getD_omitEmpty {α : Type} [DecidableEq α] (zero a : α) :
    (omitEmpty zero a).getD zero = a := by
  rw [omitEmpty]
  split
  next h => exact h.symm
  next => rfl

theorem omitEmpty_eq_some {α : Type} [DecidableEq α] {zero a b : α} (hb : b ≠ zero) :
    omitEmpty zero a = some b ↔ a = b := by
  rw [omitEmpty]
  split
  next h => simp only [reduceCtorEq, h, hb.symm]
  next => exact Option.some_inj

/-- The cards that a snapshot gives. -/
def Server.cards (srv : Server) : Option ℤ → Option Card
  | some id => (srv.sessions id).bind Session.shown
  | none => none

theorem cards_connect (srv : Server) : (connect srv).cards = srv.cards := by
  funext key
  cases key with
  | none => rfl
  | some id =>
    rw [UI.cards, connect, UI.onSnapshot, snapshot, Server.cards]
    cases srv.sessions id with
    | none => rfl
    | some ses =>
      simp only [Option.map_some, Option.bind_some, Session.shown]
      split
      next => rfl
      next => simp only [Option.map_some, UISession.card, getD_omitEmpty, Session.card]

theorem agrees_iff {srv : Server} {ui : UI} : Agrees srv ui ↔ ui.cards = srv.cards := by
  rw [Agrees, cards_connect]

theorem agrees_connect (srv : Server) : Agrees srv (connect srv) := rfl

theorem mergeTruthy_getD (cur : Option (List Char)) (a : List Char) :
    (mergeTruthy cur (omitEmpty [] a)).getD [] = if a = [] then cur.getD [] else a := by
  rw [mergeTruthy, getD_omitEmpty]
  split
  next => rfl
  next h => rw [omitEmpty, if_neg h, Option.getD_some]

theorem mergeDefined_getD (cur : Option Bool) (a : Bool) :
    (mergeDefined cur (omitEmpty false a)).getD false = (a || cur.getD false) := by
  cases a <;> rfl

theorem card_merge (cur : UISession) (m : Message) : (cur.merge m.encode).card = cur.card.merge m := by
  simp only [UISession.card, UISession.merge, Message.encode, mergeTruthy_getD, mergeDefined_getD, Card.merge]

/-- What an update does to the cards. -/
theorem cards_onMessage_update (ui : UI) {m : Message} (ht : m.type = .sessionUpdate) (hid : m.sessionID ≠ 0)
    :
    (ui.onMessage m.encode).cards = Function.update ui.cards (some m.sessionID)
      (if m.state = completed then none else some (((ui.cards (some m.sessionID)).getD {}).merge m)) := by
  have hkey : m.encode.sessionID = some m.sessionID := if_neg hid
  have hstate : m.encode.state = some completed ↔ m.state = completed := omitEmpty_eq_some (by decide)
  have hcard : (((ui (some m.sessionID)).getD {}).merge m.encode).card =
      ((ui.cards (some m.sessionID)).getD {}).merge m := by
    rw [card_merge, UI.cards]
    cases ui (some m.sessionID) <;> rfl
  have htype : m.encode.type = .sessionUpdate := ht
  rw [UI.onMessage, htype]
  simp only [hkey, hstate]
  funext key
  split
  next => rw [UI.cards, Function.update_apply, Function.update_apply, UI.cards]; split <;> rfl
  next =>
    rw [UI.cards, Function.update_apply, Function.update_apply, ← hcard, UI.cards]
    split <;> rfl

/-- What a reset does to the cards. -/
theorem cards_onMessage_reset (ui : UI) {m : Message} (ht : m.type = .sessionHistoryReset) :
    (ui.onMessage m.encode).cards = fun key =>
      if m.sessionID = 0 ∨ key = some m.sessionID then (ui.cards key).map Card.forget else ui.cards key := by
  have htype : m.encode.type = .sessionHistoryReset := ht
  have hid : m.encode.sessionID.getD 0 = m.sessionID := getD_omitEmpty 0 m.sessionID
  have hforget (s : Option UISession) :
      (s.map UISession.forget).map UISession.card = (s.map UISession.card).map Card.forget := by
    cases s <;> rfl
  rw [UI.onMessage, htype]
  simp only [hid]
  funext key
  by_cases h0 : m.sessionID = 0
  · rw [if_pos h0, if_pos (.inl h0)]
    exact hforget _
  · have hkey : m.encode.sessionID = some m.sessionID := if_neg h0
    rw [if_neg h0, UI.cards, UI.resetLocalSessionHistory, hkey, Function.update_apply]
    simp only [h0, false_or]
    split
    next h =>
      subst h
      exact hforget _
    next => rfl

/-! ### One operation -/

section Step

variable {srv : Server} {ui : UI} {id : ℤ} {ses : Session}

theorem pos_of_session (h : srv.sessions id = some ses) : 0 < id :=
  srv.pos id ((srv.mem_ids id).2 (h ▸ rfl))

theorem cards_modify_one (h : srv.sessions id = some ses) (f : Session → Session) :
    (srv.modify [id] f).cards = Function.update srv.cards (some id) (f ses).shown := by
  funext key
  rw [Function.update_apply]
  cases key with
  | none => rfl
  | some id' =>
    change (if id' ∈ [id] then (srv.sessions id').map f else srv.sessions id').bind Session.shown = _
    simp only [List.mem_singleton, Option.some.injEq]
    split
    next heq =>
      subst heq
      rw [h]
      rfl
    next => rfl

/-- After a change and its message the browser agrees if the message says all of the change. -/
theorem agrees_update_iff (ha : Agrees srv ui) (h : srv.sessions id = some ses) {f : Session → Session}
    (hf : (f ses).state = ses.state) {m : Message} (ht : m.type = .sessionUpdate) (hid : m.sessionID = id)
    (hstate : m.state = ses.state) :
    Agrees (srv.modify [id] f) (ui.onMessage m.encode) ↔
      (ses.state ≠ completed → ses.card.merge m = (f ses).card) := by
  have h0 : m.sessionID ≠ 0 := hid ▸ (pos_of_session h).ne'
  have hcard : srv.cards (some id) = ses.shown := by
    rw [Server.cards, h, Option.bind_some]
  rw [agrees_iff, cards_onMessage_update ui ht h0, cards_modify_one h, agrees_iff.1 ha, hid, hstate, hcard,
    Session.shown, Session.shown, hf]
  by_cases hc : ses.state = completed
  · simp only [hc, if_true, ne_eq, not_true_eq_false, false_imp_iff]
  · simp only [hc, if_false, Option.getD_some, ne_eq, not_false_eq_true, true_imp_iff]
    constructor
    · intro heq
      have := congrFun heq (some id)
      rw [Function.update_self, Function.update_self] at this
      exact Option.some.inj this
    · intro heq
      rw [heq]

theorem cards_modify_forget (srv : Server) (ids : List ℤ) :
    (srv.modify ids Session.forget).cards = fun key =>
      if ∃ id ∈ ids, key = some id then (srv.cards key).map Card.forget else srv.cards key := by
  funext key
  cases key with
  | none =>
    split <;> rfl
  | some id =>
    change (if id ∈ ids then (srv.sessions id).map Session.forget else srv.sessions id).bind Session.shown = _
    simp only [Option.some.injEq, exists_eq_right', Server.cards]
    split
    next =>
      cases srv.sessions id with
      | none => rfl
      | some ses =>
        simp only [Option.map_some, Option.bind_some, Session.shown, Session.forget]
        split <;> rfl
    next => rfl

/-- Updates without messages and badge change no card. -/
theorem cards_onMessage_resetUpdates (ids : List ℤ)
    (h : ∀ id ses, srv.sessions id = some ses → (ui.cards (some id) = none ↔ ses.state = completed)) :
    (((ids.filterMap (resetUpdate srv)).map Message.encode).foldl UI.onMessage ui).cards = ui.cards := by
  induction ids generalizing ui with
  | nil => rfl
  | cons id ids ih =>
    cases hs : srv.sessions id with
    | none =>
      rw [List.filterMap_cons_none (by rw [resetUpdate, hs]; rfl)]
      exact ih h
    | some ses =>
      rw [List.filterMap_cons_some (by rw [resetUpdate, hs]; rfl), List.map_cons, List.foldl_cons]
      have hcards : (ui.onMessage (Message.encode
          { type := .sessionUpdate, sessionID := id, state := ses.state })).cards = ui.cards := by
        rw [cards_onMessage_update ui rfl (pos_of_session hs).ne']
        funext key
        rw [Function.update_apply]
        split
        next heq =>
          subst heq
          split
          next hc => exact ((h id ses hs).2 hc).symm
          next hc =>
            cases hu : ui.cards (some id) with
            | none => exact absurd ((h id ses hs).1 hu) hc
            | some c => rfl
        next => rfl
      rw [ih (hcards ▸ h), hcards]

/-- The message of a turn says all that the turn changed, since a masked text is not empty. -/
theorem merge_takeTurn {text : List Char} (ht : text ≠ []) {m : Message}
    (hfirst : m.firstMessage = (ses.takeTurn text).firstMessage)
    (hlast : m.lastMessage = (ses.takeTurn text).lastMessage) (hpending : m.boardNotifyPending = false) :
    ses.card.merge m = (ses.takeTurn text).card := by
  have hmask := SessionLog.maskSecrets_ne_nil ht
  rw [Card.merge, hfirst, hlast, hpending]
  simp only [Session.card, Session.takeTurn, Card.mk.injEq, Bool.false_or, and_true]
  constructor
  · apply if_neg
    split
    next => exact hmask
    next h => exact h
  · by_cases hd : isDigitsOnly text = true
    · simp only [if_pos hd, ite_self]
    · simp only [if_neg hd, if_neg hmask]

/-- The session has no messages, or no card that could show them. -/
def Bare (srv : Server) (id : ℤ) : Prop :=
  ∀ ses, srv.sessions id = some ses → ses.state ≠ completed → ses.firstMessage = [] ∧ ses.lastMessage = []

theorem agrees_handleInput (ha : Agrees srv ui) (text : Input) :
    Agrees (handleInput srv id text).1
        (((handleInput srv id text).2.map Message.encode).foldl UI.onMessage ui) ↔
      (turnText text = some clearCommand → Bare srv id) := by
  rw [handleInput]
  cases hs : srv.sessions id with
  | none => exact iff_of_true ha fun _ ses h => absurd (hs.symm.trans h) (Option.some_ne_none _).symm
  | some ses =>
    cases ht : turnText text with
    | none => exact iff_of_true ha fun h => absurd h.symm (Option.some_ne_none _)
    | some turn =>
      simp only [Option.some.injEq]
      by_cases hc : turn = clearCommand
      · rw [if_pos hc]
        simp only [hc, true_imp_iff, Bare, hs, Option.some.injEq, forall_eq']
        rw [List.map_cons, List.map_nil, List.foldl_cons, List.foldl_nil,
          agrees_update_iff ha hs (f := Session.forget) rfl rfl rfl rfl]
        apply imp_congr_right
        intro _
        simp only [Card.merge, Session.card, Session.forget, Card.mk.injEq, if_true, Bool.false_or, and_true]
      · rw [if_neg hc]
        refine iff_of_true ?_ fun h => absurd h hc
        by_cases hn : turn ≠ []
        · rw [if_pos hn]
          change Agrees (srv.modify [id] fun ses => ses.takeTurn turn)
            (ui.onMessage (turnMessage id (ses.takeTurn turn)).encode)
          rw [agrees_update_iff ha hs (by rfl) rfl rfl (by rfl)]
          intro _
          exact merge_takeTurn hn rfl rfl rfl
        · rw [if_neg hn]
          exact ha

theorem agrees_setBoardNotifyPending (ha : Agrees srv ui) (pending : Bool) :
    Agrees (setBoardNotifyPending srv id pending).1
        (((setBoardNotifyPending srv id pending).2.map Message.encode).foldl UI.onMessage ui) ↔
      (pending = false → ∀ ses, srv.sessions id = some ses → ses.state ≠ completed →
        ses.boardNotifyPending = false) := by
  rw [setBoardNotifyPending]
  cases hs : srv.sessions id with
  | none => exact iff_of_true ha fun _ _ h => absurd h.symm (Option.some_ne_none _)
  | some ses =>
    simp only [Option.some.injEq, forall_eq']
    by_cases hp : ses.boardNotifyPending = pending
    · rw [if_pos hp]
      exact iff_of_true ha fun h _ => hp.trans h
    · rw [if_neg hp, List.map_cons, List.map_nil, List.foldl_cons, List.foldl_nil,
        agrees_update_iff ha hs (f := fun ses => { ses with boardNotifyPending := pending }) rfl rfl rfl rfl]
      simp only [Card.merge, Session.card, sessionUpdateMessage, if_true, Card.mk.injEq, true_and]
      cases pending with
      | true => exact iff_of_true (fun _ => rfl) fun h => absurd h.symm Bool.false_ne_true
      | false => simp only [Bool.false_or, true_imp_iff]

theorem cards_some_eq_none_iff (h : srv.sessions id = some ses) :
    srv.cards (some id) = none ↔ ses.state = completed := by
  rw [Server.cards, h, Option.bind_some, Session.shown]
  split
  next hc => exact iff_of_true rfl hc
  next hc => exact iff_of_false (Option.some_ne_none _) hc

/-- The cards after the messages of a reset; its updates add nothing. -/
theorem cards_reset (ha : Agrees srv ui) (id : ℤ) (ids : List ℤ) :
    (((({ type := .sessionHistoryReset, sessionID := id } : Message) ::
        ids.filterMap (resetUpdate srv)).map Message.encode).foldl UI.onMessage ui).cards = fun key =>
      if id = 0 ∨ key = some id then (srv.cards key).map Card.forget else srv.cards key := by
  have hreset : (ui.onMessage (Message.encode { type := .sessionHistoryReset, sessionID := id })).cards =
      fun key => if id = 0 ∨ key = some id then (srv.cards key).map Card.forget else srv.cards key := by
    rw [cards_onMessage_reset ui rfl, agrees_iff.1 ha]
  rw [List.map_cons, List.foldl_cons, cards_onMessage_resetUpdates, hreset]
  intro id' ses hs
  rw [hreset, ← cards_some_eq_none_iff hs]
  dsimp only
  split
  next => exact Option.map_eq_none_iff
  next => rfl

/-- Forgetting the messages of all sessions shows exactly if some card has one. -/
theorem cards_eq_forget_iff (srv : Server) :
    srv.cards = (fun key => (srv.cards key).map Card.forget) ↔ ∀ id, Bare srv id := by
  constructor
  · intro heq id ses hs hc
    have hid := congrFun heq (some id)
    rw [Server.cards, hs, Option.bind_some, Session.shown, if_neg hc, Option.map_some, Option.some.injEq,
      Session.card, Card.forget, Card.mk.injEq] at hid
    exact ⟨hid.1, hid.2.1⟩
  · intro hbare
    funext key
    cases key with
    | none => rfl
    | some id =>
      cases hs : srv.sessions id with
      | none => rw [Server.cards, hs]; rfl
      | some ses =>
        rw [Server.cards, hs, Option.bind_some, Session.shown]
        split
        next => rfl
        next hc =>
          obtain ⟨hfirst, hlast⟩ := hbare id ses hs hc
          rw [Option.map_some, Session.card, Card.forget, hfirst, hlast]

theorem agrees_handleHistoryReset (ha : Agrees srv ui) {order : List ℤ} (ho : order.toFinset = srv.ids) :
    Agrees (handleHistoryReset srv id order).1
        (((handleHistoryReset srv id order).2.map Message.encode).foldl UI.onMessage ui) ↔
      (id < 0 → ∀ id', Bare srv id') := by
  have hforget (key : Option ℤ) (h : ¬ ∃ id' ∈ order, key = some id') :
      (srv.cards key).map Card.forget = srv.cards key := by
    cases key with
    | none => rfl
    | some id' =>
      cases hs : srv.sessions id' with
      | none => rw [Server.cards, hs]; rfl
      | some ses =>
        refine absurd ⟨id', ?_, rfl⟩ h
        rw [← List.mem_toFinset, ho, srv.mem_ids, hs]
        rfl
  have hall : (srv.modify order Session.forget).cards = fun key => (srv.cards key).map Card.forget := by
    rw [cards_modify_forget]
    funext key
    split
    next => rfl
    next h => exact (hforget key h).symm
  rw [agrees_iff, handleHistoryReset, resetIDs]
  dsimp only
  rcases lt_trichotomy id 0 with hid | rfl | hid
  · have hnone : srv.cards (some id) = none := by
      cases hs : srv.sessions id with
      | none => rw [Server.cards, hs]; rfl
      | some ses => exact absurd (pos_of_session hs) hid.le.not_gt
    rw [if_neg hid.le.not_gt, if_neg fun h => hid.le.not_gt h.1, cards_reset ha, hall, ← cards_eq_forget_iff]
    simp only [hid, true_imp_iff, hid.ne, false_or]
    have hui : (fun key => if key = some id then (srv.cards key).map Card.forget else srv.cards key) =
        srv.cards := by
      funext key
      split
      next h => rw [h, hnone]; rfl
      next => rfl
    rw [hui]
  · rw [if_neg (lt_irrefl 0), if_neg fun h => lt_irrefl 0 h.1, cards_reset ha, hall]
    simp only [true_or, if_true, lt_irrefl, false_imp_iff]
  · rw [if_pos hid]
    refine iff_of_true ?_ fun h => absurd h hid.le.not_gt
    cases hs : srv.sessions id with
    | none =>
      simp only [Option.isSome_none, Bool.false_eq_true, if_false]
      rw [if_pos ⟨hid, trivial⟩, cards_modify_forget]
      simp only [List.not_mem_nil, false_and, exists_false, if_false]
      exact agrees_iff.1 ha
    | some ses =>
      simp only [Option.isSome_some, if_true]
      rw [if_neg fun h => List.cons_ne_nil _ _ h.2, cards_reset ha, cards_modify_forget]
      simp only [hid.ne', false_or, List.mem_singleton, exists_eq_left]

end Step

/-! ### Runs -/

/-- What the operation takes away, if it takes anything, the browser hears of: no command clears
messages that a card shows, no reset of all sessions has a negative ID while a card shows messages,
and no badge that a card shows goes out. -/
def Heard (s : Server × UI) : Op → Prop
  | .handleInput id text => turnText text = some clearCommand → Bare s.1 id
  | .handleHistoryReset id _ => id < 0 → ∀ id', Bare s.1 id'
  | .setBoardNotifyPending id pending =>
    pending = false → ∀ ses, s.1.sessions id = some ses → ses.state ≠ completed → ses.boardNotifyPending =
      false

theorem agrees_step {s t : Server × UI} {op : Op} {sent : List Wire} (ha : Agrees s.1 s.2)
    (hs : step s op = some (t, sent)) : Agrees t.1 t.2 ↔ Heard s op := by
  rw [step, Option.ite_none_right_eq_some] at hs
  obtain ⟨hp, hs⟩ := hs
  cases hs
  cases op with
  | handleInput id text => exact agrees_handleInput ha text
  | handleHistoryReset id order => exact agrees_handleHistoryReset ha (of_decide_eq_true hp).2
  | setBoardNotifyPending id pending => exact agrees_setBoardNotifyPending ha pending

/-- A browser that connected agrees with the server after each operation of a run exactly if it
hears of everything that the operations take away. -/
theorem agrees_along_iff {srv : Server} {ops : List Op} {t : Server × UI} {sent : List Wire}
    (hx : exec step (srv, connect srv) ops = some (t, sent)) :
    (∀ ops', ops' <+: ops → ∀ u fs, exec step (srv, connect srv) ops' = some (u, fs) → Agrees u.1 u.2) ↔
      Meets step Heard (srv, connect srv) ops :=
  forall_prefix_iff_meets (P := fun _ u => Agrees u.1 u.2) (fun _ _ _ _ _ ha hs => agrees_step ha hs)
    (h := [])
    (agrees_connect srv) hx

/-- A server with one fresh session. -/
def fresh : Server where
  ids := {1}
  sessions id := if id = 1 then some { state := "running" } else none
  mem_ids id := by
    rw [Finset.mem_singleton]
    split <;> simp_all
  pos id h := by
    rw [Finset.mem_singleton.1 h]
    decide

/-- Nothing to clear, a badge that comes on, and a reset. -/
def freshRun : List Op :=
  [.handleInput 1 (clearCommand ++ ['\r']), .setBoardNotifyPending 1 true, .handleHistoryReset 0 [1]]

theorem fresh_agrees :
    ∃ t sent, exec step (fresh, connect fresh) freshRun = some (t, sent) ∧ Agrees t.1 t.2 := by
  obtain ⟨t, sent, hx⟩ : ∃ t sent, exec step (fresh, connect fresh) freshRun = some (t, sent) := ⟨_, _, rfl⟩
  refine ⟨t, sent, hx, (agrees_along_iff hx).2 ?_ freshRun (List.prefix_refl _) t sent hx⟩
  refine ⟨fun _ ses hs _ => ?_, fun h => absurd h.symm Bool.false_ne_true,
    fun h => absurd h (lt_irrefl 0), trivial⟩
  cases hs
  exact ⟨rfl, rfl⟩

/-- A message is typed and the session is cleared: the card still shows the message. -/
theorem cleared_still_shown :
    ∃ t sent, exec step (fresh, connect fresh)
        [.handleInput 1 ['h', 'i', '\r'], .handleInput 1 (clearCommand ++ ['\r'])] = some (t, sent) ∧
      ¬ Agrees t.1 t.2 := by
  refine ⟨_, _, rfl, fun h => ?_⟩
  exact absurd (congrFun (agrees_iff.1 h) (some 1)) (by decide +kernel)

end ManyAiCli.Hub.CardMessages
