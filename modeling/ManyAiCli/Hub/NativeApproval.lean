import ManyAiCli.Hub.ApprovalDetector
import ManyAiCli.Hub.InputGate
import ManyAiCli.Runs.Machine

/-! Answering the approvals of one session. A scan of the screen makes an approval
outstanding and may answer it by itself; a batch request answers the approvals it
found; a one-tap token answers the one it was issued for. Each step below is one
stretch under the server's lock, so all of these interleave where it is free. -/

namespace ManyAiCli.Hub.Approvals

open Text Approval

/-- In milliseconds. -/
def approvalConsumedTTL : ℕ := 10000

def oneTapApprovalTTL : ℕ := 120000

def vtResizeDebounce : ℕ := 200

def nativeApprovalClearMissLimit : ℕ := 3

def nativeApprovalBlankLineLimit : ℕ := 2

/-- A session object. `vt` is its screen. -/
structure Session where
  vt : Option (List Line)
  nativeApprovalSig : List Char
  nativeApprovalClearMisses : ℕ
  nativeApprovalConsumed : List Char
  nativeApprovalConsumedAt : ℕ
  vtResizeDebounceUntil : ℕ
  deriving DecidableEq, Repr

def Session.new (vt : Option (List Line)) : Session := ⟨vt, [], 0, [], 0, 0⟩

/-- What stays as it is over the life of a session ID. -/
structure SessionInfo where
  id : ℕ
  provider : String
  cwd : List Char
  deriving DecidableEq, Repr

inductive OneTapAction
  | approve
  | reject
  deriving DecidableEq, Repr

/-- `expiresAt` is in seconds. -/
structure OneTapApprovalClaim where
  sessionID : ℕ
  approvalID : List Char
  approvalSig : List Char
  action : OneTapAction
  expiresAt : ℕ
  nonce : ℕ
  deriving DecidableEq, Repr

inductive OneTapError
  | invalid
  | expired
  | consumed
  | highRisk
  | noApproval
  | noInput
  deriving DecidableEq, Repr

inductive BatchAction
  | approve
  | denySession
  deriving DecidableEq, Repr

structure ApprovalBatchRequest where
  signature : List Char
  action : BatchAction
  sessionID : ℕ
  deriving DecidableEq, Repr

/-- A goroutine on its way to an answer. -/
inductive Job
  /-- A scan is done, its result is to be handled; `keep` tells that a miss is not one. -/
  | scanned (approval : Option NativeApproval) (keep : Bool)
  /-- The approval was found anew and may be answered by the policy. -/
  | auto (approval : NativeApproval)
  /-- An answer is chosen, its approval is to be consumed. -/
  | answer (sig input : List Char) (wc : ℕ)
  /-- Consumed; the answer is to be handed over. -/
  | consumed (sig input : List Char) (wc : ℕ)
  /-- A token was verified. -/
  | tap (claim : OneTapApprovalClaim)
  /-- The session object of its session was looked up. -/
  | tapping (claim : OneTapApprovalClaim) (o : ℕ)
  | done
  deriving DecidableEq, Repr

structure State where
  now : ℕ
  objects : List Session
  /-- The entries of the session map and of the wrapper map. -/
  session : Option ℕ
  wrapper : Option ℕ
  issued : List OneTapApprovalClaim
  /-- Used nonces with the second they expire at. -/
  used : List (ℕ × ℕ)
  jobs : List Job
  deriving DecidableEq, Repr

/-- A session with its wrapper, right after registration. -/
def State.registered (now : ℕ) : State := ⟨now, [.new none], some 0, some 0, [], [], []⟩

inductive Action
  | tick (ms : ℕ)
  /-- Output leaves `lines` on the screen; it is scanned if `scan`. -/
  | output (lines : List Line) (scan : Bool)
  | resize (lines : List Line)
  | historyReset (lines : List Line)
  | handle (j : ℕ)
  /-- `allowed` by the policy and the settings. -/
  | autoApprove (j : ℕ) (allowed : Bool)
  | batch (req : ApprovalBatchRequest)
  | consume (j : ℕ)
  | submit (j : ℕ)
  /-- The UI reports that it has answered. -/
  | uiConsumed (sig : List Char)
  | issue (claim : OneTapApprovalClaim)
  | post (nonce : ℕ)
  | lookup (j : ℕ)
  /-- Whether the wrapper takes the first and the delayed part of the answer. -/
  | apply (j : ℕ) (ok okDelayed : Bool)
  /-- A token of another session is used. -/
  | tapElsewhere (nonce : ℕ)
  | disconnect
  | reattach (lines : List Line)
  | dismiss
  deriving DecidableEq, Repr

inductive Event
  | detected (sig : List Char)
  /-- `who` is the job that answers, if it is one. -/
  | consumed (who : Option ℕ) (sig : List Char)
  /-- Job `who` hands over an answer; `shown` if the approval is on the screen. -/
  | handed (who : ℕ) (sig input : List Char) (shown delivered : Bool)
  /-- A one-tap action ends; `wrote` if input was written, `kept` if the approval
  fields and the used nonces are as before. -/
  | tapped (nonce : ℕ) (err : Option OneTapError) (wrote kept : Bool)
  deriving DecidableEq, Repr

/-! ### Answers -/

def positiveTokens : List String := ["allow once", "allow", "approve", "run", "continue", "yes"]

def positiveJaTokens : List String := ["許可", "実行", "続行"]

def negativeTokens : List String := ["reject", "deny", "cancel", "skip", "no"]

def negativeJaTokens : List String := ["拒否", "許可しない", "中止"]

/-- The text that chooses the first option with one of the words that can be chosen
by a key, or by enter. -/
def inputFor (tokens jaTokens : List String) : List ApprovalOption → List Char
  | [] => []
  | option :: options =>
    let label := toLower (trimSpace option.label)
    let named := (tokens.any fun token => contains label token.toList) ||
      jaTokens.any fun token => contains option.label token.toList
    if !named then inputFor tokens jaTokens options
    else if option.sendText ≠ [] then option.sendText
    else if option.isCurrent then ['\r']
    else inputFor tokens jaTokens options

def autoApprovalInput (options : List ApprovalOption) : List Char :=
  inputFor positiveTokens positiveJaTokens options

def oneTapApproveInput (options : List ApprovalOption) : List Char := autoApprovalInput options

def oneTapRejectInput (options : List ApprovalOption) : List Char :=
  inputFor negativeTokens negativeJaTokens options

def riskName : ApprovalRiskTier → String
  | .low => "low"
  | .mid => "mid"
  | .high => "high"

def approvalBatchSignature (provider : String) (cwd : List Char) (summary : ApprovalSummary) : List Char :=
  toLower (trimSpace provider.toList) ++ ['\x00'] ++ trimSpace summary.command ++ ['\x00'] ++
    (riskName summary.risk).toList ++ ['\x00'] ++ trimSpace cwd

def shouldSuppressNativeApprovalClearMiss (provider : String) (lines : List Line) : Bool :=
  providerSupportsShortcutApproval provider &&
    lines.countP (fun line => trimSpace line ≠ []) ≤ nativeApprovalBlankLineLimit

/-! ### One-tap tokens -/

def issuable (claim : OneTapApprovalClaim) (now : ℕ) : Bool :=
  claim.sessionID > 0 && trimSpace claim.approvalID ≠ [] && trimSpace claim.approvalSig ≠ [] &&
    claim.expiresAt = (now + oneTapApprovalTTL) / 1000

def expired (claim : OneTapApprovalClaim) (now : ℕ) : Bool := claim.expiresAt ≤ now / 1000

/-- The used nonces without those that have expired. -/
def purge (used : List (ℕ × ℕ)) (now : ℕ) : List (ℕ × ℕ) := used.filter fun u => u.2 * 1000 > now

/-- `oneTapApprovalManager.consume`. -/
def consumeNonce (used : List (ℕ × ℕ)) (now : ℕ) (claim : OneTapApprovalClaim) :
    List (ℕ × ℕ) × Option OneTapError :=
  let used := purge used now
  if expired claim now then (used, some .expired)
  else if (used.map Prod.fst).contains claim.nonce then (used, some .consumed)
  else ((claim.nonce, claim.expiresAt) :: used, none)

/-- Whether all of an input and whether some of it was sent. -/
def trySendInput (input : List Char) (ok okDelayed : Bool) : Bool × Bool :=
  let delayed := (splitBracketedPasteSubmit input).2
  (ok && (delayed = [] || okDelayed), ok)

/-! ### Steps -/

namespace State

variable (sha256Hex : List Char → List Char) (info : SessionInfo) (s : State)

def current : Option Session := s.session.bind fun o => s.objects[o]?

/-- The approval on the screen of a session object. -/
def onScreen (ses : Session) : Option NativeApproval :=
  ses.vt.bind fun lines => detectNativeApproval sha256Hex info.provider lines

/-- The approval with the signature is on the screen. -/
def shows (sig : List Char) : Bool :=
  match s.current.bind (onScreen sha256Hex info) with
  | some approval => approval.sig = sig
  | none => false

/-- Change the session in the session map. -/
def modifyCurrent (f : Session → Session) : State :=
  match s.session with
  | some o => { s with objects := s.objects.modify o f }
  | none => s

def setJob (j : ℕ) (job : Job) : State := { s with jobs := s.jobs.set j job }

def start (job : Job) : State := { s with jobs := s.jobs ++ [job] }

def output (lines : List Line) (scan : Bool) : State :=
  match s.current with
  | none => s
  | some ses =>
    let approval := detectNativeApproval sha256Hex info.provider lines
    let keep := approval = none && ses.nativeApprovalSig ≠ [] &&
      shouldSuppressNativeApprovalClearMiss info.provider lines
    let s := s.modifyCurrent fun ses => { ses with vt := some lines }
    if scan then s.start (.scanned approval keep) else s

/-- The session map's session handles the result of a scan; `true` when it found
an approval anew. -/
def detection (now : ℕ) (approval : Option NativeApproval) (ses : Session) : Session × Bool :=
  if now < ses.vtResizeDebounceUntil then (ses, false) else
  match approval with
  | none =>
    if ses.nativeApprovalSig = [] then (ses, false)
    else if ses.nativeApprovalClearMisses + 1 ≥ nativeApprovalClearMissLimit then
      ({ ses with nativeApprovalSig := [], nativeApprovalClearMisses := 0 }, false)
    else ({ ses with nativeApprovalClearMisses := ses.nativeApprovalClearMisses + 1 }, false)
  | some approval =>
    if ses.nativeApprovalConsumed = approval.sig && now - ses.nativeApprovalConsumedAt < approvalConsumedTTL then
      (ses, false)
    else
      ({ ses with nativeApprovalClearMisses := 0, nativeApprovalSig := approval.sig },
        ses.nativeApprovalSig ≠ approval.sig)

def handleNativeApprovalDetection (j : ℕ) (approval : Option NativeApproval) : State × List Event :=
  match s.current with
  | none => (s.setJob j .done, [])
  | some ses =>
    let t := s.modifyCurrent fun ses => (detection s.now approval ses).1
    match approval with
    | some approval =>
      if (detection s.now (some approval) ses).2 then (t.setJob j (.auto approval), [.detected approval.sig])
      else (t.setJob j .done, [])
    | none => (t.setJob j .done, [])

def handle (j : ℕ) : Option (State × List Event) :=
  match s.jobs[j]? with
  | some (.scanned approval keep) =>
    if keep then
      some ((s.modifyCurrent fun ses => { ses with nativeApprovalClearMisses := 0 }).setJob j .done, [])
    else some (s.handleNativeApprovalDetection j approval)
  | _ => none

def maybeAutoApprove (j : ℕ) (allowed : Bool) : Option (State × List Event) :=
  match s.jobs[j]? with
  | some (.auto approval) =>
    match s.wrapper, s.current with
    | some wc, some _ =>
      let input := autoApprovalInput approval.options
      if !allowed || input = [] then some (s.setJob j .done, [])
      else some (s.setJob j (.answer approval.sig input wc), [])
    | _, _ => some (s.setJob j .done, [])
  | _ => none

/-- The approval of this session in `pendingNativeApprovals`. -/
def pendingNativeApproval : Option NativeApproval :=
  match s.current with
  | some ses =>
    match onScreen sha256Hex info ses with
    | some approval =>
      if ses.nativeApprovalSig ≠ [] && approval.sig = ses.nativeApprovalSig then some approval else none
    | none => none
  | none => none

/-- The answer of a batch request to an approval. -/
def batchInput (req : ApprovalBatchRequest) (approval : NativeApproval) : List Char :=
  let same := approvalBatchSignature info.provider info.cwd approval.summary = req.signature
  match req.action with
  | .approve =>
    if same && approval.summary.risk = .low then autoApprovalInput approval.options else []
  | .denySession =>
    if req.sessionID > 0 && (same || info.id = req.sessionID) then oneTapRejectInput approval.options else []

def handleApprovalBatch (req : ApprovalBatchRequest) : State :=
  match s.pendingNativeApproval sha256Hex info, s.wrapper with
  | some approval, some wc =>
    let input := batchInput info req approval
    if input = [] then s else s.start (.answer approval.sig input wc)
  | _, _ => s

def markNativeApprovalConsumed (who : Option ℕ) (sig : List Char) : State × List Event :=
  match s.current with
  | none => (s, [])
  | some _ =>
    if sig = [] then (s, []) else
    (s.modifyCurrent fun ses =>
      let ses := { ses with nativeApprovalConsumed := sig, nativeApprovalConsumedAt := s.now }
      if ses.nativeApprovalSig = sig then
        { ses with nativeApprovalSig := [], nativeApprovalClearMisses := 0 }
      else ses, [.consumed who sig])

def consume (j : ℕ) : Option (State × List Event) :=
  match s.jobs[j]? with
  | some (.answer sig input wc) =>
    let (t, es) := s.markNativeApprovalConsumed (some j) sig
    some (t.setJob j (.consumed sig input wc), es)
  | _ => none

def submit (j : ℕ) : Option (State × List Event) :=
  match s.jobs[j]? with
  | some (.consumed sig input _) =>
    some (s.setJob j .done, [.handed j sig input (s.shows sha256Hex info sig) true])
  | _ => none

def issue (claim : OneTapApprovalClaim) : Option (State × List Event) :=
  if issuable claim s.now && !(s.issued.map (·.nonce)).contains claim.nonce then
    some ({ s with issued := claim :: s.issued }, [])
  else none

def findClaim (nonce : ℕ) : Option OneTapApprovalClaim := s.issued.find? fun claim => claim.nonce = nonce

/-- A token of this session is posted; `verify` is passed. -/
def post (nonce : ℕ) : Option (State × List Event) :=
  match s.findClaim nonce with
  | some claim =>
    if expired claim s.now || claim.sessionID ≠ info.id then none else some (s.start (.tap claim), [])
  | none => none

def lookup (j : ℕ) : Option (State × List Event) :=
  match s.jobs[j]? with
  | some (.tap claim) =>
    match s.session with
    | some o => some (s.setJob j (.tapping claim o), [])
    | none => some (s.setJob j .done, [.tapped claim.nonce (some .noApproval) false true])
  | _ => none

/-- The checks of `applyOneTapApproval` on the session object it has locked: the
input to send. -/
def oneTapInput (claim : OneTapApprovalClaim) (ses : Session) : Except OneTapError (List Char) :=
  if ses.nativeApprovalSig ≠ claim.approvalSig || claim.approvalID ≠ claim.approvalSig then
    .error .noApproval
  else
    match onScreen sha256Hex info ses with
    | none => .error .noApproval
    | some approval =>
      if approval.sig ≠ claim.approvalSig then .error .noApproval
      else if claim.action = .approve && approval.summary.risk = .high then .error .highRisk
      else
        let input := match claim.action with
          | .approve => oneTapApproveInput approval.options
          | .reject => oneTapRejectInput approval.options
        if input = [] || s.wrapper = none then .error .noInput else .ok input

/-- The state left, the answer handed over, whether input was written and the error. -/
def applyOneTapApproval (j : ℕ) (claim : OneTapApprovalClaim) (o : ℕ) (ses : Session) (ok okDelayed : Bool) :
    State × List Event × Bool × Option OneTapError :=
  match s.oneTapInput sha256Hex info claim ses with
  | .error err => (s, [], false, some err)
  | .ok input =>
    let sent := trySendInput input ok okDelayed
    let handed := .handed j claim.approvalSig input (s.shows sha256Hex info claim.approvalSig) sent.1
    if !sent.1 then (s, [handed], sent.2, some .noInput)
    else
      match consumeNonce s.used s.now claim with
      | (used, some err) => ({ s with used := used }, [handed], true, some err)
      | (used, none) =>
        let answered := s.objects.modify o fun ses =>
          { ses with
            nativeApprovalConsumed := claim.approvalSig
            nativeApprovalConsumedAt := s.now
            nativeApprovalSig := []
            nativeApprovalClearMisses := 0 }
        ({ s with used := used, objects := answered }, [handed, .consumed (some j) claim.approvalSig], true, none)

def apply (j : ℕ) (ok okDelayed : Bool) : Option (State × List Event) :=
  match s.jobs[j]? with
  | some (.tapping claim o) =>
    match s.objects[o]? with
    | some ses =>
      let (t, es, wrote, err) := s.applyOneTapApproval sha256Hex info j claim o ses ok okDelayed
      some (t.setJob j .done,
        es ++ [.tapped claim.nonce err wrote (t.objects = s.objects && t.used = s.used)])
    | none => none
  | _ => none

def tapElsewhere (nonce : ℕ) : Option (State × List Event) :=
  match s.findClaim nonce with
  | some claim =>
    if claim.sessionID = info.id then none
    else some ({ s with used := (consumeNonce s.used s.now claim).1 }, [])
  | none => none

/-- A new session object takes the place of the old one. -/
def reattach (lines : List Line) : State :=
  { s with
    objects := s.objects ++ [.new (some lines)]
    session := some s.objects.length
    wrapper := some s.objects.length }

def step (s : State) : Action → Option (State × List Event)
  | .tick ms => some ({ s with now := s.now + ms }, [])
  | .output lines scan => some (s.output sha256Hex info lines scan, [])
  | .resize lines => some (s.modifyCurrent fun ses =>
      { ses with vt := some lines, vtResizeDebounceUntil := s.now + vtResizeDebounce }, [])
  | .historyReset lines => some (s.modifyCurrent fun ses =>
      { Session.new (ses.vt.map fun _ => lines) with vtResizeDebounceUntil := ses.vtResizeDebounceUntil }, [])
  | .handle j => s.handle j
  | .autoApprove j allowed => s.maybeAutoApprove j allowed
  | .batch req => some (s.handleApprovalBatch sha256Hex info req, [])
  | .consume j => s.consume j
  | .submit j => s.submit sha256Hex info j
  | .uiConsumed sig => some (s.markNativeApprovalConsumed none sig)
  | .issue claim => s.issue claim
  | .post nonce => s.post info nonce
  | .lookup j => s.lookup j
  | .apply j ok okDelayed => s.apply sha256Hex info j ok okDelayed
  | .tapElsewhere nonce => s.tapElsewhere info nonce
  | .disconnect => some ({ s with wrapper := none }, [])
  | .reattach lines => some (s.reattach lines, [])
  | .dismiss => some ({ s with session := none, wrapper := none }, [])

end State

end ManyAiCli.Hub.Approvals
