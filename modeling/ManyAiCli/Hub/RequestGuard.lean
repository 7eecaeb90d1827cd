import ManyAiCli.Text.Cut
import ManyAiCli.Text.Trim

/-! The guard of the server's HTTP handlers: who may send a request without the token, which values
of Host and Origin are the server's own, and when the PIN is asked for. Host and Origin are taken
apart three times, each time a little differently. -/

namespace ManyAiCli.Hub.RequestGuard

open Text

abbrev Str := List Char

/-- A parsed URL, as far as the guard looks at it. -/
structure URL where
  scheme : Str
  host : Str
  deriving DecidableEq, Repr

/-- The packages `net`, `net/url`, `unicode` and `crypto/hmac`. -/
structure Lib where
  IP : Type
  Network : Type
  parseIP : Str → Option IP
  isLoopback : IP → Bool
  parseCIDR : Str → Option Network
  contains : Network → IP → Bool
  parseURL : Str → Option URL
  /-- The code of a payload under a secret, in hexadecimal. -/
  hmac : Str → Str → Str
  toLower : Char → Char
  /-- White space has no case. -/
  toLower_space : ∀ c, isSpace c = true → toLower c = c

structure Config where
  token : Str
  port : ℤ
  allowLoopbackWithoutToken : Bool
  trustedNetworks : List Str
  allowedHosts : List Str
  authCookieSecret : Str
  remotePINHash : Str
  deriving DecidableEq, Repr

/-- A request. A header that is missing is empty; `queryToken` is the first value of `token` in the
query. -/
structure Request where
  remoteAddr : Str
  method : Str
  host : Str
  queryToken : Str := []
  authorization : Str := []
  origin : Str := []
  secFetchSite : Str := []
  cookies : List (Str × Str) := []
  deriving DecidableEq, Repr

/-- `Request.Cookie`: the first of the name. -/
def Request.cookie (r : Request) (name : Str) : Option Str := r.cookies.lookup name

/-- What `writeJSONError` sends. -/
structure JSONError where
  status : ℕ
  code : String
  message : String
  deriving DecidableEq, Repr

/-! ### Host and port -/

def isBracket (c : Char) : Bool := c = '[' || c = ']'

/-- `strings.TrimSuffix` of a point. -/
def trimDot (s : Str) : Str := if hasSuffix s ['.'] then s.dropLast else s

/-- `net.SplitHostPort`. -/
def splitHostPort (s : Str) : Option (Str × Str) :=
  match lastIndex [':'] s with
  | none => none
  | some i =>
    if s.head? = some '[' then
      match index [']'] s with
      | none => none
      | some close =>
        if close + 1 ≠ i then none
        else if '[' ∈ s.drop 1 ∨ ']' ∈ s.drop (close + 1) then none
        else some ((s.take close).drop 1, s.drop (i + 1))
    else if ':' ∈ s.take i then none
    else if '[' ∈ s ∨ ']' ∈ s then none
    else some (s.take i, s.drop (i + 1))

/-- `url.validOptionalPort`. -/
def validOptionalPort : Str → Bool
  | [] => true
  | c :: s => c = ':' && s.all Char.isDigit

/-- `URL.Hostname`. -/
def URL.hostname (u : URL) : Str :=
  let host :=
    match lastIndex [':'] u.host with
    | some colon => if validOptionalPort (u.host.drop colon) then u.host.take colon else u.host
    | none => u.host
  if hasPrefix host ['['] && hasSuffix host [']'] then (host.drop 1).dropLast else host

/-! ### The token -/

def tokenCookieName : Str := "MANY_AI_CLI_token".toList

def validToken (got want : Str) : Bool := got ≠ [] && want ≠ [] && got = want

def bearer : Str := "Bearer ".toList

def requestToken (r : Request) : Str :=
  if r.queryToken ≠ [] then r.queryToken
  else
    let auth := trimSpace r.authorization
    if hasPrefix auth bearer then trimSpace (auth.drop bearer.length)
    else
      match r.cookie tokenCookieName with
      | some value => trimSpace value
      | none => []

section Guard

variable (lib : Lib) (cfg : Config)

def lower (s : Str) : Str := s.map lib.toLower

def remoteAddrIP (remoteAddr : Str) : Option lib.IP :=
  let value := trimSpace remoteAddr
  if value = [] then none
  else
    let value :=
      match splitHostPort value with
      | some (host, _) => host
      | none => value
    let value := trim isBracket value
    let value :=
      match lastIndex ['%'] value with
      | some i => value.take i
      | none => value
    lib.parseIP value

def isLoopbackRemote (remoteAddr : Str) : Bool := (remoteAddrIP lib remoteAddr).any lib.isLoopback

def isDefaultAllowedHubHost (host : Str) : Bool :=
  host = "127.0.0.1".toList || host = "localhost".toList || host = "::1".toList

def isConfiguredAllowedHubHost (host : Str) (allowedHosts : List Str) : Bool :=
  allowedHosts.any fun raw =>
    let allowed := trimDot (lower lib (trim isBracket (trimSpace raw)))
    allowed ≠ [] && host = allowed

/-- The peer may be a proxy on the same machine; then the host tells. -/
def isLogicallyRemote (r : Request) : Bool :=
  if isLoopbackRemote lib r.remoteAddr then
    let host := trimSpace r.host
    if host = [] then false
    else
      let host :=
        match splitHostPort host with
        | some (h, _) => h
        | none => host
      let host := trimDot (lower lib (trim isBracket host))
      host ≠ [] && !isDefaultAllowedHubHost host
  else true

def parseTrustedNetworks (values : List Str) : List lib.Network :=
  values.filterMap fun raw => lib.parseCIDR (trimSpace raw)

def isTrustedRemote (remoteAddr : Str) (networks : List lib.Network) : Bool :=
  match remoteAddrIP lib remoteAddr with
  | some ip => networks.any fun network => lib.contains network ip
  | none => false

def validTokenOrTrustedRemote (got : Str) (r : Request) : Bool :=
  if validToken got cfg.token then true
  else if !cfg.allowLoopbackWithoutToken then false
  else if !isLogicallyRemote lib r && isLoopbackRemote lib r.remoteAddr then true
  else isTrustedRemote lib r.remoteAddr (parseTrustedNetworks lib cfg.trustedNetworks)

def requireToken (r : Request) : Except JSONError Unit :=
  if validTokenOrTrustedRemote lib cfg (requestToken r) r then .ok ()
  else .error ⟨401, "unauthorized", "unauthorized"⟩

/-! ### Method, Host and Origin -/

def requireMethodOneOf (methods : List Str) (r : Request) : Except JSONError Unit :=
  if methods.any fun m => m = r.method then .ok () else .error ⟨405, "method_not_allowed", "method not allowed"⟩

def methodAllowsStateChange (method : Str) : Bool :=
  !(method = "GET".toList || method = "HEAD".toList || method = "OPTIONS".toList)

def isAllowedHubHost (hostport : Str) (port : ℤ) (allowedHosts : List Str) : Bool :=
  let hostport := trimSpace hostport
  if hostport = [] then port ≤ 0
  else
    let (host, rawPort) := (splitHostPort hostport).getD (trim isBracket hostport, [])
    let host := trimDot (lower lib (trimSpace host))
    if !isDefaultAllowedHubHost host && !isConfiguredAllowedHubHost lib host allowedHosts then false
    else if port ≤ 0 || rawPort = [] then true
    else atoi rawPort = some port

def isAllowedHubOrigin (rawOrigin : Str) (port : ℤ) (allowedHosts : List Str) : Bool :=
  match lib.parseURL rawOrigin with
  | none => false
  | some u =>
    if u.host = [] then false
    else if lower lib u.scheme = "http".toList then isAllowedHubHost lib u.host port allowedHosts
    else if lower lib u.scheme = "https".toList then
      -- Behind a proxy the port is another one, so only the name counts.
      isConfiguredAllowedHubHost lib (trimDot (lower lib u.hostname)) allowedHosts
    else false

def requireAllowedHubHost (r : Request) : Except JSONError Unit :=
  if isAllowedHubHost lib r.host cfg.port cfg.allowedHosts then .ok ()
  else .error ⟨403, "forbidden", "host not allowed"⟩

def requireAllowedRequestOrigin (r : Request) : Except JSONError Unit :=
  let origin := trimSpace r.origin
  if origin ≠ [] then
    if isAllowedHubOrigin lib origin cfg.port cfg.allowedHosts then .ok ()
    else .error ⟨403, "forbidden", "origin not allowed"⟩
  else
    let site := lower lib (trimSpace r.secFetchSite)
    if site = [] || site = "none".toList || site = "same-origin".toList then .ok ()
    else .error ⟨403, "forbidden", "origin not allowed"⟩

def guardBase (methods : List Str) (r : Request) : Except JSONError Unit := do
  requireToken lib cfg r
  (if methods ≠ [] then requireMethodOneOf methods r else .ok ())
  requireAllowedHubHost lib cfg r
  if methodAllowsStateChange r.method then requireAllowedRequestOrigin lib cfg r

/-! ### The PIN -/

def pinCookieName : Str := "MANY_AI_CLI_pin".toList

def signed (secret payload : Str) : Str := payload ++ '.' :: lib.hmac secret payload

/-- The value of a cookie that ends at a time. -/
def signPINCookie (secret : Str) (expiry : ℤ) : Str := signed lib secret (toString expiry).toList

/-- The time is in seconds, as the expiry is. -/
def verifyPINCookie (secret value : Str) (now : ℤ) : Bool :=
  if secret = [] || value = [] then false
  else
    match lastIndex ['.'] value with
    | none => false
    | some dot =>
      if dot = 0 || dot = value.length - 1 then false
      else
        let payload := value.take dot
        let sig := value.drop (dot + 1)
        if sig ≠ lib.hmac secret payload then false
        else
          match atoi payload with
          | none => false
          | some expiry => now < expiry

def hasValidPINCookie (r : Request) (now : ℤ) : Bool :=
  match r.cookie pinCookieName with
  | none => false
  | some value => verifyPINCookie lib cfg.authCookieSecret value now

def remotePINRequired (r : Request) : Bool :=
  isLogicallyRemote lib r && trimSpace cfg.remotePINHash ≠ []

def requireRemotePIN (r : Request) (now : ℤ) : Except JSONError Unit :=
  if !remotePINRequired lib cfg r then .ok ()
  else if hasValidPINCookie lib cfg r now then .ok ()
  else .error ⟨401, "pin_required", "remote pin required"⟩

def guard (methods : List Str) (r : Request) (now : ℤ) : Except JSONError Unit := do
  guardBase lib cfg methods r
  requireRemotePIN lib cfg r now

end Guard

/-! ### Taking a host apart -/

theorem not_mem_take_index {c : Char} {s : Str} {i : ℕ} (h : index [c] s = some i) : c ∉ s.take i := by
  induction s generalizing i with
  | nil =>
    rw [List.take_nil]
    exact List.not_mem_nil
  | cons d s ih =>
    rw [index] at h
    split at h
    next =>
      cases h
      exact List.not_mem_nil
    next hpre =>
      obtain ⟨j, hj, rfl⟩ := Option.map_eq_some_iff.1 h
      have hne : c ≠ d := fun heq => hpre (heq ▸ ⟨s, rfl⟩)
      rw [List.take_succ_cons, List.mem_cons, not_or]
      exact ⟨hne, ih hj⟩

theorem eq_of_lastIndex {c : Char} {s : Str} {i : ℕ} (h : lastIndex [c] s = some i) :
    s = s.take i ++ c :: s.drop (i + 1) := by
  induction s generalizing i with
  | nil => exact absurd h.symm (Option.some_ne_none _)
  | cons d s ih =>
    rw [lastIndex] at h
    cases hs : lastIndex [c] s with
    | some j =>
      rw [hs] at h
      cases h
      rw [List.take_succ_cons, List.drop_succ_cons, List.cons_append, ← ih hs]
    | none =>
      rw [hs, Option.map_none, Option.none_or, Option.ite_none_right_eq_some] at h
      obtain ⟨⟨t, ht⟩, heq⟩ := h
      cases heq
      rw [List.take_zero, List.drop_succ_cons, List.drop_zero, List.nil_append, (List.cons.inj ht).1]

/-- A host that comes from `net.SplitHostPort` has no brackets. -/
theorem not_isBracket_of_splitHostPort {s h p : Str} (hs : splitHostPort s = some (h, p)) :
    ∀ c ∈ h, isBracket c = false := by
  have hbracket (c : Char) (ho : c ≠ '[') (hc : c ≠ ']') : isBracket c = false := by
    rw [isBracket, decide_eq_false ho, decide_eq_false hc, Bool.or_false]
  intro c hmem
  rw [splitHostPort] at hs
  split at hs
  next => exact absurd hs.symm (Option.some_ne_none _)
  next i _ =>
    split at hs
    next =>
      split at hs
      next => exact absurd hs.symm (Option.some_ne_none _)
      next close hclose =>
        rw [Option.ite_none_left_eq_some, Option.ite_none_left_eq_some, not_or] at hs
        obtain ⟨-, ⟨hopen, -⟩, heq⟩ := hs
        cases heq
        apply hbracket
        · rintro rfl
          rw [List.drop_take] at hmem
          exact hopen (List.mem_of_mem_take hmem)
        · rintro rfl
          exact not_mem_take_index hclose (List.mem_of_mem_drop hmem)
    next =>
      rw [Option.ite_none_left_eq_some, Option.ite_none_left_eq_some, not_or] at hs
      obtain ⟨-, ⟨hopen, hclose⟩, heq⟩ := hs
      cases heq
      apply hbracket
      · rintro rfl
        exact hopen (List.mem_of_mem_take hmem)
      · rintro rfl
        exact hclose (List.mem_of_mem_take hmem)

section Guard

variable {lib : Lib} {cfg : Config} {r : Request}

/-- A name without white space has none around it before it is put in lower case. -/
theorem trimSpace_eq_self_of_lower {x : Str} (h : ∀ c ∈ trimDot (lower lib x), isSpace c = false) :
    trimSpace x = x := by
  apply trim_eq_self
  intro c hc
  by_contra hspace
  rw [Bool.not_eq_false] at hspace
  have hmem : c ∈ lower lib x := List.mem_map.2 ⟨c, hc, lib.toLower_space c hspace⟩
  rw [trimDot] at h
  split at h
  next hsuf =>
    obtain ⟨init, heq⟩ := List.isSuffixOf_iff_suffix.1 hsuf
    rw [← heq] at hmem h
    rw [List.dropLast_concat] at h
    rcases List.mem_append.1 hmem with hinit | hdot
    · exact absurd (h c hinit) (ne_true_of_eq_false · hspace)
    · rw [List.mem_singleton.1 hdot] at hspace
      exact absurd hspace (by decide)
  next => exact absurd (h c hmem) (ne_true_of_eq_false · hspace)

/-! ### What is let through -/

section Names

variable (lib : Lib) (cfg : Config) (r : Request)

/-- The host that a value of Host or of a URL's host names. -/
def hostName (hostport : Str) : Str :=
  let hostport := trimSpace hostport
  trimDot (lower lib (trimSpace (((splitHostPort hostport).map Prod.fst).getD (trim isBracket hostport))))

/-- Its port, empty if it has none. -/
def portName (hostport : Str) : Str := ((splitHostPort (trimSpace hostport)).map Prod.snd).getD []

def NamesLoopback (hostport : Str) : Prop :=
  hostName lib hostport ∈ ["127.0.0.1".toList, "localhost".toList, "::1".toList]

/-- The name of a host in the configuration, written in any of its ways. -/
def Configured (name : Str) : Prop :=
  name ≠ [] ∧ ∃ raw ∈ cfg.allowedHosts, name = trimDot (lower lib (trim isBracket (trimSpace raw)))

def NamesAllowed (hostport : Str) : Prop :=
  NamesLoopback lib hostport ∨ Configured lib cfg (hostName lib hostport)

def LoopbackPeer : Prop := ∃ ip, remoteAddrIP lib r.remoteAddr = some ip ∧ lib.isLoopback ip = true

def TrustedPeer : Prop :=
  ∃ ip, remoteAddrIP lib r.remoteAddr = some ip ∧ ∃ raw ∈ cfg.trustedNetworks, ∃ network,
    lib.parseCIDR (trimSpace raw) = some network ∧ lib.contains network ip = true

/-- The effective port of an http URL. -/
def effectivePort (u : URL) : Option ℤ := if portName u.host = [] then some 80 else atoi (portName u.host)

def OwnOrigin (u : URL) : Prop :=
  lower lib u.scheme = "https".toList ∧ Configured lib cfg (trimDot (lower lib u.hostname)) ∨
    lower lib u.scheme = "http".toList ∧ NamesAllowed lib cfg u.host ∧ effectivePort u = some cfg.port

/-- What a request has that may pass. -/
structure Sound (now : ℤ) : Prop where
  authorised : requestToken r = cfg.token ∧ cfg.token ≠ [] ∨
    cfg.allowLoopbackWithoutToken = true ∧
      (TrustedPeer lib cfg r ∨ LoopbackPeer lib r ∧ NamesLoopback lib r.host)
  host : NamesAllowed lib cfg r.host
  origin : methodAllowsStateChange r.method = true → trimSpace r.origin ≠ [] →
    ∃ u, lib.parseURL (trimSpace r.origin) = some u ∧ OwnOrigin lib cfg u
  pin : trimSpace cfg.remotePINHash ≠ [] → ¬ (LoopbackPeer lib r ∧ NamesLoopback lib r.host) →
    ∃ payload expiry, r.cookie pinCookieName = some (signed lib cfg.authCookieSecret payload) ∧
      atoi payload = some expiry ∧ now < expiry

/-- A request that changes state from an http origin without a port. -/
def PortlessOrigin : Prop :=
  methodAllowsStateChange r.method = true ∧ trimSpace r.origin ≠ [] ∧
    ∃ u, lib.parseURL (trimSpace r.origin) = some u ∧ lower lib u.scheme = "http".toList ∧ portName u.host =
      []

end Names

theorem isDefaultAllowedHubHost_iff {name : Str} :
    isDefaultAllowedHubHost name = true ↔ name ∈ ["127.0.0.1".toList, "localhost".toList, "::1".toList] := by
  simp only [isDefaultAllowedHubHost, Bool.or_eq_true, decide_eq_true_eq, List.mem_cons, List.not_mem_nil,
    or_false, or_assoc]

theorem isConfiguredAllowedHubHost_iff {name : Str} :
    isConfiguredAllowedHubHost lib name cfg.allowedHosts = true ↔ Configured lib cfg name := by
  rw [isConfiguredAllowedHubHost, List.any_eq_true, Configured]
  constructor
  · rintro ⟨raw, hraw, h⟩
    obtain ⟨hne, heq⟩ := Bool.and_eq_true_iff.1 h
    rw [decide_eq_true_eq] at hne heq
    exact ⟨heq ▸ hne, raw, hraw, heq⟩
  · rintro ⟨hne, raw, hraw, heq⟩
    exact ⟨raw, hraw, Bool.and_eq_true_iff.2 ⟨decide_eq_true (heq ▸ hne), decide_eq_true heq⟩⟩

theorem isAllowedHubHost_iff (hport : 0 < cfg.port) {hostport : Str} :
    isAllowedHubHost lib hostport cfg.port cfg.allowedHosts = true ↔
      trimSpace hostport ≠ [] ∧ NamesAllowed lib cfg hostport ∧
        (portName hostport = [] ∨ atoi (portName hostport) = some cfg.port) := by
  have hpos : ¬ cfg.port ≤ 0 := by omega
  rw [isAllowedHubHost]
  by_cases hne : trimSpace hostport = []
  · rw [if_pos hne, decide_eq_true_eq]
    exact iff_of_false hpos fun h => h.1 hne
  · have hparts : (splitHostPort (trimSpace hostport)).getD (trim isBracket (trimSpace hostport), []) =
        (((splitHostPort (trimSpace hostport)).map Prod.fst).getD (trim isBracket (trimSpace hostport)),
          portName hostport) := by
      rw [portName]
      cases splitHostPort (trimSpace hostport) <;> rfl
    rw [if_neg hne, hparts]
    change (if !isDefaultAllowedHubHost (hostName lib hostport) &&
        !isConfiguredAllowedHubHost lib (hostName lib hostport) cfg.allowedHosts then false
      else if cfg.port ≤ 0 || portName hostport = [] then true
      else decide (atoi (portName hostport) = some cfg.port)) = true ↔ _
    rw [NamesAllowed, NamesLoopback, ← isDefaultAllowedHubHost_iff, ← isConfiguredAllowedHubHost_iff,
      decide_eq_false hpos, Bool.false_or]
    cases isDefaultAllowedHubHost (hostName lib hostport) <;>
      cases isConfiguredAllowedHubHost lib (hostName lib hostport) cfg.allowedHosts <;>
      simp [hne]

theorem isLoopbackRemote_iff : isLoopbackRemote lib r.remoteAddr = true ↔ LoopbackPeer lib r := by
  rw [isLoopbackRemote, Option.any_eq_true, LoopbackPeer]

theorem isTrustedRemote_iff :
    isTrustedRemote lib r.remoteAddr (parseTrustedNetworks lib cfg.trustedNetworks) = true ↔
      TrustedPeer lib cfg r := by
  rw [isTrustedRemote, parseTrustedNetworks, TrustedPeer]
  cases remoteAddrIP lib r.remoteAddr with
  | none => exact iff_of_false Bool.false_ne_true fun h => h.elim fun _ h => Option.some_ne_none _ h.1.symm
  | some ip =>
    simp only [Option.some.injEq, exists_eq_left', List.any_eq_true, List.mem_filterMap]
    constructor
    · rintro ⟨network, ⟨raw, hraw, hparse⟩, hin⟩
      exact ⟨raw, hraw, network, hparse, hin⟩
    · rintro ⟨raw, hraw, network, hparse, hin⟩
      exact ⟨network, ⟨raw, hraw, hparse⟩, hin⟩

/-- Two functions take Host apart in two ways; for an allowed one they agree on what is local. -/
theorem local_of_not_remote (hport : 0 < cfg.port)
    (hallow : isAllowedHubHost lib r.host cfg.port cfg.allowedHosts = true)
    (h : isLogicallyRemote lib r = false) : LoopbackPeer lib r ∧ NamesLoopback lib r.host := by
  obtain ⟨hne, hnames, -⟩ := (isAllowedHubHost_iff hport).1 hallow
  have hname : hostName lib r.host ≠ [] := by
    rcases hnames with hdefault | hconf
    · intro heq
      rw [NamesLoopback, heq] at hdefault
      exact absurd hdefault (by decide)
    · exact hconf.1
  rw [isLogicallyRemote] at h
  split at h
  next hloop =>
    refine ⟨isLoopbackRemote_iff.1 hloop, ?_⟩
    dsimp only at h
    rw [if_neg hne] at h
    -- The part that both begin with; brackets are left only where the value is taken whole.
    obtain ⟨x, hx, hx'⟩ : ∃ x, hostName lib r.host = trimDot (lower lib (trimSpace x)) ∧
        (decide (trimDot (lower lib x) ≠ []) &&
          !isDefaultAllowedHubHost (trimDot (lower lib x))) = false := by
      rw [hostName]
      cases hs : splitHostPort (trimSpace r.host) with
      | none =>
        rw [hs] at h
        exact ⟨_, rfl, h⟩
      | some parts =>
        rw [hs] at h
        dsimp only at h
        rw [trim_eq_self (not_isBracket_of_splitHostPort hs)] at h
        exact ⟨_, rfl, h⟩
    have hlocal : trimDot (lower lib x) = [] ∨ isDefaultAllowedHubHost (trimDot (lower lib x)) = true := by
      by_cases h0 : trimDot (lower lib x) = []
      · exact .inl h0
      · rw [decide_eq_true h0, Bool.true_and, Bool.not_eq_false'] at hx'
        exact .inr hx'
    have hspace : ∀ c ∈ trimDot (lower lib x), isSpace c = false := by
      rcases hlocal with h0 | hdefault
      · rw [h0]
        exact fun c hc => absurd hc List.not_mem_nil
      · have hall : ∀ name ∈ ["127.0.0.1".toList, "localhost".toList, "::1".toList],
            name.all (fun c => !isSpace c) = true := by decide
        intro c hc
        have hname := List.all_eq_true.1 (hall _ (isDefaultAllowedHubHost_iff.1 hdefault)) c hc
        exact (Bool.not_eq_true' _).mp hname
    rw [trimSpace_eq_self_of_lower hspace] at hx
    rw [NamesLoopback, ← isDefaultAllowedHubHost_iff, hx]
    exact hlocal.resolve_left (hx ▸ hname)
  next => exact absurd h.symm Bool.false_ne_true

theorem isLogicallyRemote_of_not_loopback (h : ¬ LoopbackPeer lib r) : isLogicallyRemote lib r = true := by
  rw [isLogicallyRemote, if_neg (mt isLoopbackRemote_iff.1 h)]

/-! ### The parts of the guard -/

theorem bind_eq_ok {ε : Type} {x y : Except ε Unit} :
    (x >>= fun _ => y) = .ok () ↔ x = .ok () ∧ y = .ok () := by
  cases x with
  | error e => exact iff_of_false (fun h => nomatch h) fun h => nomatch h.1
  | ok u => exact ⟨fun h => ⟨rfl, h⟩, fun h => h.2⟩

theorem ite_ok_iff {p : Prop} [Decidable p] {e : JSONError} :
    (if p then Except.ok () else Except.error e) = Except.ok () ↔ p := by
  split
  next h => exact iff_of_true rfl h
  next h => exact iff_of_false (fun h => nomatch h) h

/-- What the guard has found of a request that passes. -/
theorem guard_eq_ok {methods : List Str} {now : ℤ} (h : guard lib cfg methods r now = .ok ()) :
    validTokenOrTrustedRemote lib cfg (requestToken r) r = true ∧
      isAllowedHubHost lib r.host cfg.port cfg.allowedHosts = true ∧
      (methodAllowsStateChange r.method = true → requireAllowedRequestOrigin lib cfg r = .ok ()) ∧
      (remotePINRequired lib cfg r = true → hasValidPINCookie lib cfg r now = true) := by
  rw [guard, bind_eq_ok, guardBase, bind_eq_ok, bind_eq_ok, bind_eq_ok] at h
  obtain ⟨⟨htoken, -, hhost, horigin⟩, hpin⟩ := h
  refine ⟨ite_ok_iff.1 htoken, ite_ok_iff.1 hhost, fun hm => ?_, fun hr => ?_⟩
  · rwa [if_pos hm] at horigin
  · rw [requireRemotePIN, hr, Bool.not_true, if_neg Bool.false_ne_true] at hpin
    exact ite_ok_iff.1 hpin

theorem authorised_of_valid (hport : 0 < cfg.port)
    (hallow : isAllowedHubHost lib r.host cfg.port cfg.allowedHosts = true)
    (h : validTokenOrTrustedRemote lib cfg (requestToken r) r = true) :
    requestToken r = cfg.token ∧ cfg.token ≠ [] ∨
      cfg.allowLoopbackWithoutToken = true ∧
        (TrustedPeer lib cfg r ∨ LoopbackPeer lib r ∧ NamesLoopback lib r.host) := by
  rw [validTokenOrTrustedRemote] at h
  split at h
  next hvalid =>
    simp only [validToken, Bool.and_eq_true, decide_eq_true_eq] at hvalid
    exact .inl ⟨hvalid.2, hvalid.1.2⟩
  next =>
    split at h
    next => exact absurd h Bool.false_ne_true
    next hallowed =>
      rw [Bool.not_eq_true, Bool.not_eq_false'] at hallowed
      refine .inr ⟨hallowed, ?_⟩
      split at h
      next hlocal =>
        rw [Bool.and_eq_true, Bool.not_eq_true'] at hlocal
        exact .inr (local_of_not_remote hport hallow hlocal.1)
      next => exact .inl (isTrustedRemote_iff.1 h)

theorem pin_of_valid {now : ℤ} (h : hasValidPINCookie lib cfg r now = true) :
    ∃ payload expiry, r.cookie pinCookieName = some (signed lib cfg.authCookieSecret payload) ∧
      atoi payload = some expiry ∧ now < expiry := by
  rw [hasValidPINCookie] at h
  split at h
  next => exact absurd h Bool.false_ne_true
  next value hvalue =>
    rw [verifyPINCookie] at h
    split at h
    next => exact absurd h Bool.false_ne_true
    next =>
      split at h
      next => exact absurd h Bool.false_ne_true
      next dot hdot =>
        split at h
        next => exact absurd h Bool.false_ne_true
        next =>
          dsimp only at h
          split at h
          next => exact absurd h Bool.false_ne_true
          next hsig =>
            split at h
            next => exact absurd h Bool.false_ne_true
            next expiry hexpiry =>
              refine ⟨value.take dot, expiry, ?_, hexpiry, of_decide_eq_true h⟩
              rw [hvalue, signed, ← not_not.1 hsig, ← eq_of_lastIndex hdot]

/-- An origin that is let through: the server's own, or an http origin without a port. -/
theorem origin_of_allowed (hport : 0 < cfg.port) {origin : Str}
    (h : isAllowedHubOrigin lib origin cfg.port cfg.allowedHosts = true) :
    ∃ u, lib.parseURL origin = some u ∧
      (OwnOrigin lib cfg u ∨ lower lib u.scheme = "http".toList ∧ NamesAllowed lib cfg u.host ∧
        portName u.host = []) := by
  rw [isAllowedHubOrigin] at h
  split at h
  next => exact absurd h Bool.false_ne_true
  next u hu =>
    refine ⟨u, hu, ?_⟩
    split at h
    next => exact absurd h Bool.false_ne_true
    next =>
      split at h
      next hhttp =>
        obtain ⟨-, hnames, hno | hsame⟩ := (isAllowedHubHost_iff hport).1 h
        · exact .inr ⟨hhttp, hnames, hno⟩
        · by_cases hno : portName u.host = []
          · exact .inr ⟨hhttp, hnames, hno⟩
          · exact .inl (.inr ⟨hhttp, hnames, (if_neg hno).trans hsame⟩)
      next =>
        split at h
        next hhttps => exact .inl (.inl ⟨hhttps, isConfiguredAllowedHubHost_iff.1 h⟩)
        next => exact absurd h Bool.false_ne_true

/-- A request that the guard lets through has what it should have exactly if it does not come from
an http origin without a port, unless the server's port is that of http. -/
theorem sound_iff {methods : List Str} {now : ℤ} (hport : 0 < cfg.port)
    (h : guard lib cfg methods r now = .ok ()) :
    Sound lib cfg r now ↔ (PortlessOrigin lib r → cfg.port = 80) := by
  obtain ⟨hvalid, hallow, horigin, hpin⟩ := guard_eq_ok h
  constructor
  · rintro hsound ⟨hm, hne, u, hu, hhttp, hno⟩
    obtain ⟨v, hv, hown⟩ := hsound.origin hm hne
    obtain rfl : u = v := Option.some.inj (hu.symm.trans hv)
    rcases hown with ⟨hhttps, -⟩ | ⟨-, -, heffective⟩
    · exact absurd (hhttp.symm.trans hhttps) (by decide)
    · rw [effectivePort, if_pos hno, Option.some.injEq] at heffective
      exact heffective.symm
  · intro hcond
    refine ⟨authorised_of_valid hport hallow hvalid, ((isAllowedHubHost_iff hport).1 hallow).2.1, ?_, ?_⟩
    · intro hm hne
      have ho := horigin hm
      rw [requireAllowedRequestOrigin, if_pos hne] at ho
      obtain ⟨u, hu, hown | ⟨hhttp, hnames, hno⟩⟩ := origin_of_allowed hport (ite_ok_iff.1 ho)
      · exact ⟨u, hu, hown⟩
      · have h80 := hcond ⟨hm, hne, u, hu, hhttp, hno⟩
        exact ⟨u, hu, .inr ⟨hhttp, hnames, (if_pos hno).trans (congrArg some h80.symm)⟩⟩
    · intro hset hremote
      apply pin_of_valid
      apply hpin
      rw [remotePINRequired, decide_eq_true hset, Bool.and_true]
      by_contra hnot
      exact hremote (local_of_not_remote hport hallow (Bool.not_eq_true _ ▸ hnot))

end Guard

/-- One address and the plain http URLs of the requests below. -/
def localLib : Lib where
  IP := Str
  Network := Empty
  parseIP s := if s = "127.0.0.1".toList then some s else none
  isLoopback _ := true
  parseCIDR _ := none
  contains network _ := network.elim
  parseURL s := if hasPrefix s "http://".toList then some ⟨"http".toList, s.drop 7⟩ else none
  hmac _ _ := []
  toLower := lowerChar
  toLower_space c h := by
    rw [lowerChar, if_neg, if_neg, if_neg]
    · rintro rfl
      exact absurd h (by decide)
    · rintro rfl
      exact absurd h (by decide)
    · rintro ⟨hA, hZ⟩
      have hA' : 65 ≤ c.toNat := hA
      have hZ' : c.toNat ≤ 90 := hZ
      simp only [isSpace, Bool.or_eq_true, Bool.and_eq_true, decide_eq_true_eq] at h
      omega

def localConfig : Config where
  token := "t0".toList
  port := 47777
  allowLoopbackWithoutToken := false
  trustedNetworks := []
  allowedHosts := []
  authCookieSecret := []
  remotePINHash := []

/-- A change from a page on this machine. -/
def localPost (origin : String) : Request where
  remoteAddr := "127.0.0.1:50000".toList
  method := "POST".toList
  host := "localhost:47777".toList
  queryToken := "t0".toList
  origin := origin.toList

theorem localPost_sound : Sound localLib localConfig (localPost "http://localhost:47777") 0 := by
  have hguard : guard localLib localConfig [] (localPost "http://localhost:47777") 0 = .ok () := by
    decide +kernel
  refine (sound_iff (by decide) hguard).2 ?_
  rintro ⟨-, -, u, hu, -, hno⟩
  cases hu
  exact absurd hno (by decide +kernel)

/-- A page of another server on the same machine, at the port of http, may change the state. -/
theorem portless_origin_passes :
    guard localLib localConfig [] (localPost "http://localhost") 0 = .ok () ∧
      ¬ Sound localLib localConfig (localPost "http://localhost") 0 := by
  refine ⟨by decide +kernel, fun hsound => ?_⟩
  obtain ⟨u, hu, hown⟩ := hsound.origin (by decide +kernel) (by decide +kernel)
  cases hu
  rcases hown with ⟨hhttps, -⟩ | ⟨-, -, heffective⟩
  · exact absurd hhttps (by decide +kernel)
  · exact absurd heffective (by decide +kernel)

end ManyAiCli.Hub.RequestGuard
