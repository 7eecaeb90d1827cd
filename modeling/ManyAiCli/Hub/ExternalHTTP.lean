import ManyAiCli.Runs.Jobs
import ManyAiCli.Runs.Machine
import ManyAiCli.Text.Netip

/-! The client for resources outside of the own network. It looks at the scheme and at the host
of each request and redirect. Before each connection it looks the host up and refuses what is
in the own network; then the dialer looks it up again. The servers, the resolver and the
transport are not trusted. -/

namespace ManyAiCli.Hub.ExternalHTTP

open Runs Text

/-! ### The checks -/

abbrev Host := List Char

def isBlockedNetworkHost (host : Host) : Bool :=
  let host := toLower (trimSpace host)
  let host := if hasSuffix host ['.'] then host.dropLast else host
  -- up to the last percent sign
  let host := if '%' ∈ host then ((host.reverse.dropWhile (· ≠ '%')).drop 1).reverse else host
  match parseAddr host with
  | none => false
  | some addr =>
    let addr := addr.unmap
    addr.isUnspecified || addr.isLoopback || addr.isPrivate || addr.isLinkLocalUnicast ||
      addr.isLinkLocalMulticast || addr.isMulticast

/-- An address, by its text. -/
def isBlocked (ip : Addr) : Bool := isBlockedNetworkHost (ipString ip)

structure URL where
  scheme : List Char
  hostname : Host
  deriving DecidableEq, Repr

def validateExternalHTTPSURL : Option URL → Except String URL
  | none => .error "missing request URL"
  | some u =>
    if toLower u.scheme ≠ "https".toList then .error "non-https request blocked"
    else if isBlockedNetworkHost u.hostname then .error "private network host blocked"
    else .ok u

/-- `CheckRedirect`, of the number of requests so far. -/
def checkRedirect (url : Option URL) (via : ℕ) : Except String URL :=
  if via ≥ 3 then .error "too many redirects" else validateExternalHTTPSURL url

/-- `LookupIPAddr`: the text of an address is that address, all else is up to the resolver. -/
def lookupIPAddr (host : Host) (answer : Option (List Addr)) : Option (List Addr) :=
  match parseAddr host with
  | some ip => some [ip]
  | none => answer

/-- `privateNetworkBlockingDialContext`, around what comes next. -/
def privateNetworkBlockingDial {α : Type} (ips : Option (List Addr)) (next : Except String α) : Except String α :=
  match ips with
  | none => .error "lookup failed"
  | some ips => if ips.any isBlocked then .error "private network host blocked" else next

/-! ### The client at work -/

/-- A call of the client; `redirects` counts those followed so far. -/
inductive Call
  | pending (url : Option URL) (redirects : ℕ)
  | admitted (url : URL) (redirects : ℕ)
  | sent (redirects : ℕ)
  | ended (redirects : ℕ)
  deriving DecidableEq, Repr

def Call.redirects : Call → ℕ
  | .pending _ n => n
  | .admitted _ n => n
  | .sent n => n
  | .ended n => n

/-- The dialer has its own answer of addresses for each dial. -/
structure State where
  calls : List Call
  dials : List (List Addr)
  deriving DecidableEq, Repr

def State.init : State := ⟨[], []⟩

inductive Action
  | get (url : Option URL)
  /-- `RoundTrip`. -/
  | roundTrip (call : ℕ)
  /-- The transport dials a host: that of a URL or that of a proxy. There is an answer for the
  check and one for the dialer. -/
  | dial (host : Host) (checked own : Option (List Addr))
  /-- A dialer tries one of its addresses. -/
  | connect (dial : ℕ) (ip : Addr)
  /-- The request goes out on some connection. -/
  | send (call : ℕ)
  | respond (call : ℕ) (redirect : Option (Option URL))

inductive Event
  | opened (ip : Addr)
  | sent (url : URL)
  | followed (call : ℕ)
  deriving DecidableEq, Repr

namespace State

variable (s : State)

def step : Action → Option (State × List Event)
  | .get url => some ({ s with calls := s.calls ++ [.pending url 0] }, [])
  | .roundTrip i =>
    match s.calls[i]? with
    | some (.pending url n) =>
      match validateExternalHTTPSURL url with
      | .ok url => some ({ s with calls := s.calls.set i (.admitted url n) }, [])
      | .error _ => some ({ s with calls := s.calls.set i (.ended n) }, [])
    | _ => none
  | .dial host checked own =>
    match privateNetworkBlockingDial (lookupIPAddr host checked)
        (match lookupIPAddr host own with | some ips => .ok ips | none => .error "lookup failed") with
    | .ok ips => some ({ s with dials := s.dials ++ [ips] }, [])
    | .error _ => some (s, [])
  | .connect d ip =>
    match s.dials[d]? with
    | some ips => if ip ∈ ips then some (s, [.opened ip]) else none
    | none => none
  | .send i =>
    match s.calls[i]? with
    | some (.admitted url n) => some ({ s with calls := s.calls.set i (.sent n) }, [.sent url])
    | _ => none
  | .respond i redirect =>
    match s.calls[i]? with
    | some (.sent n) =>
      match redirect with
      | none => some ({ s with calls := s.calls.set i (.ended n) }, [])
      | some url =>
        match checkRedirect url (n + 1) with
        | .ok url => some ({ s with calls := s.calls.set i (.pending (some url) (n + 1)) }, [.followed i])
        | .error _ => some ({ s with calls := s.calls.set i (.ended n) }, [])
    | _ => none

end State

/-- No connection to the own network. -/
def Outside (h : List Event) : Prop := ∀ ip, .opened ip ∈ h → isBlocked ip = false

/-- Nor will a dialer open one next. -/
def Harmless (s : State) : Prop := ∀ d ip t es, s.step (.connect d ip) = some (t, es) → Outside es

/-- The answer for the dialer has no address of the own network, if that for the check had none. -/
def Covered (_ : State) : Action → Prop
  | .dial host checked own => ∀ ips ∈ lookupIPAddr host checked, ips.any isBlocked = false →
    ∀ ips' ∈ lookupIPAddr host own, ips'.any isBlocked = false
  | _ => True

/-! ### The steps -/

variable {s t : State} {a : Action} {es : List Event}

/-- The steps that are taken, with what they do. -/
inductive Move (s : State) : Action → State → List Event → Prop
  | get {url : Option URL} : Move s (.get url) { s with calls := s.calls ++ [.pending url 0] } []
  | pass {i n : ℕ} {url : URL} {u : Option URL} (hi : s.calls[i]? = some (.pending u n))
      (hv : validateExternalHTTPSURL u = .ok url) :
      Move s (.roundTrip i) { s with calls := s.calls.set i (.admitted url n) } []
  | refuse {i n : ℕ} {u : Option URL} (hi : s.calls[i]? = some (.pending u n)) :
      Move s (.roundTrip i) { s with calls := s.calls.set i (.ended n) } []
  | dial {host : Host} {checked own : Option (List Addr)} {ips ips' : List Addr}
      (hc : lookupIPAddr host checked = some ips) (hb : ips.any isBlocked = false)
      (ho : lookupIPAddr host own = some ips') :
      Move s (.dial host checked own) { s with dials := s.dials ++ [ips'] } []
  | noDial {host : Host} {checked own : Option (List Addr)}
      (hno : ∀ ips ∈ lookupIPAddr host checked, ips.any isBlocked = false → lookupIPAddr host own = none) :
      Move s (.dial host checked own) s []
  | connect {d : ℕ} {ip : Addr} {ips : List Addr} (hd : s.dials[d]? = some ips) (hip : ip ∈ ips) :
      Move s (.connect d ip) s [.opened ip]
  | send {i n : ℕ} {url : URL} (hi : s.calls[i]? = some (.admitted url n)) :
      Move s (.send i) { s with calls := s.calls.set i (.sent n) } [.sent url]
  | last {i n : ℕ} {redirect : Option (Option URL)} (hi : s.calls[i]? = some (.sent n)) :
      Move s (.respond i redirect) { s with calls := s.calls.set i (.ended n) } []
  | follow {i n : ℕ} {u : Option URL} {url : URL} (hi : s.calls[i]? = some (.sent n))
      (hr : checkRedirect u (n + 1) = .ok url) :
      Move s (.respond i (some u)) { s with calls := s.calls.set i (.pending (some url) (n + 1)) } [.followed i]

theorem move_of_dial {host : Host} {checked own : Option (List Addr)}
    (h : s.step (.dial host checked own) = some (t, es)) : Move s (.dial host checked own) t es := by
  unfold State.step privateNetworkBlockingDial at h
  dsimp only at h
  cases hc : lookupIPAddr host checked with
  | none =>
    rw [hc] at h
    cases h
    exact .noDial fun ips hips => by rw [hc] at hips; cases hips
  | some ips =>
    rw [hc] at h
    cases hb : ips.any isBlocked with
    | true =>
      simp only [hb, if_true] at h
      cases h
      apply Move.noDial
      intro ips' hips' hb'
      rw [hc] at hips'
      cases hips'
      rw [hb] at hb'
      cases hb'
    | false =>
      simp only [hb, Bool.false_eq_true, if_false] at h
      cases ho : lookupIPAddr host own with
      | none =>
        rw [ho] at h
        cases h
        exact .noDial fun _ _ _ => ho
      | some ips' =>
        rw [ho] at h
        cases h
        exact .dial hc hb ho

theorem move_of_step (h : s.step a = some (t, es)) : Move s a t es := by
  cases a with
  | get url =>
    cases h
    exact .get
  | roundTrip i =>
    rw [State.step] at h
    split at h
    next url n hi =>
      cases hv : validateExternalHTTPSURL url with
      | ok u =>
        rw [hv] at h
        cases h
        exact .pass hi hv
      | error text =>
        rw [hv] at h
        cases h
        exact .refuse hi
    next => cases h
  | dial host checked own => exact move_of_dial h
  | connect d ip =>
    rw [State.step] at h
    split at h
    next ips hd =>
      split_ifs at h with hip
      cases h
      exact .connect hd hip
    next => cases h
  | send i =>
    rw [State.step] at h
    split at h
    next url n hi =>
      cases h
      exact .send hi
    next => cases h
  | respond i redirect =>
    rw [State.step] at h
    split at h
    next n hi =>
      cases redirect with
      | none =>
        cases h
        exact .last hi
      | some u =>
        dsimp only at h
        cases hr : checkRedirect u (n + 1) with
        | ok url =>
          rw [hr] at h
          cases h
          exact .follow hi hr
        | error text =>
          rw [hr] at h
          cases h
          exact .last hi
    next => cases h

/-! ### Requests and redirects -/

def Secure (url : URL) : Prop := toLower url.scheme = "https".toList

theorem secure_of_validate {u : Option URL} {url : URL} (h : validateExternalHTTPSURL u = .ok url) : Secure url := by
  cases u with
  | none => cases h
  | some u =>
    rw [validateExternalHTTPSURL] at h
    split_ifs at h with hscheme hhost
    cases h
    exact not_not.1 hscheme

theorem via_of_checkRedirect {u : Option URL} {url : URL} {via : ℕ} (h : checkRedirect u via = .ok url) : via < 3 := by
  rw [checkRedirect] at h
  split_ifs at h with hvia
  exact Nat.not_le.1 hvia

/-- What a call has followed so far. -/
def followedBy (s : State) (i : ℕ) : ℕ := (s.calls[i]?.map Call.redirects).getD 0

/-- What is admitted or sent is secure; the calls count their redirects. -/
structure Checked (h : List Event) (s : State) : Prop where
  admitted : ∀ (i : ℕ) (url : URL) (n : ℕ), s.calls[i]? = some (Call.admitted url n) → Secure url
  sent : ∀ url, .sent url ∈ h → Secure url
  count : ∀ i, h.count (.followed i) = followedBy s i
  few : ∀ i, followedBy s i ≤ 2

theorem followedBy_set {i n : ℕ} {c c' : Call} (hi : s.calls[i]? = some c) (hn : c'.redirects = n) (j : ℕ) :
    followedBy { s with calls := s.calls.set i c' } j = if j = i then n else followedBy s j := by
  obtain ⟨hlt, -⟩ := List.getElem?_eq_some_iff.1 hi
  rw [followedBy]
  dsimp only
  split_ifs with hj
  · rw [hj, List.getElem?_set_self hlt, Option.map_some, Option.getD_some, hn]
  · rw [List.getElem?_set_ne (Ne.symm hj), followedBy]

theorem followedBy_of {i : ℕ} {c : Call} (hi : s.calls[i]? = some c) : followedBy s i = c.redirects := by
  rw [followedBy, hi, Option.map_some, Option.getD_some]

/-- A call goes on and follows nothing. -/
theorem checked_set {h : List Event} (hc : Checked h s) {i : ℕ} {c c' : Call} (hi : s.calls[i]? = some c)
    (hsame : c'.redirects = c.redirects) (hadmitted : ∀ url n, c' = .admitted url n → Secure url)
    (hsent : ∀ url, .sent url ∈ es → Secure url) (hnone : ∀ j, .followed j ∉ es) :
    Checked (h ++ es) { s with calls := s.calls.set i c' } := by
  have hby : ∀ j, followedBy { s with calls := s.calls.set i c' } j = followedBy s j := by
    intro j
    rw [followedBy_set hi hsame]
    split_ifs with hj
    · rw [hj, followedBy_of hi]
    · rfl
  refine ⟨?_, ?_, ?_, ?_⟩
  · intro j url n hj
    rcases getElem?_set_cases hj with ⟨-, heq⟩ | ⟨-, hj⟩
    · exact hadmitted url n heq.symm
    · exact hc.admitted j url n hj
  · intro url hmem
    rcases List.mem_append.1 hmem with hmem | hmem
    · exact hc.sent url hmem
    · exact hsent url hmem
  · intro j
    rw [List.count_append, hc.count, List.count_eq_zero_of_not_mem (hnone j), hby, Nat.add_zero]
  · intro j
    rw [hby]
    exact hc.few j

theorem checked_follow {h : List Event} (hc : Checked h s) {i n : ℕ} {u : Option URL} {url : URL}
    (hi : s.calls[i]? = some (.sent n)) (hr : checkRedirect u (n + 1) = .ok url) :
    Checked (h ++ [.followed i]) { s with calls := s.calls.set i (.pending (some url) (n + 1)) } := by
  have hvia := via_of_checkRedirect hr
  have hby : ∀ j, followedBy { s with calls := s.calls.set i (.pending (some url) (n + 1)) } j =
      if j = i then n + 1 else followedBy s j := followedBy_set hi rfl
  refine ⟨?_, ?_, ?_, ?_⟩
  · intro j url' m hj
    rcases getElem?_set_cases hj with ⟨-, heq⟩ | ⟨-, hj⟩
    · cases heq
    · exact hc.admitted j url' m hj
  · intro url' hmem
    rcases List.mem_append.1 hmem with hmem | hmem
    · exact hc.sent url' hmem
    · cases List.mem_singleton.1 hmem
  · intro j
    rw [List.count_append, hc.count, hby, List.count_singleton]
    split_ifs with hk hj hj
    · rw [hj, followedBy_of hi]
      rfl
    · exact absurd (Event.followed.inj (beq_iff_eq.1 hk)).symm hj
    · exact absurd (beq_iff_eq.2 (congrArg Event.followed hj.symm)) hk
    · rfl
  · intro j
    rw [hby]
    split_ifs
    · omega
    · exact hc.few j

/-- A new call has followed nothing. -/
theorem checked_get {h : List Event} (hc : Checked h s) {url : Option URL} :
    Checked h { s with calls := s.calls ++ [.pending url 0] } := by
  have hby : ∀ j, followedBy { s with calls := s.calls ++ [.pending url 0] } j = followedBy s j := by
    intro j
    rw [followedBy, followedBy]
    dsimp only
    rcases Nat.lt_trichotomy j s.calls.length with hlt | rfl | hgt
    · rw [List.getElem?_append_left hlt]
    · rw [List.getElem?_concat_length, List.getElem?_eq_none (Nat.le_refl _)]
      rfl
    · rw [List.getElem?_eq_none (Nat.le_of_lt hgt), List.getElem?_eq_none]
      rw [List.length_append]
      exact hgt
  refine ⟨?_, hc.sent, fun j => (hc.count j).trans (hby j).symm, fun j => (hby j).le.trans (hc.few j)⟩
  intro i u n hi
  rcases List.mem_append.1 (List.mem_of_getElem? hi) with hmem | hmem
  · obtain ⟨j, hj⟩ := List.mem_iff_getElem?.1 hmem
    exact hc.admitted j u n hj
  · cases List.mem_singleton.1 hmem

theorem checked_move {h : List Event} (hc : Checked h s) (hm : Move s a t es) : Checked (h ++ es) t := by
  have hquiet : ∀ url, Event.sent url ∈ ([] : List Event) → Secure url := fun _ hmem => absurd hmem List.not_mem_nil
  have hstill : ∀ j, Event.followed j ∉ ([] : List Event) := fun _ => List.not_mem_nil
  cases hm with
  | get =>
    rw [List.append_nil]
    exact checked_get hc
  | pass hi hv =>
    refine checked_set hc hi rfl (fun url n heq => ?_) hquiet hstill
    cases heq
    exact secure_of_validate hv
  | refuse hi => exact checked_set hc hi rfl (fun _ _ heq => by cases heq) hquiet hstill
  | dial =>
    rw [List.append_nil]
    exact ⟨hc.admitted, hc.sent, hc.count, hc.few⟩
  | noDial =>
    rw [List.append_nil]
    exact hc
  | connect =>
    refine ⟨hc.admitted, fun url hmem => ?_, fun j => ?_, hc.few⟩
    · rcases List.mem_append.1 hmem with hmem | hmem
      · exact hc.sent url hmem
      · cases List.mem_singleton.1 hmem
    · rw [List.count_append, hc.count]
      rfl
  | send hi =>
    refine checked_set hc hi rfl (fun _ _ heq => by cases heq) (fun url hmem => ?_) fun j hmem => ?_
    · cases List.mem_singleton.1 hmem
      exact hc.admitted _ _ _ hi
    · cases List.mem_singleton.1 hmem
  | last hi => exact checked_set hc hi rfl (fun _ _ heq => by cases heq) hquiet hstill
  | follow hi hr => exact checked_follow hc hi hr

/-! ### Connections -/

theorem harmless_iff : Harmless s ↔ ∀ ips ∈ s.dials, ips.any isBlocked = false := by
  constructor
  · intro h ips hmem
    obtain ⟨d, hd⟩ := List.mem_iff_getElem?.1 hmem
    rw [List.any_eq_false]
    intro ip hip
    have hstep : s.step (.connect d ip) = some (s, [.opened ip]) := by
      rw [State.step, hd]
      exact if_pos hip
    have hout := h d ip s _ hstep ip (List.mem_singleton_self _)
    rw [hout]
    exact Bool.false_ne_true
  · intro h d ip t es hstep
    cases move_of_step hstep with
    | connect hd hip =>
      intro ip' hmem
      cases List.mem_singleton.1 hmem
      exact Bool.eq_false_iff.2 (List.any_eq_false.1 (h _ (List.mem_of_getElem? hd)) _ hip)

theorem outside_append {h : List Event} : Outside (h ++ es) ↔ Outside h ∧ Outside es := by
  constructor
  · intro ho
    exact ⟨fun ip hmem => ho ip (List.mem_append_left es hmem), fun ip hmem => ho ip (List.mem_append_right h hmem)⟩
  · rintro ⟨hh, hes⟩ ip hmem
    exact (List.mem_append.1 hmem).elim (hh ip) (hes ip)

theorem outside_nil : Outside [] := fun _ hmem => absurd hmem List.not_mem_nil

/-- A step without a dial or a connection. -/
theorem outside_of_other {e : List Event} (he : ∀ ip, .opened ip ∉ e) : Outside e :=
  fun ip hmem => absurd hmem (he ip)

/-- Exactly the covered dials leave a state in which no dialer can go astray. -/
theorem outside_move {h : List Event} (hP : Outside h ∧ Harmless s) (hm : Move s a t es) :
    Outside (h ++ es) ∧ Harmless t ↔ Covered s a := by
  obtain ⟨hout, hharm⟩ := hP
  have hother : (∀ ip, .opened ip ∉ es) → t.dials = s.dials → Outside (h ++ es) ∧ Harmless t := by
    intro hes hdials
    refine ⟨outside_append.2 ⟨hout, outside_of_other hes⟩, harmless_iff.2 ?_⟩
    rw [hdials]
    exact harmless_iff.1 hharm
  cases hm with
  | @dial host checked own ips ips' hc hb ho =>
    have hcovered : Covered s (.dial host checked own) ↔ ips'.any isBlocked = false := by
      rw [Covered, hc, ho]
      constructor
      · exact fun hall => hall ips rfl hb ips' rfl
      · intro hfine _ _ _ ips'' hmem
        cases hmem
        exact hfine
    rw [hcovered, List.append_nil, harmless_iff, List.forall_mem_append, List.forall_mem_singleton]
    exact ⟨fun hall => hall.2.2, fun hfine => ⟨hout, harmless_iff.1 hharm, hfine⟩⟩
  | noDial hno =>
    refine iff_of_true (hother (fun _ => List.not_mem_nil) rfl) ?_
    intro ips hips hb ips' hips'
    rw [hno ips hips hb] at hips'
    cases hips'
  | @connect d ip ips hd hip =>
    refine iff_of_true ⟨outside_append.2 ⟨hout, ?_⟩, hharm⟩ trivial
    intro ip' hmem
    cases List.mem_singleton.1 hmem
    exact Bool.eq_false_iff.2 (List.any_eq_false.1 (harmless_iff.1 hharm _ (List.mem_of_getElem? hd)) _ hip)
  | get => exact iff_of_true (hother (fun _ => List.not_mem_nil) rfl) trivial
  | pass => exact iff_of_true (hother (fun _ => List.not_mem_nil) rfl) trivial
  | refuse => exact iff_of_true (hother (fun _ => List.not_mem_nil) rfl) trivial
  | send => exact iff_of_true (hother (fun _ hmem => by cases List.mem_singleton.1 hmem) rfl) trivial
  | last => exact iff_of_true (hother (fun _ => List.not_mem_nil) rfl) trivial
  | follow => exact iff_of_true (hother (fun _ hmem => by cases List.mem_singleton.1 hmem) rfl) trivial

/-! ### Runs -/

theorem checked_init : Checked [] State.init where
  admitted := fun _ _ _ hi => by cases hi
  sent := fun _ hmem => absurd hmem List.not_mem_nil
  count := fun _ => rfl
  few := fun _ => Nat.zero_le _

theorem harmless_init : Harmless State.init := harmless_iff.2 fun _ hmem => absurd hmem List.not_mem_nil

/-- On every run all requests are secure, and no call follows more than three redirects. No
connection to the own network is open in any state of the run, nor may be next, exactly if the
dialer's own answers have no address of it, where the answers for the check had none. -/
theorem guard_covers_iff {acts : List Action} (hx : exec State.step .init acts = some (s, es)) :
    (∀ url, .sent url ∈ es → Secure url) ∧ (∀ call, es.count (.followed call) ≤ 3) ∧
    ((∀ acts', acts' <+: acts → ∀ u fs, exec State.step .init acts' = some (u, fs) → Outside fs ∧ Harmless u) ↔
      Meets State.step Covered .init acts) := by
  have hchecked : Checked ([] ++ es) s :=
    exec_invariant (fun h s a t es hc (_ : True) hs => checked_move hc (move_of_step hs)) checked_init
      (meets_of_forall (fun _ _ => trivial) _ acts) hx
  refine ⟨hchecked.sent, fun call => ?_, ?_⟩
  · have hcount := hchecked.count call
    have hfew := hchecked.few call
    rw [List.nil_append] at hcount
    omega
  · exact forall_prefix_iff_meets (P := fun h s => Outside h ∧ Harmless s)
      (fun h s a t es hP hs => outside_move hP (move_of_step hs)) ⟨outside_nil, harmless_init⟩ hx

/-- 93.184.216.34 -/
def exampleIP : Addr := .v4 0x5DB8D822#32

def exampleURL : URL := ⟨"https".toList, "example.com".toList⟩

/-- A request, one redirect and both connections. -/
theorem guard_covers_redirect : ∃ s es, exec State.step .init
    [.get (some exampleURL), .roundTrip 0, .dial exampleURL.hostname (some [exampleIP]) (some [exampleIP]),
      .connect 0 exampleIP, .send 0, .respond 0 (some (some exampleURL)), .roundTrip 0, .send 0] = some (s, es) ∧
      (∀ url, .sent url ∈ es → Secure url) ∧ Outside es := by
  obtain ⟨s, es, hx⟩ : ∃ s es, exec State.step .init
      [.get (some exampleURL), .roundTrip 0, .dial exampleURL.hostname (some [exampleIP]) (some [exampleIP]),
        .connect 0 exampleIP, .send 0, .respond 0 (some (some exampleURL)), .roundTrip 0, .send 0] =
          some (s, es) := ⟨_, _, rfl⟩
  obtain ⟨hsecure, -, hiff⟩ := guard_covers_iff hx
  refine ⟨s, es, hx, hsecure, (hiff.2 ?_ _ List.prefix_rfl s es hx).1⟩
  refine ⟨trivial, trivial, ?_, trivial, trivial, trivial, trivial, trivial, trivial⟩
  intro _ _ _ ips hips
  cases hips
  decide

/-- The second answer for the same host is the own machine. -/
theorem rebound_to_loopback : ∃ s es, exec State.step .init
    [.get (some exampleURL), .roundTrip 0, .dial exampleURL.hostname (some [exampleIP]) (some [.v4 0x7F000001#32]),
      .connect 0 (.v4 0x7F000001#32)] = some (s, es) ∧ ¬ Outside es := by
  refine ⟨_, [.opened (.v4 0x7F000001#32)], rfl, fun hout => ?_⟩
  have hfine : isBlocked (.v4 0x7F000001#32) = false := hout _ (List.mem_singleton_self _)
  exact absurd hfine (by decide)

end ManyAiCli.Hub.ExternalHTTP
