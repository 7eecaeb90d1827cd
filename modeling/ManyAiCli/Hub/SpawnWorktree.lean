import ManyAiCli.Runs.Machine
import Mathlib.Data.List.AList

/-! Sessions in a worktree of their own: the spawn handler makes the worktree and leaves it
in the map of pending registrations, under the label with which the wrapper registers. Each
stretch under the orchestration lock is one step, and so is a call of git. -/

namespace ManyAiCli.Hub.SpawnWorktree

open Runs

/-- One that has been created. -/
structure NormalWorktree where
  path : String
  parentDir : String
  branch : String
  deriving DecidableEq, Repr

def worktreeCleanupDelete : String := "delete"

def worktreeCleanupKeep : String := "keep"

def worktreeCleanupManual : String := "manual"

def effectiveWorktreeCleanup (value : String) : String :=
  if value = worktreeCleanupDelete ∨ value = worktreeCleanupKeep then value else worktreeCleanupManual

/-- Of `pendingChild`: what concerns the worktree, and the orchestration. -/
structure PendingChild where
  orchestrationID : String := ""
  worktreeBranch : String := ""
  normalWorktree : Option NormalWorktree := none
  worktreeCleanup : String := ""
  deriving DecidableEq, Repr

/-- Where the handler of a request is. -/
inductive Pc
  | preparing
  /-- The worktree is there. -/
  | reserving
  | orchestrating
  /-- The executable, the risk and the start of the process are to come. -/
  | checking
  | started
  /-- The deferred function runs. -/
  | failing
  | cleaning
  | failed
  deriving DecidableEq, Repr

/-- A request that has passed the checks before the worktree; a label has been made up for it
if it had none and needs one. `registered`: its wrapper has registered. -/
structure Request where
  label : String
  worktreeCleanup : String
  orchestration : Bool
  isolated : Option NormalWorktree
  pc : Pc
  registered : Bool
  deriving DecidableEq, Repr

/-- `request` is the one whose process the wrapper is, if any. -/
structure Session where
  request : Option ℕ
  orchestrationID : String
  worktreeBranch : String
  normalWorktree : Option NormalWorktree
  worktreeCleanup : String
  deriving DecidableEq, Repr

/-- `trees` are the worktrees there are, `created` those there have been. -/
structure State where
  requests : List Request
  pending : AList fun _ : String => PendingChild
  sessions : List Session
  trees : List NormalWorktree
  created : List NormalWorktree

inductive Action
  | request (label : String) (isolateWorktree : Bool) (bodyCleanup prefsCleanup : String)
      (orchestration : Bool)
  | prepareNormalWorktree (k : ℕ) (result : Option NormalWorktree)
  | reserveWorktree (k : ℕ)
  | reserveOrchestrationConductor (k : ℕ) (orchestrationID : String)
  /-- An invalid role, or a risk that is not confirmed. -/
  | refuse (k : ℕ)
  /-- No executable, or its start fails; `ok` is about `git worktree remove`, as below. -/
  | abort (k : ℕ) (ok : Bool)
  | startProcess (k : ℕ)
  | dropPending (k : ℕ)
  | cleanupIsolated (k : ℕ) (ok : Bool)
  /-- The wrapper of a request, or any other, registers. -/
  | register (k : ℕ)
  | registerOther (label : String)
  /-- The entries of children. -/
  | putChild (label orchestrationID : String)
  | dropChild (label : String)

namespace State

variable (s : State)

def initial (trees : List NormalWorktree) : State := ⟨[], ∅, [], trees, trees⟩

def setRequest (k : ℕ) (r : Request) : State := { s with requests := s.requests.set k r }

def put (label : String) (e : PendingChild) : State := { s with pending := s.pending.insert label e }

def drop (label : String) : State := { s with pending := s.pending.erase label }

def request (label : String) (isolateWorktree : Bool) (bodyCleanup prefsCleanup : String)
    (orchestration : Bool) :
    State :=
  let cleanup := effectiveWorktreeCleanup (if bodyCleanup = "" then prefsCleanup else bodyCleanup)
  { s with requests := s.requests ++
      [⟨label, cleanup, orchestration, none, if isolateWorktree then .preparing else .orchestrating, false⟩] }

/-- git makes no branch that there is, and that of a worktree stays when it is removed. -/
def prepareNormalWorktree (k : ℕ) (r : Request) (result : Option NormalWorktree) : Option State :=
  if r.pc = .preparing then
    match result with
    | none => some (s.setRequest k { r with pc := .failed })
    | some tree =>
      if tree ∈ s.created then none
      else some { s.setRequest k { r with isolated := some tree, pc := .reserving } with
        trees := tree :: s.trees, created := tree :: s.created }
  else none

def reserveWorktree (k : ℕ) (r : Request) : Option State :=
  match r.pc, r.isolated with
  | .reserving, some tree =>
    some ((s.setRequest k { r with pc := .orchestrating }).put r.label
      { normalWorktree := some tree, worktreeCleanup := r.worktreeCleanup, worktreeBranch := tree.branch })
  | _, _ => none

def reserveOrchestrationConductor (k : ℕ) (r : Request) (orchestrationID : String) : Option State :=
  if r.pc = .orchestrating then
    if r.orchestration then some ((s.setRequest k { r with pc := .checking }).put r.label { orchestrationID })
    else some (s.setRequest k { r with pc := .checking })
  else none

/-- What comes after an error: the deferred function does nothing without a worktree. -/
def afterError (r : Request) : Pc := if r.isolated.isSome then .failing else .failed

def refuse (k : ℕ) (r : Request) : Option State :=
  if (r.pc = .orchestrating ∧ r.orchestration) ∨ r.pc = .checking then some
    (s.setRequest k { r with pc := afterError r })
  else none

/-- A worktree is removed, or git refuses to. -/
def removeTree (tree : Option NormalWorktree) (ok : Bool) : State :=
  if ok then { s with trees := s.trees.filter fun t => some t ≠ tree } else s

def abort (k : ℕ) (r : Request) (ok : Bool) : Option State :=
  if r.pc = .checking then some ((s.setRequest k { r with pc := afterError r }).removeTree r.isolated ok)
    else none

def startProcess (k : ℕ) (r : Request) : Option State :=
  if r.pc = .checking then some (s.setRequest k { r with pc := .started }) else none

def dropPending (k : ℕ) (r : Request) : Option State :=
  if r.pc = .failing then some ((s.setRequest k { r with pc := .cleaning }).drop r.label) else none

def cleanupIsolated (k : ℕ) (r : Request) (ok : Bool) : Option State :=
  if r.pc = .cleaning then some ((s.setRequest k { r with pc := .failed }).removeTree r.isolated ok) else none

/-- `wrapperLoop` takes what is pending under the label. -/
def takePending (label : String) : PendingChild × State :=
  if label = "" then ({}, s) else ((s.pending.lookup label).getD {}, s.drop label)

def wrapperLoop (request : Option ℕ) (label : String) : State :=
  let (child, s) := s.takePending label
  { s with
    sessions := s.sessions ++
      [⟨request, child.orchestrationID, child.worktreeBranch, child.normalWorktree, child.worktreeCleanup⟩] }

def register (k : ℕ) (r : Request) : Option State :=
  if r.pc = .started ∧ r.registered = false then
    some ((s.setRequest k { r with registered := true }).wrapperLoop (some k) r.label)
  else none

end State

def move (s : State) : Action → Option State
  | .request label isolate body prefs orchestration =>
    if label = "" ∧ (isolate = true ∨ orchestration = true) then none
    else some (s.request label isolate body prefs orchestration)
  | .prepareNormalWorktree k result => s.requests[k]?.bind fun r => s.prepareNormalWorktree k r result
  | .reserveWorktree k => s.requests[k]?.bind (s.reserveWorktree k)
  | .reserveOrchestrationConductor k id => s.requests[k]?.bind fun r => s.reserveOrchestrationConductor k r id
  | .refuse k => s.requests[k]?.bind (s.refuse k)
  | .abort k ok => s.requests[k]?.bind fun r => s.abort k r ok
  | .startProcess k => s.requests[k]?.bind (s.startProcess k)
  | .dropPending k => s.requests[k]?.bind (s.dropPending k)
  | .cleanupIsolated k ok => s.requests[k]?.bind fun r => s.cleanupIsolated k r ok
  | .register k => s.requests[k]?.bind (s.register k)
  | .registerOther label => some (s.wrapperLoop none label)
  | .putChild label orchestrationID => if label = "" then none else some (s.put label { orchestrationID })
  | .dropChild label => some (s.drop label)

/-- Nothing is emitted. -/
def step (s : State) (a : Action) : Option (State × List Empty) := (move s a).map fun t => (t, [])

/-! ### What becomes of the worktrees -/

/-- When a request has failed, its worktree is gone and no entry refers to it. -/
def CleanedUp (s : State) : Prop :=
  ∀ r ∈ s.requests, r.pc = .failed → ∀ tree, r.isolated = some tree →
    tree ∉ s.trees ∧ ∀ label e, s.pending.lookup label = some e → e.normalWorktree ≠ some tree

/-- The session of a request has its worktree and its policy. -/
def HandedOver (s : State) : Prop :=
  ∀ ses ∈ s.sessions, ∀ k, ses.request = some k → ∃ r, s.requests[k]? = some r ∧
    ∀ tree, r.isolated = some tree → ses.normalWorktree = some tree ∧ ses.worktreeCleanup = r.worktreeCleanup

/-- The worktree that is pending under a label. -/
def State.tree (s : State) (label : String) : Option NormalWorktree :=
  (s.pending.lookup label).bind (·.normalWorktree)

/-- Only the request itself, its wrapper or its deferred function touches the entry of a
worktree, and git removes the worktree of a request that failed, unless it has already. -/
def undisturbed (s : State) : Action → Bool
  | .reserveWorktree k => s.requests[k]?.all fun r => (s.tree r.label).isNone
  | .reserveOrchestrationConductor k _ => s.requests[k]?.all fun r => !r.orchestration ||
      (s.tree r.label).isNone
  | .dropPending k | .register k =>
    s.requests[k]?.all fun r => (s.tree r.label).all fun tree => r.isolated = some tree
  | .registerOther label | .putChild label _ | .dropChild label => (s.tree label).isNone
  | .cleanupIsolated k ok => ok || s.requests[k]?.all fun r => r.isolated.all fun tree => tree ∉ s.trees
  | _ => true

/-- From the entry of its worktree on, until the wrapper or the deferred function has taken
it. -/
def Request.claims (r : Request) : Bool :=
  match r.pc with
  | .orchestrating | .checking | .failing => true
  | .started => !r.registered
  | _ => false

/-- What is to be pending for the request. -/
def Request.entry (r : Request) : Option (String × NormalWorktree × String) :=
  if r.claims then r.isolated.map fun tree => (r.label, tree, r.worktreeCleanup) else none

/-- The worktree and the policy that are pending under a label. -/
def State.held (s : State) (label : String) : Option (NormalWorktree × String) :=
  (s.pending.lookup label).bind fun e => e.normalWorktree.map fun tree => (tree, e.worktreeCleanup)

variable {s t : State} {a : Action} {k : ℕ} {r r' : Request} {label cleanup : String} {tree : NormalWorktree}

theorem Request.entry_eq_some : r.entry = some (label, tree, cleanup) ↔
    r.claims = true ∧ r.isolated = some tree ∧ r.label = label ∧ r.worktreeCleanup = cleanup := by
  unfold Request.entry
  split_ifs with h
  · simp [h, and_left_comm]
  · simp [h]

theorem held_eq_none : s.held label = none ↔ s.tree label = none := by
  unfold State.held State.tree
  cases s.pending.lookup label with
  | none => simp
  | some e => simp

theorem tree_of_held (h : s.held label = some (tree, cleanup)) : s.tree label = some tree := by
  obtain ⟨e, he, hmap⟩ := Option.bind_eq_some_iff.mp h
  obtain ⟨tree', htree, heq⟩ := Option.map_eq_some_iff.mp hmap
  obtain ⟨rfl, -⟩ := Prod.mk.inj heq
  rw [State.tree, he]
  exact htree

theorem held_put (own : String) (e : PendingChild) : (s.put own e).held label =
    if label = own then e.normalWorktree.map fun tree => (tree, e.worktreeCleanup) else s.held label := by
  unfold State.held State.put
  split_ifs with h
  · rw [h, AList.lookup_insert]
    rfl
  · rw [AList.lookup_insert_ne h]

theorem held_drop (own : String) : (s.drop own).held label = if label = own then none else s.held label := by
  unfold State.held State.drop
  split_ifs with h
  · rw [h, AList.lookup_erase]
    rfl
  · rw [AList.lookup_erase_ne h]

/-! ### What is pending -/

/-- The worktrees that are pending are those of the requests that have one and wait, and no
two requests have one worktree. -/
structure Agrees (s : State) : Prop where
  held : ∀ label tree cleanup, s.held label = some (tree, cleanup) ↔
    ∃ (j : ℕ) (r : Request), s.requests[j]? = some r ∧ r.entry = some (label, tree, cleanup)
  distinct : ∀ (i j : ℕ) (r r' : Request) (tree : NormalWorktree), s.requests[i]? = some r →
    s.requests[j]? = some r' → r.isolated = some tree → r'.isolated = some tree → i = j
  created : ∀ r ∈ s.requests, ∀ tree, r.isolated = some tree → tree ∈ s.created

theorem getElem?_setRequest (hk : s.requests[k]? = some r) (j : ℕ) :
    (s.requests.set k r')[j]? = if j = k then some r' else s.requests[j]? := by
  split_ifs with h
  · subst h
    exact List.getElem?_set_self (List.getElem?_eq_some_iff.mp hk).1
  · exact List.getElem?_set_ne (Ne.symm h)

/-- A request goes on with what it has; `held` is what is pending afterwards. -/
theorem Agrees.set (h : Agrees s) (hk : s.requests[k]? = some r)
    (hrequests : t.requests = s.requests.set k r')
    (hcreated : t.created = s.created) (hisolated : r'.isolated = r.isolated)
    (hheld : ∀ label tree cleanup, t.held label = some (tree, cleanup) ↔
      r'.entry = some (label, tree, cleanup) ∨
        ∃ (j : ℕ) (q : Request), j ≠ k ∧ s.requests[j]? = some q ∧ q.entry = some (label, tree, cleanup)) :
    Agrees t := by
  have hget (j : ℕ) : t.requests[j]? = if j = k then some r' else s.requests[j]? := by
    rw [hrequests, getElem?_setRequest hk]
  have hold (j : ℕ) (q : Request) (hq : t.requests[j]? = some q) :
      ∃ q', s.requests[j]? = some q' ∧ q'.isolated = q.isolated := by
    rw [hget] at hq
    split_ifs at hq with hj
    · obtain rfl := Option.some_inj.mp hq
      exact ⟨r, hj ▸ hk, hisolated.symm⟩
    · exact ⟨q, hq, rfl⟩
  refine ⟨fun label tree cleanup => ?_, fun i j q q' tree hq hq' htree htree' => ?_, fun q hq tree htree =>
    ?_⟩
  · rw [hheld]
    constructor
    · rintro (hr | ⟨j, q, hj, hq, hentry⟩)
      · exact ⟨k, r', by rw [hget, if_pos rfl], hr⟩
      · exact ⟨j, q, by rwa [hget, if_neg hj], hentry⟩
    · rintro ⟨j, q, hq, hentry⟩
      rw [hget] at hq
      split_ifs at hq with hj
      · obtain rfl := Option.some_inj.mp hq
        exact .inl hentry
      · exact .inr ⟨j, q, hj, hq, hentry⟩
  · obtain ⟨p, hp, heq⟩ := hold i q hq
    obtain ⟨p', hp', heq'⟩ := hold j q' hq'
    exact h.distinct i j p p' tree hp hp' (heq.trans htree) (heq'.trans htree')
  · obtain ⟨j, hj⟩ := List.mem_iff_getElem?.mp hq
    obtain ⟨p, hp, heq⟩ := hold j q hj
    rw [hcreated]
    exact h.created p (List.mem_of_getElem? hp) tree (heq.trans htree)

/-- What is pending for the other requests. -/
theorem Agrees.others (h : Agrees s) (hk : s.requests[k]? = some r) :
    s.held label = some (tree, cleanup) ↔ r.entry = some (label, tree, cleanup) ∨
      ∃ (j : ℕ) (q : Request), j ≠ k ∧ s.requests[j]? = some q ∧ q.entry = some (label, tree, cleanup) := by
  rw [h.held]
  constructor
  · rintro ⟨j, q, hq, hentry⟩
    by_cases hj : j = k
    · subst hj
      obtain rfl := Option.some_inj.mp (hk.symm.trans hq)
      exact .inl hentry
    · exact .inr ⟨j, q, hj, hq, hentry⟩
  · rintro (hentry | ⟨j, q, -, hq, hentry⟩)
    · exact ⟨k, r, hk, hentry⟩
    · exact ⟨j, q, hq, hentry⟩

/-- The entry stays as it is. -/
theorem Agrees.goOn (h : Agrees s) (hk : s.requests[k]? = some r)
    (hrequests : t.requests = s.requests.set k r')
    (hcreated : t.created = s.created) (hisolated : r'.isolated = r.isolated) (hentry : r'.entry = r.entry)
    (hpending : ∀ label, t.held label = s.held label) : Agrees t := by
  refine h.set hk hrequests hcreated hisolated fun label tree cleanup => ?_
  rw [hpending, hentry]
  exact h.others hk

/-- The request takes its entry away; there is none under its label other than its own. -/
theorem Agrees.take (h : Agrees s) (hk : s.requests[k]? = some r)
    (hrequests : t.requests = s.requests.set k r')
    (hcreated : t.created = s.created) (hisolated : r'.isolated = r.isolated)
    (hnone : r'.entry = none) (hpending : ∀ label, t.held label = (s.drop r.label).held label)
    (hown : ∀ tree, s.tree r.label = some tree → r.isolated = some tree) : Agrees t := by
  refine h.set hk hrequests hcreated hisolated fun label tree cleanup => ?_
  rw [hpending, held_drop, hnone]
  constructor
  · intro hheld
    split_ifs at hheld with hlabel
    refine .inr (((h.others hk).mp hheld).resolve_left fun hentry => hlabel ?_)
    exact (Request.entry_eq_some.mp hentry).2.2.1.symm
  · rintro (hentry | ⟨j, q, hj, hq, hentry⟩)
    · exact absurd hentry.symm (Option.some_ne_none _)
    · have hheld : s.held label = some (tree, cleanup) := (h.held label tree cleanup).mpr ⟨j, q, hq, hentry⟩
      rw [if_neg, hheld]
      rintro rfl
      have hr := hown tree (tree_of_held hheld)
      exact hj (h.distinct j k q r tree hq hk (Request.entry_eq_some.mp hentry).2.1 hr)

/-- A new request waits for nothing. -/
theorem Agrees.push (h : Agrees s) (hrequests : t.requests = s.requests ++ [r])
    (hcreated : t.created = s.created)
    (hisolated : r.isolated = none) (hpending : t.pending = s.pending) : Agrees t := by
  have hcases (j : ℕ) (q : Request) (hq : t.requests[j]? = some q) : s.requests[j]? = some q ∨ q = r := by
    rw [hrequests, List.getElem?_append] at hq
    split_ifs at hq
    · exact .inl hq
    · exact .inr (List.mem_singleton.mp (List.mem_of_getElem? hq))
  have htree {j : ℕ} {q : Request} {tree : NormalWorktree} (hq : t.requests[j]? = some q)
      (htree : q.isolated = some tree) : s.requests[j]? = some q := by
    rcases hcases j q hq with hq | rfl
    · exact hq
    · exact absurd (htree.symm.trans hisolated) (Option.some_ne_none tree)
  refine ⟨fun label tree cleanup => ?_, fun i j q q' tree hq hq' h₁ h₂ => ?_, fun q hq tree h₁ => ?_⟩
  · have hheld : t.held label = s.held label := by rw [State.held, hpending, State.held]
    rw [hheld, h.held]
    refine exists_congr fun j => exists_congr fun q => and_congr_left fun hentry =>
      ⟨fun hq => ?_, fun hq => ?_⟩
    · rw [hrequests]
      exact (List.getElem?_append_left (List.getElem?_eq_some_iff.mp hq).1).trans hq
    · exact htree hq (Request.entry_eq_some.mp hentry).2.1
  · exact h.distinct i j q q' tree (htree hq h₁) (htree hq' h₂) h₁ h₂
  · obtain ⟨j, hj⟩ := List.mem_iff_getElem?.mp hq
    rw [hcreated]
    exact h.created q (List.mem_of_getElem? (htree hj h₁)) tree h₁

theorem Agrees.make (h : Agrees s) (hk : s.requests[k]? = some r) (hnone : r.entry = none)
    (hfresh : tree ∉ s.created)
    (hrequests : t.requests = s.requests.set k r') (hcreated : t.created = tree :: s.created)
    (hisolated : r'.isolated = some tree) (hnone' : r'.entry = none) (hpending : t.pending = s.pending) :
      Agrees t := by
  have hget (j : ℕ) : t.requests[j]? = if j = k then some r' else s.requests[j]? := by
    rw [hrequests, getElem?_setRequest hk]
  have hother {j : ℕ} {q : Request} {x : NormalWorktree} (hq : t.requests[j]? = some q)
    (hx : q.isolated = some x) :
      (j = k ∧ x = tree) ∨ (j ≠ k ∧ s.requests[j]? = some q ∧ x ≠ tree) := by
    rw [hget] at hq
    split_ifs at hq with hj
    · obtain rfl := Option.some_inj.mp hq
      exact .inl ⟨hj, Option.some_inj.mp (hx.symm.trans hisolated)⟩
    · refine .inr ⟨hj, hq, ?_⟩
      rintro rfl
      exact hfresh (h.created q (List.mem_of_getElem? hq) x hx)
  refine ⟨fun label x cleanup => ?_, fun i j q q' x hq hq' hx hx' => ?_, fun q hq x hx => ?_⟩
  · have hheld : t.held label = s.held label := by rw [State.held, hpending, State.held]
    rw [hheld, h.held]
    refine exists_congr fun j => exists_congr fun q => and_congr_left fun hentry => ?_
    rw [hget]
    split_ifs with hj
    · subst hj
      refine ⟨fun hq => ?_, fun hq => ?_⟩
      · obtain rfl := Option.some_inj.mp (hk.symm.trans hq)
        exact absurd (hentry.symm.trans hnone) (Option.some_ne_none _)
      · obtain rfl := Option.some_inj.mp hq
        exact absurd (hentry.symm.trans hnone') (Option.some_ne_none _)
    · rfl
  · rcases hother hq hx with ⟨hi, hxt⟩ | ⟨-, hqs, hxt⟩
    · rcases hother hq' hx' with ⟨hj, -⟩ | ⟨-, -, hne⟩
      · rw [hi, hj]
      · exact absurd hxt hne
    · rcases hother hq' hx' with ⟨-, hxt'⟩ | ⟨-, hqs', -⟩
      · exact absurd hxt' hxt
      · exact h.distinct i j q q' x hqs hqs' hx hx'
  · obtain ⟨j, hj⟩ := List.mem_iff_getElem?.mp hq
    rw [hcreated]
    rcases hother hj hx with ⟨-, rfl⟩ | ⟨-, hqs, -⟩
    · exact List.mem_cons_self
    · exact List.mem_cons_of_mem _ (h.created q (List.mem_of_getElem? hqs) x hx)

/-- An entry without a worktree comes or goes where there is none with one. -/
theorem Agrees.congr (h : Agrees s) (hrequests : t.requests = s.requests) (hcreated : t.created = s.created)
    (hpending : ∀ label, t.held label = s.held label) : Agrees t :=
  ⟨fun label tree cleanup => by rw [hpending, hrequests, h.held], by rw [hrequests]; exact h.distinct,
    by rw [hrequests, hcreated]; exact h.created⟩

theorem held_drop_of_none {own : String} (h : s.tree own = none) : (s.drop own).held label = s.held label :=
    by
  rw [held_drop]
  split_ifs with hlabel
  · rw [hlabel, held_eq_none.mpr h]
  · rfl

theorem held_put_of_none {own : String} (h : s.tree own = none) {e : PendingChild}
    (he : e.normalWorktree = none) :
    (s.put own e).held label = s.held label := by
  rw [held_put]
  split_ifs with hlabel
  · rw [hlabel, held_eq_none.mpr h, he]
    rfl
  · rfl

/-! ### The empty label -/

theorem mem_removeTree {x : NormalWorktree} {isolated : Option NormalWorktree} {ok : Bool} :
    x ∈ (s.removeTree isolated ok).trees → x ∈ s.trees ∧ (ok = true → some x ≠ isolated) := by
  unfold State.removeTree
  cases ok with
  | true =>
    intro hx
    obtain ⟨hin, hne⟩ := List.mem_filter.mp hx
    exact ⟨hin, fun _ => by simpa using hne⟩
  | false => exact fun hx => ⟨hx, nofun⟩

theorem removeTree_eq (s : State) (isolated : Option NormalWorktree) (ok : Bool) :
    s.removeTree isolated ok = { s with trees := (s.removeTree isolated ok).trees } := by
  cases ok <;> rfl

theorem afterError_gone (h : State.afterError r = .failed) : r.isolated = none := by
  unfold State.afterError at h
  cases hiso : r.isolated with
  | none => rfl
  | some tree => simp [hiso] at h

theorem afterError_ne : State.afterError r ≠ .preparing := by
  unfold State.afterError
  split_ifs <;> decide

/-- Nothing is pending under the empty label, and a request without a label needs none. -/
structure Labelled (s : State) : Prop where
  pending : s.pending.lookup "" = none
  requests : ∀ r ∈ s.requests, r.label = "" → r.pc ≠ .preparing ∧ r.isolated = none ∧ r.orchestration = false

theorem Labelled.takePending (h : Labelled s) (label : String) :
    s.takePending label = ((s.pending.lookup label).getD {}, s.drop label) := by
  unfold State.takePending
  split_ifs with hlabel
  · have hkeys : "" ∉ s.pending.entries.keys := AList.lookup_eq_none.mp h.pending
    have hdrop : s.drop "" = s := by
      unfold State.drop
      congr 1
      exact AList.ext (List.kerase_of_notMem_keys hkeys)
    rw [hlabel, h.pending, hdrop]
    rfl
  · rfl

/-- A registration, with nothing under the empty label. -/
def State.handOver (s : State) (request : Option ℕ) (label : String) : State :=
  let child := (s.pending.lookup label).getD {}
  { s.drop label with
    sessions := s.sessions ++
      [⟨request, child.orchestrationID, child.worktreeBranch, child.normalWorktree, child.worktreeCleanup⟩] }

theorem Labelled.wrapperLoop (h : Labelled s) (request : Option ℕ) (label : String) :
    s.wrapperLoop request label = s.handOver request label := by
  unfold State.wrapperLoop State.handOver
  rw [h.takePending]
  rfl

theorem Labelled.set (h : Labelled s) (hk : s.requests[k]? = some r)
    (hrequests : t.requests = s.requests.set k r')
    (hpending : t.pending.lookup "" = none) (hlabel : r'.label = r.label)
      (horch : r'.orchestration = r.orchestration)
    (hpc : r'.pc ≠ .preparing) (hiso : r'.isolated = r.isolated ∨ r.pc = .preparing) : Labelled t := by
  refine ⟨hpending, fun q hq hempty => ?_⟩
  rw [hrequests] at hq
  rcases List.mem_or_eq_of_mem_set hq with hq | rfl
  · exact h.requests q hq hempty
  · obtain ⟨hne, hnone, hno⟩ := h.requests r (List.mem_of_getElem? hk) (hlabel ▸ hempty)
    exact ⟨hpc, (hiso.resolve_right hne).trans hnone, horch.trans hno⟩

theorem lookup_put_empty (hne : label ≠ "") (h : s.pending.lookup "" = none) (e : PendingChild) :
    (s.put label e).pending.lookup "" = none := (AList.lookup_insert_ne (Ne.symm hne)).trans h

theorem lookup_drop_empty (h : s.pending.lookup "" = none) (label : String) :
    (s.drop label).pending.lookup "" = none := by
  by_cases hlabel : "" = label
  · rw [← hlabel]
    exact AList.lookup_erase "" s.pending
  · exact (AList.lookup_erase_ne hlabel).trans h

theorem labelled_of_move (h : Labelled s) (hm : move s a = some t) : Labelled t := by
  cases a with
  | request label isolate body prefs orchestration =>
    obtain ⟨hneeds, hm⟩ := Option.ite_none_left_eq_some.mp hm
    obtain rfl := Option.some_inj.mp hm
    refine ⟨h.pending, fun r hr hempty => ?_⟩
    rcases List.mem_append.mp hr with hr | hr
    · exact h.requests r hr hempty
    · obtain rfl := List.mem_singleton.mp hr
      have hno : isolate = false ∧ orchestration = false := by
        rw [not_and_or, not_or] at hneeds
        simpa using hneeds.resolve_left (not_not_intro hempty)
      simp [hno.1, hno.2]
  | prepareNormalWorktree k result =>
    obtain ⟨r, hk, hm⟩ := Option.bind_eq_some_iff.mp hm
    obtain ⟨hpc, hm⟩ := Option.ite_none_right_eq_some.mp hm
    cases result with
    | none =>
      obtain rfl := Option.some_inj.mp hm
      exact h.set hk rfl h.pending rfl rfl (by simp) (.inr hpc)
    | some tree =>
      obtain ⟨-, hm⟩ := Option.ite_none_left_eq_some.mp hm
      obtain rfl := Option.some_inj.mp hm
      exact h.set hk rfl h.pending rfl rfl (by simp) (.inr hpc)
  | reserveWorktree k =>
    obtain ⟨r, hk, hm⟩ := Option.bind_eq_some_iff.mp hm
    unfold State.reserveWorktree at hm
    split at hm
    · next tree hpc hiso =>
      obtain rfl := Option.some_inj.mp hm
      refine h.set hk rfl (lookup_put_empty (fun hempty => ?_) h.pending _) rfl rfl (by simp) (.inl rfl)
      exact absurd (hiso.symm.trans (h.requests r (List.mem_of_getElem? hk) hempty).2.1)
        (Option.some_ne_none tree)
    · cases hm
  | reserveOrchestrationConductor k id =>
    obtain ⟨r, hk, hm⟩ := Option.bind_eq_some_iff.mp hm
    obtain ⟨hpc, hm⟩ := Option.ite_none_right_eq_some.mp hm
    split_ifs at hm with horch
    · obtain rfl := Option.some_inj.mp hm
      refine h.set hk rfl (lookup_put_empty (fun hempty => ?_) h.pending _) rfl rfl (by simp) (.inl rfl)
      have hno := (h.requests r (List.mem_of_getElem? hk) hempty).2.2
      exact absurd (hno.symm.trans horch) Bool.noConfusion
    · obtain rfl := Option.some_inj.mp hm
      exact h.set hk rfl h.pending rfl rfl (by simp) (.inl rfl)
  | refuse k =>
    obtain ⟨r, hk, hm⟩ := Option.bind_eq_some_iff.mp hm
    obtain ⟨hpc, hm⟩ := Option.ite_none_right_eq_some.mp hm
    obtain rfl := Option.some_inj.mp hm
    exact h.set hk rfl h.pending rfl rfl afterError_ne (.inl rfl)
  | abort k ok =>
    obtain ⟨r, hk, hm⟩ := Option.bind_eq_some_iff.mp hm
    obtain ⟨hpc, hm⟩ := Option.ite_none_right_eq_some.mp hm
    obtain rfl := Option.some_inj.mp hm
    rw [removeTree_eq]
    exact h.set hk rfl h.pending rfl rfl afterError_ne (.inl rfl)
  | startProcess k =>
    obtain ⟨r, hk, hm⟩ := Option.bind_eq_some_iff.mp hm
    obtain ⟨hpc, hm⟩ := Option.ite_none_right_eq_some.mp hm
    obtain rfl := Option.some_inj.mp hm
    exact h.set hk rfl h.pending rfl rfl (by simp) (.inl rfl)
  | dropPending k =>
    obtain ⟨r, hk, hm⟩ := Option.bind_eq_some_iff.mp hm
    obtain ⟨hpc, hm⟩ := Option.ite_none_right_eq_some.mp hm
    obtain rfl := Option.some_inj.mp hm
    exact h.set hk rfl (lookup_drop_empty h.pending _) rfl rfl (by simp) (.inl rfl)
  | cleanupIsolated k ok =>
    obtain ⟨r, hk, hm⟩ := Option.bind_eq_some_iff.mp hm
    obtain ⟨hpc, hm⟩ := Option.ite_none_right_eq_some.mp hm
    obtain rfl := Option.some_inj.mp hm
    rw [removeTree_eq]
    exact h.set hk rfl h.pending rfl rfl (by simp) (.inl rfl)
  | register k =>
    obtain ⟨r, hk, hm⟩ := Option.bind_eq_some_iff.mp hm
    obtain ⟨⟨hpc, hreg⟩, hm⟩ := Option.ite_none_right_eq_some.mp hm
    obtain rfl := Option.some_inj.mp hm
    have hset : Labelled (s.setRequest k { r with registered := true }) :=
      h.set hk rfl h.pending rfl rfl (by simp [hpc]) (.inl rfl)
    rw [hset.wrapperLoop]
    exact ⟨lookup_drop_empty h.pending _, hset.requests⟩
  | registerOther label =>
    obtain rfl := Option.some_inj.mp hm
    rw [h.wrapperLoop]
    exact ⟨lookup_drop_empty h.pending _, h.requests⟩
  | putChild label id =>
    obtain ⟨hne, hm⟩ := Option.ite_none_left_eq_some.mp hm
    obtain rfl := Option.some_inj.mp hm
    exact ⟨lookup_put_empty hne h.pending _, h.requests⟩
  | dropChild label =>
    obtain rfl := Option.some_inj.mp hm
    exact ⟨lookup_drop_empty h.pending _, h.requests⟩

/-! ### What has been settled -/

structure Settled (s : State) : Prop where
  unmade : ∀ r ∈ s.requests, r.pc = .preparing → r.isolated = none
  running : ∀ r ∈ s.requests, r.registered = true → r.pc = .started
  gone : ∀ r ∈ s.requests, r.pc = .failed → ∀ tree, r.isolated = some tree → tree ∉ s.trees
  handed : ∀ ses ∈ s.sessions, ∀ k, ses.request = some k → ∃ r, s.requests[k]? = some r ∧ r.registered = true
    ∧
    ∀ tree, r.isolated = some tree → ses.normalWorktree = some tree ∧ ses.worktreeCleanup = r.worktreeCleanup

/-- One request goes on that has not been handed over. -/
theorem Settled.set (h : Settled s) (hk : s.requests[k]? = some r)
    (hrequests : t.requests = s.requests.set k r')
    (hsessions : t.sessions = s.sessions) (hr : r.registered = false)
    (hunmade : r'.pc = .preparing → r'.isolated = none) (hrunning : r'.registered = true → r'.pc = .started)
    (hgone : r'.pc = .failed → ∀ tree, r'.isolated = some tree → tree ∉ t.trees)
    (htrees : ∀ q ∈ s.requests, ∀ x, q.isolated = some x → x ∈ t.trees → x ∈ s.trees) : Settled t := by
  have hmem (q : Request) (hq : q ∈ t.requests) : q = r' ∨ q ∈ s.requests := by
    rw [hrequests] at hq
    exact (List.mem_or_eq_of_mem_set hq).symm
  refine ⟨fun q hq => ?_, fun q hq => ?_, fun q hq hpc tree htree => ?_, fun ses hses j hj => ?_⟩
  · rcases hmem q hq with rfl | hq
    · exact hunmade
    · exact h.unmade q hq
  · rcases hmem q hq with rfl | hq
    · exact hrunning
    · exact h.running q hq
  · rcases hmem q hq with rfl | hq
    · exact hgone hpc tree htree
    · exact fun hin => h.gone q hq hpc tree htree (htrees q hq tree htree hin)
  · rw [hsessions] at hses
    obtain ⟨q, hq, hreg, hrest⟩ := h.handed ses hses j hj
    refine ⟨q, ?_, hreg, hrest⟩
    rw [hrequests, getElem?_setRequest hk, if_neg, hq]
    rintro rfl
    obtain rfl := Option.some_inj.mp (hk.symm.trans hq)
    exact absurd (hr.symm.trans hreg) Bool.noConfusion

theorem Settled.handOver (h : Settled s) {request : Option ℕ}
    (hown : ∀ j, request = some j → ∃ r, s.requests[j]? = some r ∧ r.registered = true ∧
      ∀ tree, r.isolated = some tree → s.held label = some (tree, r.worktreeCleanup)) :
    Settled (s.handOver request label) := by
  refine ⟨h.unmade, h.running, h.gone, fun ses hses j hj => ?_⟩
  rcases List.mem_append.mp hses with hses | hses
  · exact h.handed ses hses j hj
  · obtain rfl := List.mem_singleton.mp hses
    obtain ⟨r, hr, hreg, hheld⟩ := hown j hj
    refine ⟨r, hr, hreg, fun tree htree => ?_⟩
    obtain ⟨e, he, hmap⟩ := Option.bind_eq_some_iff.mp (hheld tree htree)
    obtain ⟨tree', htree', heq⟩ := Option.map_eq_some_iff.mp hmap
    obtain ⟨rfl, hcleanup⟩ := Prod.mk.inj heq
    simp only [he, Option.getD_some]
    exact ⟨htree', hcleanup⟩

theorem Settled.not_registered (h : Settled s) (hk : s.requests[k]? = some r) (hpc : r.pc ≠ .started) :
    r.registered = false := by
  by_contra hreg
  exact hpc (h.running r (List.mem_of_getElem? hk) (by simpa using hreg))

theorem Settled.request (h : Settled s) (isolate : Bool) (body prefs : String) (orchestration : Bool) :
    Settled (s.request label isolate body prefs orchestration) := by
  have hmem (q : Request) (hq : q ∈ (s.request label isolate body prefs orchestration).requests) :
      q ∈ s.requests ∨ q.isolated = none ∧ q.registered = false := by
    rcases List.mem_append.mp hq with hq | hq
    · exact .inl hq
    · obtain rfl := List.mem_singleton.mp hq
      exact .inr ⟨rfl, rfl⟩
  refine ⟨fun q hq hpc => ?_, fun q hq hreg => ?_, fun q hq hpc tree htree => ?_, fun ses hses j hj => ?_⟩
  · rcases hmem q hq with hq | ⟨hnone, -⟩
    · exact h.unmade q hq hpc
    · exact hnone
  · rcases hmem q hq with hq | ⟨-, hno⟩
    · exact h.running q hq hreg
    · exact absurd (hno.symm.trans hreg) Bool.noConfusion
  · rcases hmem q hq with hq | ⟨hnone, -⟩
    · exact h.gone q hq hpc tree htree
    · exact absurd (htree.symm.trans hnone) (Option.some_ne_none tree)
  · obtain ⟨q, hq, hrest⟩ := h.handed ses hses j hj
    exact ⟨q, (List.getElem?_append_left (List.getElem?_eq_some_iff.mp hq).1).trans hq, hrest⟩

theorem entry_of_pc (h : r.pc = .preparing ∨ r.pc = .reserving ∨ r.pc = .cleaning ∨ r.pc = .failed) :
    r.entry = none := by
  rcases h with h | h | h | h <;> simp [Request.entry, Request.claims, h]

/-- After an error the entry of a worktree is there still. -/
theorem entry_afterError (h : r.pc = .orchestrating ∨ r.pc = .checking) :
    ({ r with pc := State.afterError r } : Request).entry = r.entry := by
  unfold Request.entry Request.claims State.afterError
  cases hiso : r.isolated with
  | none => rcases h with h | h <;> simp
  | some tree => rcases h with h | h <;> simp [h]

/-- The handler goes on; when it fails, the worktree is gone. -/
theorem Settled.goOn (h : Settled s) (hk : s.requests[k]? = some r) (hstarted : r.pc ≠ .started) {pc : Pc}
    (hrequests : t.requests = s.requests.set k { r with pc }) (hsessions : t.sessions = s.sessions)
    (hpc : pc ≠ .preparing) (hgone : pc = .failed → ∀ tree, r.isolated = some tree → tree ∉ t.trees)
    (htrees : ∀ x ∈ t.trees, x ∈ s.trees) : Settled t := by
  have hreg := h.not_registered hk hstarted
  exact h.set hk hrequests hsessions hreg (fun hp => absurd hp hpc)
    (fun hyes => absurd (hreg.symm.trans hyes) Bool.noConfusion) hgone fun _ _ x _ hx => htrees x hx

theorem inv_of_move (hl : Labelled s) (h : Agrees s ∧ Settled s) (hok : undisturbed s a = true)
    (hm : move s a = some t) :
    Agrees t ∧ Settled t := by
  obtain ⟨hagrees, hsettled⟩ := h
  cases a with
  | request label isolate body prefs orchestration =>
    obtain ⟨-, hm⟩ := Option.ite_none_left_eq_some.mp hm
    obtain rfl := Option.some_inj.mp hm
    exact ⟨hagrees.push rfl rfl rfl rfl, hsettled.request isolate body prefs orchestration⟩
  | prepareNormalWorktree k result =>
    obtain ⟨r, hk, hm⟩ := Option.bind_eq_some_iff.mp hm
    obtain ⟨hpc, hm⟩ := Option.ite_none_right_eq_some.mp hm
    have hnone := hsettled.unmade r (List.mem_of_getElem? hk) hpc
    have hreg := hsettled.not_registered hk (by rw [hpc]; decide)
    cases result with
    | none =>
      obtain rfl := Option.some_inj.mp hm
      exact ⟨hagrees.goOn hk rfl rfl rfl (by simp [Request.entry, hnone]) fun _ => rfl,
        hsettled.goOn hk (by rw [hpc]; decide) rfl rfl (by decide) (by simp [hnone]) fun _ hx => hx⟩
    | some tree =>
      obtain ⟨hfresh, hm⟩ := Option.ite_none_left_eq_some.mp hm
      obtain rfl := Option.some_inj.mp hm
      refine ⟨hagrees.make hk (entry_of_pc (.inl hpc)) hfresh rfl rfl rfl (entry_of_pc (.inr (.inl rfl))) rfl,
        hsettled.set hk rfl rfl hreg (by simp) (by simp [hreg]) (by simp) fun q hq x hx hin => ?_⟩
      refine (List.mem_cons.mp hin).resolve_left ?_
      rintro rfl
      exact hfresh (hagrees.created q hq x hx)
  | reserveWorktree k =>
    obtain ⟨r, hk, hm⟩ := Option.bind_eq_some_iff.mp hm
    unfold State.reserveWorktree at hm
    split at hm
    · next tree hpc hiso =>
      obtain rfl := Option.some_inj.mp hm
      have htree : s.held r.label = none := held_eq_none.mpr (by simpa [undisturbed, hk] using hok)
      refine ⟨hagrees.set hk rfl rfl rfl fun label x cleanup => ?_,
        hsettled.goOn hk (by rw [hpc]; decide) rfl rfl (by decide) (fun hp => absurd hp (by decide)) fun _ hx
          => hx⟩
      rw [held_put]
      split_ifs with hlabel
      · subst hlabel
        refine ⟨fun heq => .inl ?_, fun hor => ?_⟩
        · obtain ⟨rfl, rfl⟩ := Prod.mk.inj (Option.some_inj.mp heq)
          exact Request.entry_eq_some.mpr ⟨rfl, hiso, rfl, rfl⟩
        · rcases hor with hentry | ⟨j, q, -, hq, hentry⟩
          · obtain ⟨-, hx, -, rfl⟩ := Request.entry_eq_some.mp hentry
            rw [Option.some_inj.mp (hx.symm.trans hiso)]
            rfl
          · have hheld := (hagrees.held r.label x cleanup).mpr ⟨j, q, hq, hentry⟩
            exact absurd (hheld.symm.trans htree) (Option.some_ne_none _)
      · refine (hagrees.others hk).trans (or_congr_left ⟨fun hentry => ?_, fun hentry => ?_⟩)
        · exact absurd (hentry.symm.trans (entry_of_pc (.inr (.inl hpc)))) (Option.some_ne_none _)
        · exact absurd (Request.entry_eq_some.mp hentry).2.2.1.symm hlabel
    · cases hm
  | reserveOrchestrationConductor k id =>
    obtain ⟨r, hk, hm⟩ := Option.bind_eq_some_iff.mp hm
    obtain ⟨hpc, hm⟩ := Option.ite_none_right_eq_some.mp hm
    have hentry : ({ r with pc := .checking } : Request).entry = r.entry := by
      simp [Request.entry, Request.claims, hpc]
    have hgoOn {t : State} (hrequests : t.requests = s.requests.set k { r with pc := .checking })
        (hsessions : t.sessions = s.sessions) (htrees : t.trees = s.trees) : Settled t :=
      hsettled.goOn hk (by rw [hpc]; decide) hrequests hsessions (by decide) (fun hp => absurd hp (by decide))
        fun _ hx => htrees ▸ hx
    split_ifs at hm with horch
    · obtain rfl := Option.some_inj.mp hm
      have htree : s.tree r.label = none := by simpa [undisturbed, hk, horch] using hok
      exact ⟨hagrees.goOn hk rfl rfl rfl hentry fun _ => held_put_of_none (s := s.setRequest k _) htree rfl,
        hgoOn rfl rfl rfl⟩
    · obtain rfl := Option.some_inj.mp hm
      exact ⟨hagrees.goOn hk rfl rfl rfl hentry fun _ => rfl, hgoOn rfl rfl rfl⟩
  | refuse k =>
    obtain ⟨r, hk, hm⟩ := Option.bind_eq_some_iff.mp hm
    obtain ⟨hpc, hm⟩ := Option.ite_none_right_eq_some.mp hm
    obtain rfl := Option.some_inj.mp hm
    have hpc' : r.pc = .orchestrating ∨ r.pc = .checking := hpc.imp_left And.left
    exact ⟨hagrees.goOn hk rfl rfl rfl (entry_afterError hpc') fun _ => rfl,
      hsettled.goOn hk (by rcases hpc' with hpc | hpc <;> rw [hpc] <;> decide) rfl rfl afterError_ne
        (fun hp => by simp [afterError_gone hp]) fun _ hx => hx⟩
  | abort k ok =>
    obtain ⟨r, hk, hm⟩ := Option.bind_eq_some_iff.mp hm
    obtain ⟨hpc, hm⟩ := Option.ite_none_right_eq_some.mp hm
    obtain rfl := Option.some_inj.mp hm
    rw [removeTree_eq]
    exact ⟨hagrees.goOn hk rfl rfl rfl (entry_afterError (.inr hpc)) fun _ => rfl,
      hsettled.goOn hk (by rw [hpc]; decide) rfl rfl afterError_ne (fun hp => by simp [afterError_gone hp])
        fun _ hx => (mem_removeTree hx).1⟩
  | startProcess k =>
    obtain ⟨r, hk, hm⟩ := Option.bind_eq_some_iff.mp hm
    obtain ⟨hpc, hm⟩ := Option.ite_none_right_eq_some.mp hm
    obtain rfl := Option.some_inj.mp hm
    have hreg := hsettled.not_registered hk (by rw [hpc]; decide)
    exact ⟨hagrees.goOn hk rfl rfl rfl (by simp [Request.entry, Request.claims, hpc, hreg]) fun _ => rfl,
      hsettled.goOn hk (by rw [hpc]; decide) rfl rfl (by decide) (fun hp => absurd hp (by decide)) fun _ hx
        => hx⟩
  | dropPending k =>
    obtain ⟨r, hk, hm⟩ := Option.bind_eq_some_iff.mp hm
    obtain ⟨hpc, hm⟩ := Option.ite_none_right_eq_some.mp hm
    obtain rfl := Option.some_inj.mp hm
    have hown : ∀ tree, s.tree r.label = some tree → r.isolated = some tree := by
      intro tree htree
      simpa [undisturbed, hk, htree] using hok
    exact ⟨hagrees.take hk rfl rfl rfl (entry_of_pc (.inr (.inr (.inl rfl)))) (fun _ => rfl) hown,
      hsettled.goOn hk (by rw [hpc]; decide) rfl rfl (by decide) (fun hp => absurd hp (by decide)) fun _ hx
        => hx⟩
  | cleanupIsolated k ok =>
    obtain ⟨r, hk, hm⟩ := Option.bind_eq_some_iff.mp hm
    obtain ⟨hpc, hm⟩ := Option.ite_none_right_eq_some.mp hm
    obtain rfl := Option.some_inj.mp hm
    have hentry : ({ r with pc := .failed } : Request).entry = r.entry :=
      (entry_of_pc (.inr (.inr (.inr rfl)))).trans (entry_of_pc (.inr (.inr (.inl hpc)))).symm
    rw [removeTree_eq]
    refine ⟨hagrees.goOn hk rfl rfl rfl hentry fun _ => rfl,
      hsettled.goOn hk (by rw [hpc]; decide) rfl rfl (by decide) (fun _ tree htree hin => ?_)
        fun _ hx => (mem_removeTree hx).1⟩
    obtain ⟨hold, hne⟩ := mem_removeTree hin
    cases ok with
    | true => exact hne rfl htree.symm
    | false =>
      have hgone : tree ∉ s.trees := by simpa [undisturbed, hk, htree] using hok
      exact hgone hold
  | register k =>
    obtain ⟨r, hk, hm⟩ := Option.bind_eq_some_iff.mp hm
    obtain ⟨⟨hpc, hreg⟩, hm⟩ := Option.ite_none_right_eq_some.mp hm
    obtain rfl := Option.some_inj.mp hm
    have hown : ∀ tree, s.tree r.label = some tree → r.isolated = some tree := by
      intro tree htree
      simpa [undisturbed, hk, htree] using hok
    have hset : Settled (s.setRequest k { r with registered := true }) :=
      hsettled.set hk rfl rfl hreg (fun hp => absurd (hpc.symm.trans hp) (by decide)) (fun _ => hpc)
        (fun hp => absurd (hpc.symm.trans hp) (by decide)) fun _ _ _ _ hx => hx
    have hl' : Labelled (s.setRequest k { r with registered := true }) :=
      hl.set hk rfl hl.pending rfl rfl (by simp [hpc]) (.inl rfl)
    rw [hl'.wrapperLoop]
    refine ⟨hagrees.take hk rfl rfl rfl (by simp [Request.entry, Request.claims, hpc]) (fun _ => rfl) hown,
      hset.handOver fun j hj => ?_⟩
    obtain rfl := Option.some_inj.mp hj
    refine ⟨_, (getElem?_setRequest hk k).trans (if_pos rfl), rfl, fun tree htree => ?_⟩
    exact (hagrees.held _ _ _).mpr ⟨k, r, hk, Request.entry_eq_some.mpr
      ⟨by simp [Request.claims, hpc, hreg], htree, rfl, rfl⟩⟩
  | registerOther label =>
    obtain rfl := Option.some_inj.mp hm
    have htree : s.tree label = none := by simpa [undisturbed] using hok
    rw [hl.wrapperLoop]
    exact ⟨hagrees.congr rfl rfl fun _ => held_drop_of_none htree, hsettled.handOver nofun⟩
  | putChild label id =>
    obtain ⟨-, hm⟩ := Option.ite_none_left_eq_some.mp hm
    obtain rfl := Option.some_inj.mp hm
    have htree : s.tree label = none := by simpa [undisturbed] using hok
    exact ⟨hagrees.congr rfl rfl fun _ => held_put_of_none htree rfl,
      ⟨hsettled.unmade, hsettled.running, hsettled.gone, hsettled.handed⟩⟩
  | dropChild label =>
    obtain rfl := Option.some_inj.mp hm
    have htree : s.tree label = none := by simpa [undisturbed] using hok
    exact ⟨hagrees.congr rfl rfl fun _ => held_drop_of_none htree,
      ⟨hsettled.unmade, hsettled.running, hsettled.gone, hsettled.handed⟩⟩

/-! ### Runs -/

theorem inv_initial (trees : List NormalWorktree) : Agrees (State.initial trees) ∧ Settled
    (State.initial trees) := by
  refine ⟨⟨fun label tree cleanup => iff_of_false (fun h => ?_) fun ⟨j, r, hr, _⟩ => ?_, fun i j r r' tree hr
    => ?_,
    fun r hr => absurd hr List.not_mem_nil⟩, fun r hr => absurd hr List.not_mem_nil,
    fun r hr => absurd hr List.not_mem_nil, fun r hr => absurd hr List.not_mem_nil,
    fun ses hses => absurd hses List.not_mem_nil⟩
  · exact absurd h.symm (Option.some_ne_none _)
  · exact absurd hr.symm (Option.some_ne_none r)
  · exact absurd hr.symm (Option.some_ne_none r)

/-- In every run in which only the request, its wrapper or its deferred function touches the
entry of a worktree, the worktree of a request that failed is gone with its entry, and the
session of a request has its worktree and policy. -/
theorem handedOver_of_undisturbed (trees : List NormalWorktree) (as : List Action) (s : State)
    (es : List Empty)
    (hx : exec step (State.initial trees) as = some (s, es))
    (hm : Meets step (fun s a => undisturbed s a = true) (State.initial trees) as) : CleanedUp s ∧ HandedOver
      s := by
  obtain ⟨-, hagrees, hsettled⟩ : Labelled s ∧ Agrees s ∧ Settled s := by
    refine exec_state_invariant (I := fun s => Labelled s ∧ Agrees s ∧ Settled s)
      (fun u a t es h hok hs => ?_)
      ⟨⟨rfl, fun r hr => absurd hr List.not_mem_nil⟩, inv_initial trees⟩ hm hx
    obtain ⟨v, hv, he⟩ := Option.map_eq_some_iff.mp hs
    obtain ⟨rfl, -⟩ := Prod.mk.inj he
    exact ⟨labelled_of_move h.1 hv, inv_of_move h.1 h.2 hok hv⟩
  refine ⟨fun r hr hpc tree htree => ⟨hsettled.gone r hr hpc tree htree, fun label e he hetree => ?_⟩,
    fun ses hses k hk => ?_⟩
  · have hheld : s.held label = some (tree, e.worktreeCleanup) := by simp [State.held, he, hetree]
    obtain ⟨j, q, hq, hentry⟩ := (hagrees.held label tree e.worktreeCleanup).mp hheld
    obtain ⟨i, hi⟩ := List.mem_iff_getElem?.mp hr
    obtain ⟨hclaims, hqtree, -⟩ := Request.entry_eq_some.mp hentry
    obtain rfl := hagrees.distinct i j r q tree hi hq htree hqtree
    obtain rfl := Option.some_inj.mp (hi.symm.trans hq)
    simp [Request.claims, hpc] at hclaims
  · obtain ⟨r, hr, -, hrest⟩ := hsettled.handed ses hses k hk
    exact ⟨r, hr, hrest⟩

/-- One request whose process does not start, and one under the same label that is handed
over. -/
def failAndRetry : List Action :=
  [.request "fix" true "" "keep" false, .prepareNormalWorktree 0
    (some ⟨"/r/.git-worktrees/fix-1", "/r", "many-ai/fix-1"⟩),
    .reserveWorktree 0, .reserveOrchestrationConductor 0 "", .abort 0 true, .dropPending 0, .cleanupIsolated
      0 false,
    .request "fix" true "delete" "keep" false,
    .prepareNormalWorktree 1 (some ⟨"/r/.git-worktrees/fix-2", "/r", "many-ai/fix-2"⟩), .reserveWorktree 1,
    .reserveOrchestrationConductor 1 "", .startProcess 1, .register 1]

theorem failAndRetry_settled : ∃ s, exec step (State.initial []) failAndRetry = some (s, []) ∧
    s.sessions.length = 1 ∧ CleanedUp s ∧ HandedOver s := by
  refine ⟨_, rfl, rfl, ?_⟩
  exact handedOver_of_undisturbed [] failAndRetry _ [] rfl (by decide)

/-- The orchestration of the same request takes the place of its worktree. -/
def orchestrated : List Action :=
  [.request "fix" true "" "delete" true, .prepareNormalWorktree 0
    (some ⟨"/r/.git-worktrees/fix-1", "/r", "many-ai/fix-1"⟩),
    .reserveWorktree 0, .reserveOrchestrationConductor 0 "o1", .startProcess 0, .register 0]

theorem orchestrated_loses_worktree : ¬ ∀ (trees : List NormalWorktree) (as : List Action) (s : State)
    (es : List Empty),
    exec step (State.initial trees) as = some (s, es) → CleanedUp s ∧ HandedOver s := by
  intro h
  have hover := (h [] orchestrated _ [] rfl).2 ⟨some 0, "o1", "", none, ""⟩
    (List.mem_of_getElem? (i := 0) rfl) 0 rfl
  obtain ⟨r, hr, hrest⟩ := hover
  obtain rfl := Option.some_inj.mp hr
  exact absurd (hrest _ rfl).1.symm (Option.some_ne_none _)

end ManyAiCli.Hub.SpawnWorktree
