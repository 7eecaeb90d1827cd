import Mathlib.Data.List.GetD
import Mathlib.Data.List.Nodup
import Mathlib.Logic.Function.Basic
import Mathlib.Order.Nat
import Mathlib.Tactic.Common

/-! The graph beside a list of commits: each row draws a lane for every edge that is on its way
from a commit to a parent further down. Is every parent edge drawn connected? -/

namespace ManyAiCli.Web.CommitGraph

variable {α : Type*}

structure Commit (α : Type*) where
  hash : α
  parents : List α
  deriving DecidableEq

/-- What a lane waits for. -/
inductive Slot (α : Type*)
  | free
  | pending
  | waits (hash : α)
  deriving DecidableEq

inductive LaneType
  | dot
  | merge
  | line
  deriving DecidableEq

structure InLane where
  x : ℕ
  color : String
  deriving DecidableEq

structure Lane where
  x : ℕ
  type : LaneType
  color : String
  inFrom : Option (List InLane) := none
  deriving DecidableEq

structure Row where
  hashLane : ℕ
  lanes : List Lane
  deriving DecidableEq

/-! ### Lanes -/

structure State (α : Type*) where
  activeLanes : List (Slot α) := []
  laneColors : List String := []

def laneColorNames : List String := ["lane-1", "lane-2", "lane-3", "lane-4"]

/-- `_laneColor`. -/
def laneColor (index : ℕ) : String := laneColorNames.getD (index % 4) ""

namespace State

variable (st : State α)

/-- `laneColors[i] || _laneColor(i)`. -/
def colorOf (i : ℕ) : String :=
  let color := st.laneColors.getD i ""
  if color = "" then laneColor i else color

variable [DecidableEq α]

/-- `allocLane`, of which no caller says a color. -/
def allocLane : State α × ℕ :=
  match st.activeLanes.findIdx? (· = .free) with
  | some i => (⟨st.activeLanes.set i .pending, st.laneColors.set i (st.colorOf i)⟩, i)
  | none =>
    let i := st.activeLanes.length
    (⟨st.activeLanes ++ [.pending], st.laneColors ++ [laneColor i]⟩, i)

/-- The lanes that wait for a commit. -/
def waiting (hash : α) : List ℕ :=
  (List.range st.activeLanes.length).filter fun i => st.activeLanes[i]? = some (.waits hash)

def setLane (i : ℕ) (slot : Slot α) : State α := { st with activeLanes := st.activeLanes.set i slot }

/-- The lane of a commit, and the other lanes that waited for it, which become free. -/
def takeLane (hash : α) : State α × ℕ × List InLane :=
  match st.waiting hash with
  | [] => (st.allocLane.1, st.allocLane.2, [])
  | myLane :: others =>
    (others.foldl (fun st i => st.setLane i .free) st, myLane, others.map fun i => ⟨i, st.colorOf i⟩)

/-- The lanes as the row draws them. -/
def drawLanes (myLane : ℕ) (isMerge : Bool) (incoming : List InLane) : List Lane :=
  (List.range st.activeLanes.length).filterMap fun i =>
    if i = myLane then
      some ⟨i, if isMerge then .merge else .dot, st.colorOf i, if isMerge then some incoming else none⟩
    else
      match st.activeLanes[i]? with
      | some (.waits _) => some ⟨i, .line, st.colorOf i, none⟩
      | _ => none

/-- A lane for one more parent. -/
def addParent (p : α) : State α × InLane :=
  let (alloc, ln) := st.allocLane
  (⟨alloc.activeLanes.set ln (.waits p), alloc.laneColors.set ln (laneColor ln)⟩, ⟨ln, laneColor ln⟩)

/-- The lanes of the parents after the first one. -/
def addParents : State α → List α → State α × List InLane
  | st, [] => (st, [])
  | st, p :: parents =>
    let (last, extra) := addParents (st.addParent p).1 parents
    (last, (st.addParent p).2 :: extra)

end State

/-- `drawLanes.find(l => l.x === myLane)`, of which the incoming lanes become more. -/
def addIncoming (myLane : ℕ) (extra : List InLane) : List Lane → List Lane
  | [] => []
  | l :: lanes =>
    if l.x = myLane then { l with inFrom := some (l.inFrom.getD [] ++ extra) } :: lanes
    else l :: addIncoming myLane extra lanes

variable [DecidableEq α]

/-- One turn of the loop over the commits. -/
def turn (st : State α) (c : Commit α) : State α × Row :=
  let (st, myLane, incoming) := st.takeLane c.hash
  let isMerge := decide (2 ≤ c.parents.length)
  let draw := st.drawLanes myLane isMerge incoming
  match c.parents with
  | [] => (st.setLane myLane .free, ⟨myLane, draw⟩)
  | p :: parents =>
    let baseColor := st.colorOf myLane
    let (st, extra) := (st.setLane myLane (.waits p)).addParents parents
    let draw := draw ++ extra.map fun l => ⟨l.x, .line, l.color, none⟩
    if isMerge then
      (⟨st.activeLanes, if st.laneColors[myLane]? = none then st.laneColors.set myLane baseColor
        else st.laneColors⟩,
        ⟨myLane, addIncoming myLane extra draw⟩)
    else (st, ⟨myLane, draw⟩)

/-- `computeGraph`, from a state on. -/
def graphFrom : State α → List (Commit α) → List Row
  | _, [] => []
  | st, c :: commits => (turn st c).2 :: graphFrom (turn st c).1 commits

def computeGraph (commits : List (Commit α)) : List Row := graphFrom {} commits

/-! ### What one turn does to the lanes -/

namespace State

/-- What a lane holds, and `free` where there is no lane yet. -/
def slot (st : State α) (x : ℕ) : Slot α := st.activeLanes.getD x .free

omit [DecidableEq α] in
theorem slot_eq_of_ne_free {st : State α} {x : ℕ} {s : Slot α} (hs : s ≠ .free) (h : st.slot x = s) :
    st.activeLanes[x]? = some s := by
  rw [slot, List.getD_eq_getElem?_getD] at h
  cases hx : st.activeLanes[x]? with
  | none => simp [hx, eq_comm, hs] at h
  | some t => simpa [hx] using h

omit [DecidableEq α] in
theorem lt_of_ne_free {st : State α} {x : ℕ} (h : st.slot x ≠ .free) : x < st.activeLanes.length := by
  obtain ⟨hx, -⟩ := List.getElem?_eq_some_iff.1 (slot_eq_of_ne_free h rfl)
  exact hx

omit [DecidableEq α] in
theorem slot_of_set {st : State α} {lanes : List (Slot α)} {colors : List String} {i : ℕ} {s : Slot α}
    (h : lanes = st.activeLanes.set i s) (hi : i < st.activeLanes.length) :
    (⟨lanes, colors⟩ : State α).slot = Function.update st.slot i s := by
  funext x
  subst h
  rw [slot, List.getD_eq_getElem?_getD, List.getElem?_set, Function.update_apply]
  by_cases hx : x = i
  · subst hx
    simp [hi]
  · simp [hx, Ne.symm hx, slot]

omit [DecidableEq α] in
theorem slot_setLane {st : State α} {i : ℕ} {s : Slot α} (hi : i < st.activeLanes.length) :
    (st.setLane i s).slot = Function.update st.slot i s := slot_of_set rfl hi

omit [DecidableEq α] in
theorem length_setLane (st : State α) (i : ℕ) (s : Slot α) :
    (st.setLane i s).activeLanes.length = st.activeLanes.length := List.length_set

theorem slot_allocLane (st : State α) :
    st.slot st.allocLane.2 = .free ∧ st.allocLane.2 < st.allocLane.1.activeLanes.length ∧
      st.allocLane.1.slot = Function.update st.slot st.allocLane.2 .pending := by
  rw [allocLane]
  split
  next i hi =>
    obtain ⟨hlt, hFree, -⟩ := List.findIdx?_eq_some_iff_getElem.1 hi
    refine ⟨?_, by simpa using hlt, slot_of_set rfl hlt⟩
    rw [slot, List.getD_eq_getElem _ _ hlt]
    simpa using hFree
  next =>
    refine ⟨by simp [slot], by simp, ?_⟩
    funext x
    rw [slot, List.getD_eq_getElem?_getD, List.getElem?_append, Function.update_apply, slot,
      List.getD_eq_getElem?_getD]
    by_cases hx : x = st.activeLanes.length
    · simp [hx]
    rw [if_neg hx]
    split_ifs with hlt
    · rfl
    · have hBeyond : [Slot.pending (α := α)].length ≤ x - st.activeLanes.length := by
        rw [List.length_singleton]
        omega
      rw [List.getElem?_eq_none hBeyond, List.getElem?_eq_none (Nat.not_lt.1 hlt)]

theorem mem_waiting {st : State α} {hash : α} {x : ℕ} : x ∈ st.waiting hash ↔ st.slot x = .waits hash := by
  have hne : Slot.waits hash ≠ .free := by simp
  rw [waiting, List.mem_filter, List.mem_range, decide_eq_true_eq]
  constructor
  · rintro ⟨-, hx⟩
    rw [slot, List.getD_eq_getElem?_getD, hx, Option.getD_some]
  · intro hx
    exact ⟨lt_of_ne_free (hx ▸ hne), slot_eq_of_ne_free hne hx⟩

theorem nodup_waiting (st : State α) (hash : α) : (st.waiting hash).Nodup := List.nodup_range.filter _

omit [DecidableEq α] in
theorem slot_foldl_setLane (st : State α) (others : List ℕ) (h : ∀ i ∈ others, i < st.activeLanes.length)
    (x : ℕ) :
    (others.foldl (fun st i => st.setLane i .free) st).slot x = if x ∈ others then .free else st.slot x := by
  induction others generalizing st with
  | nil => rfl
  | cons i others ih =>
    have hRest : ∀ j ∈ others, j < (st.setLane i .free).activeLanes.length := fun j hj => by
      rw [length_setLane]
      exact h j (List.mem_cons_of_mem _ hj)
    rw [List.foldl_cons, ih _ hRest, slot_setLane (h i List.mem_cons_self), Function.update_apply]
    by_cases hx : x = i <;> simp [hx]

omit [DecidableEq α] in
theorem length_foldl_setLane (st : State α) (others : List ℕ) :
    (others.foldl (fun st i => st.setLane i .free) st).activeLanes.length = st.activeLanes.length := by
  induction others generalizing st with
  | nil => rfl
  | cons i others ih => rw [List.foldl_cons, ih, length_setLane]

/-- The lane of a commit is one that waited for it, where there is one, else a free one; the other
ones that waited are free after that. -/
structure Taken (st : State α) (hash : α) (taken : State α) (myLane : ℕ) (incoming : List InLane) : Prop where
  lt : myLane < taken.activeLanes.length
  own : st.slot myLane = .waits hash ∨ st.slot myLane = .free ∧ ∀ x, st.slot x ≠ .waits hash
  others : ∀ x, x ≠ myLane → taken.slot x = if st.slot x = .waits hash then .free else st.slot x
  incoming : ∀ x, st.slot x = .waits hash → x = myLane ∨ x ∈ incoming.map InLane.x

theorem taken_takeLane (st : State α) (hash : α) :
    Taken st hash (st.takeLane hash).1 (st.takeLane hash).2.1 (st.takeLane hash).2.2 := by
  rw [takeLane]
  cases hWaiting : st.waiting hash with
  | nil =>
    obtain ⟨hFree, hlt, hSlot⟩ := slot_allocLane st
    have hNo : ∀ x, st.slot x ≠ .waits hash := fun x hx => by simpa [hWaiting] using mem_waiting.2 hx
    refine ⟨hlt, .inr ⟨hFree, hNo⟩, fun x hx => ?_, fun x hx => absurd hx (hNo x)⟩
    rw [hSlot, Function.update_of_ne hx, if_neg (hNo x)]
  | cons myLane others =>
    have hMem : ∀ x, st.slot x = .waits hash ↔ x = myLane ∨ x ∈ others := fun x => by
      rw [← mem_waiting, hWaiting, List.mem_cons]
    have hlt : ∀ x, st.slot x = .waits hash → x < st.activeLanes.length := fun x hx =>
      lt_of_ne_free (by simp [hx])
    have hOthers : ∀ i ∈ others, i < st.activeLanes.length := fun i hi => hlt i ((hMem i).2 (.inr hi))
    refine ⟨?_, .inl ((hMem myLane).2 (.inl rfl)), fun x hx => ?_, fun x hx => ?_⟩
    · rw [length_foldl_setLane]
      exact hlt myLane ((hMem myLane).2 (.inl rfl))
    · rw [slot_foldl_setLane st others hOthers]
      dsimp only at hx
      simp [hMem, hx]
    · simpa using (hMem x).1 hx

/-- The lanes of the parents were free, are different ones, and wait for them; no other one changes. -/
structure Added (st : State α) (parents : List α) (last : State α) (extra : List ℕ) : Prop where
  length : extra.length = parents.length
  nodup : extra.Nodup
  free : ∀ x ∈ extra, st.slot x = .free
  others : ∀ x, x ∉ extra → last.slot x = st.slot x
  waits : ∀ (k : ℕ) p, parents[k]? = some p → ∃ x : ℕ, extra[k]? = some x ∧ last.slot x = .waits p

theorem slot_addParent (st : State α) (p : α) :
    st.slot (st.addParent p).2.x = .free ∧
    (st.addParent p).1.slot = Function.update st.slot (st.addParent p).2.x (.waits p) := by
  obtain ⟨hFree, hlt, hAlloc⟩ := slot_allocLane st
  refine ⟨hFree, ?_⟩
  rw [addParent, slot_of_set rfl hlt, hAlloc, Function.update_idem]

theorem added_addParents (st : State α) (parents : List α) :
    Added st parents (st.addParents parents).1 ((st.addParents parents).2.map InLane.x) := by
  induction parents generalizing st with
  | nil => exact ⟨rfl, .nil, by simp [addParents], fun x _ => rfl, by simp⟩
  | cons p parents ih =>
    obtain ⟨hFree, hSlot⟩ := slot_addParent st p
    have hRest := ih (st.addParent p).1
    have hNot : (st.addParent p).2.x ∉ ((st.addParent p).1.addParents parents).2.map InLane.x := fun hMem => by
      have := hRest.free _ hMem
      rw [hSlot, Function.update_self] at this
      cases this
    refine ⟨congrArg (· + 1) hRest.length, List.nodup_cons.2 ⟨hNot, hRest.nodup⟩, ?_, ?_, ?_⟩
    · intro x hx
      obtain rfl | hMem := List.mem_cons.1 hx
      · exact hFree
      · have := hRest.free x hMem
        have hne : x ≠ (st.addParent p).2.x := fun h => hNot (h ▸ hMem)
        rwa [hSlot, Function.update_of_ne hne] at this
    · intro x hx
      have hne : x ≠ (st.addParent p).2.x := fun h => hx (h ▸ List.mem_cons_self)
      rw [addParents, hRest.others x fun hMem =>
        hx (List.mem_cons_of_mem _ hMem), hSlot, Function.update_of_ne hne]
    · intro k q hq
      cases k with
      | zero =>
        obtain rfl := Option.some.inj hq
        refine ⟨_, rfl, ?_⟩
        rw [addParents, hRest.others _ hNot, hSlot, Function.update_self]
      | succ k => exact hRest.waits k q hq

end State

/-! ### What one turn does -/

/-- The lanes of a commit's parents: its own, and those the turn allocates. -/
def parentLanes (st : State α) (c : Commit α) : List ℕ :=
  let (st, myLane, _) := st.takeLane c.hash
  match c.parents with
  | [] => []
  | p :: parents => myLane :: ((st.setLane myLane (.waits p)).addParents parents).2.map InLane.x

/-- A turn on the lanes: those that wait for the commit wait no more, and its parents' lanes, which
waited for nothing else, wait for them. -/
structure Turned (st : State α) (c : Commit α) (next : State α) (lanes : List ℕ) : Prop where
  length : lanes.length = c.parents.length
  nodup : lanes.Nodup
  before : ∀ x ∈ lanes, st.slot x = .waits c.hash ∨ st.slot x = .free
  others : ∀ x, x ∉ lanes → next.slot x = if st.slot x = .waits c.hash then .free else st.slot x
  waits : ∀ (k : ℕ) p, c.parents[k]? = some p → ∃ x : ℕ, lanes[k]? = some x ∧ next.slot x = .waits p

theorem slot_turn (st : State α) (c : Commit α) :
    (turn st c).1.slot = match c.parents with
      | [] => ((st.takeLane c.hash).1.setLane (st.takeLane c.hash).2.1 .free).slot
      | p :: parents =>
        (((st.takeLane c.hash).1.setLane (st.takeLane c.hash).2.1 (.waits p)).addParents parents).1.slot := by
  rw [turn]
  dsimp only
  split
  · rfl
  · split_ifs <;> rfl

theorem turned_turn (st : State α) (c : Commit α) : Turned st c (turn st c).1 (parentLanes st c) := by
  have hTaken := State.taken_takeLane st c.hash
  have hSlot := slot_turn st c
  unfold parentLanes
  dsimp only
  generalize (st.takeLane c.hash).1 = taken at hTaken hSlot ⊢
  generalize (st.takeLane c.hash).2.1 = myLane at hTaken hSlot ⊢
  have hOwn : st.slot myLane = .waits c.hash ∨ st.slot myLane = .free := hTaken.own.imp_right And.left
  cases hParents : c.parents with
  | nil =>
    rw [hParents] at hSlot
    dsimp only at hSlot ⊢
    refine ⟨congrArg List.length hParents.symm, .nil, fun _ h => absurd h List.not_mem_nil, fun x _ => ?_,
      fun k p h => by simp [hParents] at h⟩
    rw [hSlot, State.slot_setLane hTaken.lt]
    by_cases hx : x = myLane
    · subst hx
      obtain h | h := hOwn <;> simp [h]
    · rw [Function.update_of_ne hx, hTaken.others x hx]
  | cons p parents =>
    rw [hParents] at hSlot
    dsimp only at hSlot ⊢
    have hAdded := State.added_addParents (taken.setLane myLane (.waits p)) parents
    have hSet : (taken.setLane myLane (.waits p)).slot = Function.update taken.slot myLane (.waits p) :=
      State.slot_setLane hTaken.lt
    generalize ((taken.setLane myLane (.waits p)).addParents parents).2.map InLane.x = extra at hAdded ⊢
    have hNot : myLane ∉ extra := fun h => by
      have := hAdded.free _ h
      rw [hSet, Function.update_self] at this
      cases this
    refine ⟨?_, List.nodup_cons.2 ⟨hNot, hAdded.nodup⟩, ?_, ?_, ?_⟩
    · rw [List.length_cons, hAdded.length, hParents, List.length_cons]
    · intro x hx
      obtain rfl | hx := List.mem_cons.1 hx
      · exact hOwn
      · have hFree := hAdded.free x hx
        have hne : x ≠ myLane := fun h => hNot (h ▸ hx)
        rw [hSet, Function.update_of_ne hne, hTaken.others x hne] at hFree
        split_ifs at hFree with hWaits
        · exact .inl hWaits
        · exact .inr hFree
    · intro x hx
      have hne : x ≠ myLane := fun h => hx (h ▸ List.mem_cons_self)
      have hExtra : x ∉ extra := fun h => hx (List.mem_cons_of_mem _ h)
      rw [hSlot]
      rw [hAdded.others x hExtra, hSet, Function.update_of_ne hne, hTaken.others x hne]
    · intro k q hq
      rw [hParents] at hq
      rw [hSlot]
      cases k with
      | zero =>
        obtain rfl := Option.some.inj hq
        exact ⟨myLane, rfl, by rw [hAdded.others _ hNot, hSet, Function.update_self]⟩
      | succ k => exact hAdded.waits k q hq

/-! ### What one turn draws -/

/-- A line at a lane. -/
def Row.DrawsLine (row : Row) (x : ℕ) : Prop := ∃ l ∈ row.lanes, l.x = x ∧ l.type = .line

/-- A lane that comes in at the row's dot. -/
def Row.ComesIn (row : Row) (x : ℕ) : Prop :=
  ∃ l ∈ row.lanes, l.x = row.hashLane ∧ ∃ arm ∈ l.inFrom.getD [], arm.x = x

/-- The lanes of a row before its parents' lanes are allocated. -/
def snapshot (st : State α) (c : Commit α) : List Lane :=
  (st.takeLane c.hash).1.drawLanes (st.takeLane c.hash).2.1 (decide (2 ≤ c.parents.length))
    (st.takeLane c.hash).2.2

theorem row_turn (st : State α) (c : Commit α) : ∃ extra : List InLane,
    (c.parents ≠ [] → parentLanes st c = (st.takeLane c.hash).2.1 :: extra.map InLane.x) ∧
    (turn st c).2 =
      { hashLane := (st.takeLane c.hash).2.1
        lanes :=
          if 2 ≤ c.parents.length then
            addIncoming (st.takeLane c.hash).2.1 extra
              (snapshot st c ++ extra.map fun l => ⟨l.x, .line, l.color, none⟩)
          else snapshot st c } := by
  unfold turn parentLanes snapshot
  dsimp only
  cases hParents : c.parents with
  | nil => exact ⟨[], fun h => absurd rfl h, by simp⟩
  | cons p parents =>
    refine ⟨_, fun _ => rfl, ?_⟩
    cases parents with
    | nil => simp [State.addParents]
    | cons q parents => simp

theorem hashLane_turn (st : State α) (c : Commit α) : (turn st c).2.hashLane = (st.takeLane c.hash).2.1 := by
  obtain ⟨extra, -, hRow⟩ := row_turn st c
  rw [hRow]

omit [DecidableEq α] in
theorem mem_addIncoming {myLane : ℕ} {extra : List InLane} {lanes : List Lane} {l : Lane} (h : l ∈ lanes)
    (hl : l.x ≠ myLane) : l ∈ addIncoming myLane extra lanes := by
  induction lanes with
  | nil => exact h
  | cons first lanes ih =>
    rw [addIncoming]
    obtain rfl | hRest := List.mem_cons.1 h
    · rw [if_neg hl]
      exact List.mem_cons_self
    · split_ifs
      · exact List.mem_cons_of_mem _ hRest
      · exact List.mem_cons_of_mem _ (ih hRest)

omit [DecidableEq α] in
theorem exists_mem_addIncoming {myLane : ℕ} {incoming : List InLane} {lanes : List Lane}
    (h : ∃ l ∈ lanes, l.x = myLane) (hAll : ∀ l ∈ lanes, l.x = myLane → l.inFrom = some incoming)
    (extra : List InLane) :
    ∃ l ∈ addIncoming myLane extra lanes, l.x = myLane ∧ l.inFrom = some (incoming ++ extra) := by
  induction lanes with
  | nil =>
    obtain ⟨l, hl, -⟩ := h
    exact absurd hl List.not_mem_nil
  | cons first lanes ih =>
    rw [addIncoming]
    split_ifs with hFirst
    · refine ⟨_, List.mem_cons_self, hFirst, ?_⟩
      rw [hAll first List.mem_cons_self hFirst, Option.getD_some]
    · obtain ⟨l, hl, hx⟩ := h
      obtain rfl | hRest := List.mem_cons.1 hl
      · exact absurd hx hFirst
      · obtain ⟨m, hm, hSpec⟩ := ih ⟨l, hRest, hx⟩ fun l hl => hAll l (List.mem_cons_of_mem _ hl)
        exact ⟨m, List.mem_cons_of_mem _ hm, hSpec⟩

namespace State

omit [DecidableEq α] in
theorem mem_drawLanes {st : State α} {myLane : ℕ} {isMerge : Bool} {incoming : List InLane} {l : Lane}
    (h : l ∈ st.drawLanes myLane isMerge incoming) :
    l.inFrom = if l.x = myLane ∧ isMerge then some incoming else none := by
  obtain ⟨i, -, hi⟩ := List.mem_filterMap.1 h
  by_cases hMine : i = myLane
  · rw [if_pos hMine] at hi
    obtain rfl := Option.some.inj hi
    simp [hMine]
  · rw [if_neg hMine] at hi
    split at hi
    · obtain rfl := Option.some.inj hi
      simp [hMine]
    · exact absurd hi.symm (Option.some_ne_none _)

omit [DecidableEq α] in
theorem line_mem_drawLanes {st : State α} {myLane x : ℕ} {isMerge : Bool} {incoming : List InLane} {p : α}
    (h : st.slot x = .waits p) (hx : x ≠ myLane) :
    ⟨x, .line, st.colorOf x, none⟩ ∈ st.drawLanes myLane isMerge incoming := by
  refine List.mem_filterMap.2 ⟨x, List.mem_range.2 (lt_of_ne_free (by simp [h])), ?_⟩
  rw [if_neg hx, slot_eq_of_ne_free (by simp) h]

omit [DecidableEq α] in
theorem dot_mem_drawLanes {st : State α} {myLane : ℕ} {isMerge : Bool} {incoming : List InLane}
    (h : myLane < st.activeLanes.length) : ∃ l ∈ st.drawLanes myLane isMerge incoming, l.x = myLane :=
  ⟨_, List.mem_filterMap.2 ⟨myLane, List.mem_range.2 h, if_pos rfl⟩, rfl⟩

end State

variable {st : State α} {c : Commit α} {x : ℕ}

/-- A lane that waits for another commit is drawn. -/
theorem drawsLine_turn {p : α} (h : st.slot x = .waits p) (hp : p ≠ c.hash) : (turn st c).2.DrawsLine x := by
  have hTaken := State.taken_takeLane st c.hash
  have hNot : Slot.waits p ≠ .waits c.hash := fun he => hp (by injection he)
  have hx : x ≠ (st.takeLane c.hash).2.1 := by
    rintro rfl
    obtain hOwn | ⟨hOwn, -⟩ := hTaken.own <;> rw [h] at hOwn
    · exact hNot hOwn
    · cases hOwn
  have hSlot : (st.takeLane c.hash).1.slot x = .waits p := by rw [hTaken.others x hx, h, if_neg hNot]
  have hDrawn : ⟨x, .line, (st.takeLane c.hash).1.colorOf x, none⟩ ∈ snapshot st c :=
    State.line_mem_drawLanes hSlot hx
  obtain ⟨extra, -, hRow⟩ := row_turn st c
  rw [hRow]
  refine ⟨⟨x, .line, (st.takeLane c.hash).1.colorOf x, none⟩, ?_, rfl, rfl⟩
  dsimp only
  split_ifs
  · exact mem_addIncoming (List.mem_append_left _ hDrawn) hx
  · exact hDrawn

/-- At a merge all the other lanes of the row's edges come in at the dot: those that waited for it,
and those of its parents. -/
theorem comesIn_turn (hMerge : 2 ≤ c.parents.length) (hx : x ≠ (turn st c).2.hashLane)
    (h : st.slot x = .waits c.hash ∨ x ∈ parentLanes st c) : (turn st c).2.ComesIn x := by
  have hTaken := State.taken_takeLane st c.hash
  obtain ⟨extra, hLanes, hRow⟩ := row_turn st c
  have hParents : c.parents ≠ [] := fun hNil => by simp [hNil] at hMerge
  have hNot : (st.takeLane c.hash).2.1 ∉ extra.map InLane.x := by
    have hNodup := (turned_turn st c).nodup
    rw [hLanes hParents] at hNodup
    exact (List.nodup_cons.1 hNodup).1
  let draw := snapshot st c ++ extra.map fun l => (⟨l.x, .line, l.color, none⟩ : Lane)
  have hAll : ∀ l ∈ draw, l.x = (st.takeLane c.hash).2.1 → l.inFrom = some (st.takeLane c.hash).2.2 := by
    intro l hl hMine
    obtain hl | hl := List.mem_append.1 hl
    · rw [State.mem_drawLanes hl]
      simp [hMine, hMerge]
    · obtain ⟨arm, hArm, rfl⟩ := List.mem_map.1 hl
      exact absurd (List.mem_map.2 ⟨arm, hArm, hMine⟩) hNot
  have hDot : ∃ l ∈ draw, l.x = (st.takeLane c.hash).2.1 := by
    obtain ⟨l, hl, hMine⟩ := State.dot_mem_drawLanes hTaken.lt
    exact ⟨l, List.mem_append_left _ hl, hMine⟩
  obtain ⟨l, hl, hMine, hFrom⟩ := exists_mem_addIncoming hDot hAll extra
  have hArm : x ∈ ((st.takeLane c.hash).2.2 ++ extra).map InLane.x := by
    rw [hashLane_turn] at hx
    rw [List.map_append, List.mem_append]
    obtain hWaits | hMem := h
    · exact .inl ((hTaken.incoming x hWaits).resolve_left hx)
    · rw [hLanes hParents] at hMem
      exact .inr ((List.mem_cons.1 hMem).resolve_left hx)
  obtain ⟨arm, hFound, rfl⟩ := List.mem_map.1 hArm
  rw [hRow]
  refine ⟨l, ?_, hMine, arm, ?_, rfl⟩
  · dsimp only
    rw [if_pos hMerge]
    exact hl
  · rw [hFrom]
    exact hFound

/-- Elsewhere none does. -/
theorem not_comesIn_turn (hMerge : ¬ 2 ≤ c.parents.length) : ¬ (turn st c).2.ComesIn x := by
  rintro ⟨l, hl, -, arm, hArm, -⟩
  obtain ⟨extra, -, hRow⟩ := row_turn st c
  rw [hRow] at hl
  dsimp only at hl
  rw [if_neg hMerge] at hl
  rw [State.mem_drawLanes hl] at hArm
  simp [hMerge] at hArm

theorem own_turn (st : State α) (c : Commit α) :
    st.slot (turn st c).2.hashLane = .waits c.hash ∨ ∀ x, st.slot x ≠ .waits c.hash := by
  rw [hashLane_turn]
  exact (State.taken_takeLane st c.hash).own.imp_right And.right

/-- The lane of the first parent is the commit's own. -/
theorem first_parentLanes (h : (parentLanes st c)[0]? = some x) : x = (turn st c).2.hashLane := by
  obtain ⟨extra, hLanes, -⟩ := row_turn st c
  have hParents : c.parents ≠ [] := fun hNil => by
    have hLength := (turned_turn st c).length
    rw [hNil, List.length_nil, List.length_eq_zero_iff] at hLength
    simp [hLength] at h
  rw [hLanes hParents] at h
  rw [hashLane_turn]
  exact (Option.some.inj h).symm

/-- The lane of another parent is drawn in the commit's own row. -/
theorem drawsLine_parentLanes {k : ℕ} (hk : k ≠ 0) (h : (parentLanes st c)[k]? = some x) :
    (turn st c).2.DrawsLine x := by
  have hTurned := turned_turn st c
  obtain ⟨extra, hLanes, hRow⟩ := row_turn st c
  obtain ⟨hlt, -⟩ := List.getElem?_eq_some_iff.1 h
  rw [hTurned.length] at hlt
  have hMerge : 2 ≤ c.parents.length := by omega
  have hParents : c.parents ≠ [] := fun hNil => by simp [hNil] at hMerge
  have hNodup := hTurned.nodup
  rw [hLanes hParents] at h hNodup
  have hMem : x ∈ extra.map InLane.x := by
    obtain ⟨k, rfl⟩ := Nat.exists_eq_succ_of_ne_zero hk
    exact List.mem_of_getElem? h
  have hx : x ≠ (st.takeLane c.hash).2.1 := fun he => (List.nodup_cons.1 hNodup).1 (he ▸ hMem)
  obtain ⟨arm, hArm, rfl⟩ := List.mem_map.1 hMem
  rw [hRow]
  refine ⟨⟨arm.x, .line, arm.color, none⟩, ?_, rfl, rfl⟩
  dsimp only
  rw [if_pos hMerge]
  exact mem_addIncoming (List.mem_append_right _ (List.mem_map.2 ⟨arm, hArm, rfl⟩)) hx

/-! ### Runs -/

variable (commits : List (Commit α))

/-- The state before a row. -/
def stateAt (r : ℕ) : State α := (commits.take r).foldl (fun st c => (turn st c).1) {}

omit [DecidableEq α] in
def hashAt (r : ℕ) : Option α := commits[r]?.map Commit.hash

def parentAt (i k : ℕ) : Option α := commits[i]?.bind fun c => c.parents[k]?

/-- The lane of an edge: that of the commit for its first parent, else the one its row allocates. -/
def laneAt (i k : ℕ) : Option ℕ := commits[i]?.bind fun c => (parentLanes (stateAt commits i) c)[k]?

variable {commits} {r : ℕ} {c : Commit α}

theorem stateAt_succ (h : commits[r]? = some c) : stateAt commits (r + 1) = (turn (stateAt commits r) c).1 := by
  rw [stateAt, List.take_add_one, h, Option.toList_some, List.foldl_append]
  rfl

theorem graphFrom_getElem? (st : State α) (commits : List (Commit α)) (r : ℕ) :
    (graphFrom st commits)[r]? =
      commits[r]?.map fun c => (turn ((commits.take r).foldl (fun st c => (turn st c).1) st) c).2 := by
  induction commits generalizing st r with
  | nil => rfl
  | cons first commits ih =>
    cases r with
    | zero => rfl
    | succ r =>
      rw [graphFrom, List.getElem?_cons_succ, ih, List.getElem?_cons_succ, List.take_succ_cons, List.foldl_cons]

theorem row_at (h : commits[r]? = some c) :
    (computeGraph commits)[r]? = some (turn (stateAt commits r) c).2 := by
  rw [computeGraph, graphFrom_getElem?, h]
  rfl

/-- An edge that is on its way before a row, and its lane. -/
structure Open (commits : List (Commit α)) (r i k : ℕ) (p : α) (x : ℕ) : Prop where
  lt : i < r
  parent : parentAt commits i k = some p
  lane : laneAt commits i k = some x
  onWay : ∀ j, i < j → j < r → hashAt commits j ≠ some p

theorem open_succ_iff (h : commits[r]? = some c) {i k : ℕ} {p : α} {x : ℕ} :
    Open commits (r + 1) i k p x ↔ Open commits r i k p x ∧ p ≠ c.hash ∨
      i = r ∧ c.parents[k]? = some p ∧ (parentLanes (stateAt commits r) c)[k]? = some x := by
  have hHash : hashAt commits r = some c.hash := by rw [hashAt, h, Option.map_some]
  have hParent : parentAt commits r k = c.parents[k]? := by rw [parentAt, h, Option.bind_some]
  have hLane : laneAt commits r k =
    (parentLanes (stateAt commits r) c)[k]? := by rw [laneAt, h, Option.bind_some]
  constructor
  · rintro ⟨hlt, hp, hx, hWay⟩
    obtain hOld | rfl := Nat.lt_succ_iff_lt_or_eq.1 hlt
    · refine .inl ⟨⟨hOld, hp, hx, fun j hi hj => hWay j hi (Nat.lt_succ_of_lt hj)⟩, fun he => ?_⟩
      exact hWay r hOld (Nat.lt_succ_self r) (he ▸ hHash)
    · exact .inr ⟨rfl, hParent ▸ hp, hLane ▸ hx⟩
  · rintro (⟨⟨hlt, hp, hx, hWay⟩, hne⟩ | ⟨rfl, hp, hx⟩)
    · refine ⟨Nat.lt_succ_of_lt hlt, hp, hx, fun j hi hj => ?_⟩
      obtain hOld | rfl := Nat.lt_succ_iff_lt_or_eq.1 hj
      · exact hWay j hi hOld
      · exact fun he => hne (Option.some.inj (hHash.symm.trans he)).symm
    · exact ⟨Nat.lt_succ_self i, hParent.trans hp, hLane.trans hx, fun j hi hj => by omega⟩

/-- Each lane waits for the parent of the one edge that is on its way in it. -/
structure Kept (commits : List (Commit α)) (r : ℕ) : Prop where
  waits : ∀ x p, (stateAt commits r).slot x = .waits p ↔ ∃ i k, Open commits r i k p x
  one : ∀ x i k p i' k' p', Open commits r i k p x → Open commits r i' k' p' x → i = i' ∧ k = k'

theorem kept_zero (commits : List (Commit α)) : Kept commits 0 where
  waits x p := iff_of_false (by simp [stateAt, State.slot]) fun ⟨i, k, h⟩ => absurd h.lt (Nat.not_lt_zero i)
  one _ i _ _ _ _ _ h := absurd h.lt (Nat.not_lt_zero i)

theorem kept_succ (h : commits[r]? = some c) (hKept : Kept commits r) : Kept commits (r + 1) := by
  have hTurned := turned_turn (stateAt commits r) c
  -- A lane that the turn takes for a parent has no other edge.
  have hOwn : ∀ {x i k : ℕ} {p : α}, x ∈ parentLanes (stateAt commits r) c → Open commits r i k p x →
    p = c.hash := by
    intro x i k p hx hOpen
    have hWaits := (hKept.waits x p).2 ⟨i, k, hOpen⟩
    obtain hHash | hFree := hTurned.before x hx <;> rw [hWaits] at *
    · injection hHash
    · cases hFree
  have hOnce : ∀ {x k k' : ℕ}, (parentLanes (stateAt commits r) c)[k]? = some x →
      (parentLanes (stateAt commits r) c)[k']? = some x → k = k' := fun hk hk' =>
    (List.getElem?_inj (List.getElem?_eq_some_iff.1 hk).1 hTurned.nodup).1 (hk.trans hk'.symm)
  constructor
  · intro x p
    rw [stateAt_succ h]
    simp only [open_succ_iff h]
    by_cases hx : x ∈ parentLanes (stateAt commits r) c
    · obtain ⟨k, hk⟩ := List.mem_iff_getElem?.1 hx
      obtain ⟨q, hq⟩ : ∃ q, c.parents[k]? = some q := by
        refine ⟨_, List.getElem?_eq_getElem ?_⟩
        rw [← hTurned.length]
        exact (List.getElem?_eq_some_iff.1 hk).1
      obtain ⟨y, hy, hWaits⟩ := hTurned.waits k q hq
      obtain rfl := Option.some.inj (hk.symm.trans hy)
      rw [hWaits]
      constructor
      · intro he
        injection he with he
        exact ⟨r, k, .inr ⟨rfl, he ▸ hq, hk⟩⟩
      · rintro ⟨i, k', ⟨hOpen, hne⟩ | ⟨-, hp, hk'⟩⟩
        · exact absurd (hOwn hx hOpen) hne
        · obtain rfl := hOnce hk hk'
          rw [Option.some.inj (hq.symm.trans hp)]
    · rw [hTurned.others x hx]
      constructor
      · intro hSlot
        split_ifs at hSlot with hHash
        obtain ⟨i, k, hOpen⟩ := (hKept.waits x p).1 hSlot
        exact ⟨i, k, .inl ⟨hOpen, fun he => hHash (he ▸ hSlot)⟩⟩
      · rintro ⟨i, k, ⟨hOpen, hne⟩ | ⟨-, -, hk⟩⟩
        · have hSlot := (hKept.waits x p).2 ⟨i, k, hOpen⟩
          rw [if_neg, hSlot]
          rw [hSlot]
          exact fun he => hne (by injection he)
        · exact absurd (List.mem_of_getElem? hk) hx
  · intro x i k p i' k' p' hOpen hOpen'
    obtain ⟨hOld, hne⟩ | ⟨rfl, -, hk⟩ := (open_succ_iff h).1 hOpen <;>
      obtain ⟨hOld', hne'⟩ | ⟨rfl, -, hk'⟩ := (open_succ_iff h).1 hOpen'
    · exact hKept.one x i k p i' k' p' hOld hOld'
    · exact absurd (hOwn (List.mem_of_getElem? hk') hOld) hne
    · exact absurd (hOwn (List.mem_of_getElem? hk) hOld') hne'
    · exact ⟨rfl, hOnce hk hk'⟩

theorem kept (commits : List (Commit α)) {r : ℕ} (hr : r ≤ commits.length) : Kept commits r := by
  induction r with
  | zero => exact kept_zero commits
  | succ r ih => exact kept_succ (List.getElem?_eq_getElem hr) (ih (Nat.le_of_succ_le hr))

/-! ### Edges as they are drawn -/

section Drawn

variable (commits : List (Commit α))

/-- The lane of every edge to a listed parent is drawn in each row between the two, and in the
parent's row is the dot's own one or comes in at the dot. -/
def EdgesConnected : Prop :=
  ∀ i k p j, parentAt commits i k = some p → hashAt commits j = some p → ∃ x, laneAt commits i k = some x ∧
    (∃ row, (computeGraph commits)[i]? = some row ∧ if k = 0 then x = row.hashLane else row.DrawsLine x) ∧
    (∀ r, i < r → r < j → ∃ row, (computeGraph commits)[r]? = some row ∧ row.DrawsLine x) ∧
    ∃ row, (computeGraph commits)[j]? = some row ∧ (x = row.hashLane ∨ row.ComesIn x)

/-- In no row a lane is that of edges to different parents. -/
def OneTarget : Prop :=
  ∀ r < commits.length, ∀ i k p i' k' p' x,
    Open commits (r + 1) i k p x → Open commits (r + 1) i' k' p' x → p = p'

omit [DecidableEq α] in
/-- A commit that is not a merge is a parent of one listed commit at most. -/
def ForksAtMerges : Prop :=
  ∀ j c, commits[j]? = some c → c.parents.length < 2 → ∀ i k i' k', i < j → i' < j →
    parentAt commits i k = some c.hash → parentAt commits i' k' = some c.hash → i = i' ∧ k = k'

end Drawn

theorem oneTarget (commits : List (Commit α)) : OneTarget commits := by
  intro r hr i k p i' k' p' x hOpen hOpen'
  have hKept := kept commits (Nat.succ_le_of_lt hr)
  have hSlot := (hKept.waits x p).2 ⟨i, k, hOpen⟩
  have hSlot' := (hKept.waits x p').2 ⟨i', k', hOpen'⟩
  rw [hSlot] at hSlot'
  injection hSlot'

omit [DecidableEq α] in
theorem hashAt_inj (h : (commits.map Commit.hash).Nodup) {p : α} {i j : ℕ} (hi : hashAt commits i = some p)
    (hj : hashAt commits j = some p) : i = j := by
  rw [hashAt, ← List.getElem?_map] at hi hj
  exact (List.getElem?_inj (List.getElem?_eq_some_iff.1 hi).1 h).1 (hi.trans hj.symm)

theorem exists_laneAt {i k : ℕ} {p : α} (h : parentAt commits i k = some p) :
    ∃ x, laneAt commits i k = some x := by
  obtain ⟨c, hc, hp⟩ := Option.bind_eq_some_iff.1 h
  have hlt : k < (parentLanes (stateAt commits i) c).length := by
    rw [(turned_turn _ c).length]
    exact (List.getElem?_eq_some_iff.1 hp).1
  rw [laneAt, hc]
  exact ⟨_, List.getElem?_eq_getElem hlt⟩

/-- An edge is on its way until its parent's row. -/
theorem open_of_lt (hDistinct : (commits.map Commit.hash).Nodup) {i k j : ℕ} {p : α} {x : ℕ}
    (hp : parentAt commits i k = some p) (hj : hashAt commits j = some p) (hx : laneAt commits i k = some x)
    {r : ℕ} (hi : i < r) (hr : r ≤ j) : Open commits r i k p x :=
  ⟨hi, hp, hx, fun j' _ hj' he => by
    have := hashAt_inj hDistinct he hj
    omega⟩

omit [DecidableEq α] in
/-- The commit of a row from its hash. -/
theorem exists_of_hashAt {j : ℕ} {p : α} (h : hashAt commits j = some p) :
    ∃ c, commits[j]? = some c ∧ c.hash = p ∧ j < commits.length := by
  obtain ⟨c, hc, rfl⟩ := Option.map_eq_some_iff.1 h
  exact ⟨c, hc, rfl, (List.getElem?_eq_some_iff.1 hc).1⟩

/-- The first row of an edge. -/
theorem drawn_start {i k : ℕ} {x : ℕ} (hx : laneAt commits i k = some x) :
    ∃ row, (computeGraph commits)[i]? = some row ∧ if k = 0 then x = row.hashLane else row.DrawsLine x := by
  obtain ⟨c, hc, hLane⟩ := Option.bind_eq_some_iff.1 hx
  refine ⟨_, row_at hc, ?_⟩
  split_ifs with hk
  · subst hk
    exact first_parentLanes hLane
  · exact drawsLine_parentLanes hk hLane

/-- The rows of an edge between the two commits. -/
theorem drawn_between {r i k : ℕ} {p : α} {x : ℕ} (hOpen : Open commits r i k p x) (hr : r < commits.length)
    (hp : hashAt commits r ≠ some p) : ∃ row, (computeGraph commits)[r]? = some row ∧ row.DrawsLine x := by
  have hc : commits[r]? = some commits[r] := List.getElem?_eq_getElem hr
  have hSlot := ((kept commits hr.le).waits x p).2 ⟨i, k, hOpen⟩
  exact ⟨_, row_at hc, drawsLine_turn hSlot fun he => hp (by rw [hashAt, hc, he, Option.map_some])⟩

/-- The last row of an edge at a merge. -/
theorem drawn_end {j i k : ℕ} {c : Commit α} {x : ℕ} (hc : commits[j]? = some c)
    (hOpen : Open commits j i k c.hash x) (hMerge : 2 ≤ c.parents.length) :
    ∃ row, (computeGraph commits)[j]? = some row ∧ (x = row.hashLane ∨ row.ComesIn x) := by
  have hr : j ≤ commits.length := (List.getElem?_eq_some_iff.1 hc).1.le
  have hSlot := ((kept commits hr).waits x c.hash).2 ⟨i, k, hOpen⟩
  refine ⟨_, row_at hc, ?_⟩
  by_cases hx : x = (turn (stateAt commits j) c).2.hashLane
  · exact .inl hx
  · exact .inr (comesIn_turn hMerge hx (.inl hSlot))

/-- Where one edge alone leads to the commit, it ends in the commit's own lane. -/
theorem drawn_end_of_one {j i k : ℕ} {c : Commit α} {x : ℕ} (hc : commits[j]? = some c)
    (hOpen : Open commits j i k c.hash x)
    (hOne : ∀ i' k' y, Open commits j i' k' c.hash y → i = i' ∧ k = k') :
    ∃ row, (computeGraph commits)[j]? = some row ∧ (x = row.hashLane ∨ row.ComesIn x) := by
  have hr : j ≤ commits.length := (List.getElem?_eq_some_iff.1 hc).1.le
  have hSlot := ((kept commits hr).waits x c.hash).2 ⟨i, k, hOpen⟩
  refine ⟨_, row_at hc, .inl ?_⟩
  obtain hOwn | hNo := own_turn (stateAt commits j) c
  · obtain ⟨i', k', hOpen'⟩ := ((kept commits hr).waits _ c.hash).1 hOwn
    obtain ⟨rfl, rfl⟩ := hOne i' k' _ hOpen'
    exact Option.some.inj (hOpen.lane.symm.trans hOpen'.lane)
  · exact absurd hSlot (hNo x)

/-- The last row of an edge of a commit to itself. -/
theorem drawn_self {i k : ℕ} {x : ℕ} (hx : laneAt commits i k = some x) :
    ∃ row, (computeGraph commits)[i]? = some row ∧ (x = row.hashLane ∨ row.ComesIn x) := by
  obtain ⟨c, hc, hLane⟩ := Option.bind_eq_some_iff.1 hx
  refine ⟨_, row_at hc, ?_⟩
  by_cases hk : k = 0
  · subst hk
    exact .inl (first_parentLanes hLane)
  by_cases hOwn : x = (turn (stateAt commits i) c).2.hashLane
  · exact .inl hOwn
  · have hlt := (List.getElem?_eq_some_iff.1 hLane).1
    rw [(turned_turn _ c).length] at hlt
    exact .inr (comesIn_turn (by omega) hOwn (.inr (List.mem_of_getElem? hLane)))

theorem edgesConnected (hDistinct : (commits.map Commit.hash).Nodup)
    (hOrder : commits.Pairwise fun c d => c.hash ∉ d.parents) (hForks : ForksAtMerges commits) :
    EdgesConnected commits := by
  intro i k p j hp hj
  obtain ⟨x, hx⟩ := exists_laneAt hp
  refine ⟨x, hx, drawn_start hx, fun r hi hr => ?_, ?_⟩
  · obtain ⟨-, -, -, hlt⟩ := exists_of_hashAt hj
    refine drawn_between (open_of_lt hDistinct hp hj hx hi hr.le) (hr.trans hlt) fun he => ?_
    have := hashAt_inj hDistinct he hj
    omega
  · obtain ⟨c, hc, rfl, -⟩ := exists_of_hashAt hj
    obtain hlt | rfl | hlt := lt_trichotomy i j
    · have hOpen := open_of_lt hDistinct hp hj hx hlt le_rfl
      by_cases hMerge : 2 ≤ c.parents.length
      · exact drawn_end hc hOpen hMerge
      · exact drawn_end_of_one hc hOpen fun i' k' y hOpen' =>
          hForks j c hc (not_le.1 hMerge) i k i' k' hlt hOpen'.lt hp hOpen'.parent
    · exact drawn_self hx
    · -- No commit comes before its child.
      obtain ⟨d, hd, hk⟩ := Option.bind_eq_some_iff.1 hp
      obtain ⟨hjLt, hjEq⟩ := List.getElem?_eq_some_iff.1 hc
      obtain ⟨hiLt, hiEq⟩ := List.getElem?_eq_some_iff.1 hd
      have hNot := List.pairwise_iff_getElem.1 hOrder j i hjLt hiLt hlt
      rw [hjEq, hiEq] at hNot
      exact absurd (List.mem_of_getElem? hk) hNot

theorem forksAtMerges (hDistinct : (commits.map Commit.hash).Nodup) (h : EdgesConnected commits) :
    ForksAtMerges commits := by
  intro j c hc hLength i k i' k' hi hi' hp hp'
  have hj : hashAt commits j = some c.hash := by rw [hashAt, hc, Option.map_some]
  -- Neither lane comes in at the dot, so both are the dot's own one.
  have hOwn : ∀ {i k x : ℕ} {row : Row}, (computeGraph commits)[j]? = some row →
      (x = row.hashLane ∨ row.ComesIn x) → x = (turn (stateAt commits j) c).2.hashLane := by
    intro i k x row hRow hEnd
    obtain rfl := Option.some.inj ((row_at hc).symm.trans hRow)
    exact hEnd.resolve_right (not_comesIn_turn (not_le.2 hLength))
  obtain ⟨x, hx, -, -, row, hRow, hEnd⟩ := h i k c.hash j hp hj
  obtain ⟨x', hx', -, -, row', hRow', hEnd'⟩ := h i' k' c.hash j hp' hj
  have hSame : x = x' := (hOwn (i := i) (k := k) hRow hEnd).trans (hOwn (i := i) (k := k) hRow' hEnd').symm
  subst hSame
  have hr : j ≤ commits.length := (List.getElem?_eq_some_iff.1 hc).1.le
  exact (kept commits hr).one x i k c.hash i' k' c.hash (open_of_lt hDistinct hp hj hx hi le_rfl)
    (open_of_lt hDistinct hp' hj hx' hi' le_rfl)

/-- The edges are connected where only merges are parents of several listed commits: at any other
commit the lanes that waited for it end at nothing, but for one. -/
theorem connected_iff_forks (commits : List (Commit α)) (hDistinct : (commits.map Commit.hash).Nodup)
    (hOrder : commits.Pairwise fun c d => c.hash ∉ d.parents) :
    EdgesConnected commits ∧ OneTarget commits ↔ ForksAtMerges commits :=
  ⟨fun h => forksAtMerges hDistinct h.1, fun h => ⟨edgesConnected hDistinct hOrder h, oneTarget commits⟩⟩

/-- A merge of two commits with one parent each. -/
theorem fork_at_merge :
    let commits : List (Commit ℕ) := [⟨4, [3, 2]⟩, ⟨3, [1]⟩, ⟨2, [0]⟩]
    EdgesConnected commits ∧ OneTarget commits ↔ ForksAtMerges commits :=
  connected_iff_forks _ (by decide) (by decide)

/-- Two branches from one commit: the second one's lane does not reach it. -/
theorem branches_apart : ¬ ∀ commits : List (Commit ℕ), (commits.map Commit.hash).Nodup →
    commits.Pairwise (fun c d => c.hash ∉ d.parents) → EdgesConnected commits ∧ OneTarget commits := by
  intro h
  have hConnected := (h [⟨3, [1]⟩, ⟨2, [1]⟩, ⟨1, []⟩] (by decide) (by decide)).1
  have hForks := forksAtMerges (by decide) hConnected
  have := hForks 2 ⟨1, []⟩ rfl (by decide) 0 0 1 0 (by decide) (by decide) rfl rfl
  exact absurd this.1 (by decide)

end ManyAiCli.Web.CommitGraph
