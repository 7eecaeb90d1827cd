import Mathlib.Data.List.Basic
import Mathlib.Data.List.Nodup

/-! Tables whose rows get ascending numbers and have a unique key, as a database keeps them
with an automatic primary key: inserts that update the row of their key, updates of the
rows that meet a condition, and the newest row of those that do. -/

namespace ManyAiCli.Tables

structure Numbered (κ β : Type*) where
  id : ℕ
  key : κ
  val : β
  deriving DecidableEq, Repr

/-- The rows stand in the order of their numbers. -/
structure Table (κ β : Type*) where
  rows : List (Numbered κ β)
  /-- The number that was given last. -/
  seq : ℕ
  sorted : (rows.map (·.id)).Pairwise (· < ·)
  bound : ∀ n ∈ rows.map (·.id), n ≤ seq
  keys : (rows.map (·.key)).Nodup

namespace Table

variable {κ β : Type*}

def empty : Table κ β where
  rows := []
  seq := 0
  sorted := List.Pairwise.nil
  bound := fun _ h => nomatch h
  keys := List.nodup_nil

theorem ids_mapVal (f : Numbered κ β → β) (rows : List (Numbered κ β)) :
    (rows.map fun r => { r with val := f r }).map (·.id) = rows.map (·.id) :=
  List.map_map

theorem keys_mapVal (f : Numbered κ β → β) (rows : List (Numbered κ β)) :
    (rows.map fun r => { r with val := f r }).map (·.key) = rows.map (·.key) :=
  List.map_map

def mapVal (t : Table κ β) (f : Numbered κ β → β) : Table κ β where
  rows := t.rows.map fun r => { r with val := f r }
  seq := t.seq
  sorted := (ids_mapVal f t.rows).symm ▸ t.sorted
  bound := (ids_mapVal f t.rows).symm ▸ t.bound
  keys := (keys_mapVal f t.rows).symm ▸ t.keys

/-- `UPDATE … SET … WHERE …` -/
def updateWhere (t : Table κ β) (p : β → Bool) (f : β → β) : Table κ β :=
  t.mapVal fun r => if p r.val then f r.val else r.val

/-- `DELETE … WHERE …` -/
def deleteWhere (t : Table κ β) (p : Numbered κ β → Bool) : Table κ β where
  rows := t.rows.filter fun r => !p r
  seq := t.seq
  sorted := t.sorted.sublist (List.filter_sublist.map _)
  bound := fun n hn => t.bound n ((List.filter_sublist.map _).subset hn)
  keys := t.keys.sublist (List.filter_sublist.map _)

/-- `SELECT … WHERE … ORDER BY id DESC LIMIT 1` -/
def newest (t : Table κ β) (p : β → Bool) : Option (Numbered κ β) :=
  (t.rows.filter fun r => p r.val).getLast?

/-- With a row that gets the next number. -/
def added (t : Table κ β) (k : κ) (b : β) : List (Numbered κ β) := t.rows ++ [⟨t.seq + 1, k, b⟩]

theorem sorted_added (t : Table κ β) (k : κ) (b : β) : ((t.added k b).map (·.id)).Pairwise (· < ·) := by
  rw [added, List.map_append, List.pairwise_append]
  refine ⟨t.sorted, List.pairwise_singleton .., fun n hn m hm => ?_⟩
  obtain rfl := List.mem_singleton.1 hm
  exact Nat.lt_succ_of_le (t.bound n hn)

theorem bound_added (t : Table κ β) (k : κ) (b : β) : ∀ n ∈ (t.added k b).map (·.id), n ≤ t.seq + 1 := by
  intro n hn
  rw [added, List.map_append, List.mem_append] at hn
  rcases hn with hn | hn
  · exact Nat.le_succ_of_le (t.bound n hn)
  · exact Nat.le_of_eq (List.mem_singleton.1 hn)

variable [DecidableEq κ]

theorem keys_added {t : Table κ β} {k : κ} (h : t.rows.find? (·.key = k) = none) (b : β) :
    ((t.added k b).map (·.key)).Nodup := by
  rw [added, List.map_append]
  refine t.keys.append (List.nodup_singleton k) fun x hx hk => ?_
  obtain ⟨r, hr, rfl⟩ := List.mem_map.1 hx
  have hne := List.find?_eq_none.1 h r hr
  exact hne (decide_eq_true (List.mem_singleton.1 hk))

/-- `INSERT … ON CONFLICT(key) DO UPDATE SET … RETURNING id` -/
def upsert (t : Table κ β) (k : κ) (new : β) (old : β → β) : Table κ β × ℕ :=
  match h : t.rows.find? (·.key = k) with
  | some r => (t.mapVal fun r => if r.key = k then old r.val else r.val, r.id)
  | none => ({
      rows := t.added k new
      seq := t.seq + 1
      sorted := t.sorted_added k new
      bound := t.bound_added k new
      keys := keys_added h new }, t.seq + 1)

/-! ### What the operations do -/

variable {t : Table κ β} {r r' : Numbered κ β} {k : κ} {p : β → Bool} {f : β → β}

omit [DecidableEq κ] in
theorem mem_updateWhere : r ∈ (t.updateWhere p f).rows ↔
    ∃ r₀ ∈ t.rows, r = { r₀ with val := if p r₀.val then f r₀.val else r₀.val } := by
  simp only [updateWhere, mapVal, List.mem_map, eq_comm]

omit [DecidableEq κ] in
theorem ids_nodup (t : Table κ β) : (t.rows.map (·.id)).Nodup := t.sorted.imp Nat.ne_of_lt

omit [DecidableEq κ] in
theorem eq_of_id (h : r ∈ t.rows) (h' : r' ∈ t.rows) (he : r.id = r'.id) : r = r' :=
  List.inj_on_of_nodup_map t.ids_nodup h h' he

omit [DecidableEq κ] in
theorem eq_of_key (h : r ∈ t.rows) (h' : r' ∈ t.rows) (he : r.key = r'.key) : r = r' :=
  List.inj_on_of_nodup_map t.keys h h' he

omit [DecidableEq κ] in
theorem find?_id (h : r ∈ t.rows) : t.rows.find? (·.id = r.id) = some r := by
  have hsome : (t.rows.find? (·.id = r.id)).isSome := List.find?_isSome.2 ⟨r, h, decide_eq_true rfl⟩
  obtain ⟨q, hq⟩ := Option.isSome_iff_exists.1 hsome
  have hid := List.find?_some hq
  rw [hq, eq_of_id (List.mem_of_find?_eq_some hq) h (of_decide_eq_true hid)]

omit [DecidableEq κ] in
/-- A row with the highest number of those that meet the condition. -/
theorem newest_eq (h : r ∈ t.rows) (hp : p r.val = true)
    (hmax : ∀ r' ∈ t.rows, p r'.val = true → r'.id ≤ r.id) : t.newest p = some r := by
  have hmem : r ∈ t.rows.filter fun r => p r.val := List.mem_filter.2 ⟨h, hp⟩
  obtain ⟨l, hl⟩ := Option.isSome_iff_exists.1 (List.getLast?_isSome.2 (List.ne_nil_of_mem hmem))
  obtain ⟨ys, hys⟩ := List.getLast?_eq_some_iff.1 hl
  rw [newest, hl, Option.some.injEq]
  have hlast : l ∈ t.rows.filter fun r => p r.val := by
    rw [hys]
    exact List.mem_append_right _ (List.mem_singleton_self l)
  obtain ⟨hlt, hlp⟩ := List.mem_filter.1 hlast
  have hsort : (t.rows.filter fun r => p r.val).Pairwise fun a b => a.id < b.id :=
    (List.pairwise_map.1 t.sorted).filter _
  rw [hys, List.mem_append] at hmem
  rcases hmem with hmem | hmem
  · rw [hys, List.pairwise_append] at hsort
    have hlt' := hsort.2.2 r hmem l (List.mem_singleton_self l)
    have := hmax l hlt hlp
    omega
  · exact (List.mem_singleton.1 hmem).symm

/-- Either the row of the key is updated, or there is none and a row is added. -/
theorem upsert_cases (t : Table κ β) (k : κ) (new : β) (old : β → β) :
    (∃ r ∈ t.rows, r.key = k ∧
      t.upsert k new old = (t.mapVal fun r => if r.key = k then old r.val else r.val, r.id)) ∨
    (∀ r ∈ t.rows, r.key ≠ k) ∧
      (t.upsert k new old).1.rows = t.added k new ∧ (t.upsert k new old).2 = t.seq + 1 := by
  unfold upsert
  split
  · rename_i r h
    have hk := List.find?_some h
    exact .inl ⟨r, List.mem_of_find?_eq_some h, of_decide_eq_true hk, rfl⟩
  · rename_i h
    exact .inr ⟨fun r hr hk => List.find?_eq_none.1 h r hr (decide_eq_true hk), rfl, rfl⟩

/-- The row that an upsert returns has the key, and has been put in or updated. -/
theorem exists_upserted (t : Table κ β) (k : κ) (new : β) (old : β → β) :
    ∃ b, ⟨(t.upsert k new old).2, k, b⟩ ∈ (t.upsert k new old).1.rows ∧
      (b = new ∧ (∀ r ∈ t.rows, r.key ≠ k ∧ r.id < (t.upsert k new old).2) ∨
        ∃ r ∈ t.rows, r.key = k ∧ r.id = (t.upsert k new old).2 ∧ b = old r.val) := by
  rcases t.upsert_cases k new old with ⟨r, hr, rfl, he⟩ | ⟨hno, hrows, hid⟩
  · rw [he]
    refine ⟨old r.val, List.mem_map.2 ⟨r, hr, ?_⟩, .inr ⟨r, hr, rfl, rfl, rfl⟩⟩
    exact congrArg (Numbered.mk r.id r.key) (if_pos rfl)
  · rw [hrows, hid]
    refine ⟨new, List.mem_append_right _ (List.mem_singleton_self _), .inl ⟨rfl, fun r hr => ⟨hno r hr, ?_⟩⟩⟩
    exact Nat.lt_succ_of_le (t.bound _ (List.mem_map_of_mem hr))

/-- The other rows stay. -/
theorem mem_upsert (t : Table κ β) (k : κ) (new : β) (old : β → β)
    (h : r ∈ (t.upsert k new old).1.rows) : r.id = (t.upsert k new old).2 ∧ r.key = k ∨
      r ∈ t.rows ∧ r.key ≠ k := by
  rcases t.upsert_cases k new old with ⟨q, hq, rfl, he⟩ | ⟨hno, hrows, hid⟩
  · rw [he] at h ⊢
    obtain ⟨r₀, hr₀, rfl⟩ := List.mem_map.1 h
    by_cases hk : r₀.key = q.key
    · exact .inl ⟨by rw [eq_of_key hr₀ hq hk], hk⟩
    · refine .inr ⟨?_, hk⟩
      show Numbered.mk r₀.id r₀.key (if r₀.key = q.key then old r₀.val else r₀.val) ∈ t.rows
      rw [if_neg hk]
      exact hr₀
  · rw [hrows] at h
    rw [hid]
    rcases List.mem_append.1 h with h | h
    · exact .inr ⟨h, hno r h⟩
    · obtain rfl := List.mem_singleton.1 h
      exact .inl ⟨rfl, rfl⟩

end Table

end ManyAiCli.Tables
