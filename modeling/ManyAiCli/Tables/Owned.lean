import Mathlib.Data.List.Nodup
import Mathlib.Data.List.Perm.Subperm
import Mathlib.Tactic.Common

/-! Tables whose rows get ascending numbers and belong to a row of another table, as a database
keeps them with an automatic primary key and a foreign key. A number is never given twice, also
when its row is gone. -/

namespace ManyAiCli.Tables

structure Owned (β : Type*) where
  id : ℕ
  owner : ℕ
  val : β
  deriving DecidableEq, Repr

structure OwnedTable (β : Type*) where
  rows : List (Owned β)
  /-- The number that was given last. -/
  seq : ℕ
  nodup : (rows.map (·.id)).Nodup
  bound : ∀ n ∈ rows.map (·.id), n ≤ seq

namespace OwnedTable

variable {β : Type*}

def empty : OwnedTable β where
  rows := []
  seq := 0
  nodup := List.nodup_nil
  bound := fun _ h => nomatch h

/-- With a row that gets the next number. -/
def added (t : OwnedTable β) (owner : ℕ) (b : β) : List (Owned β) := t.rows ++ [⟨t.seq + 1, owner, b⟩]

theorem nodup_added (t : OwnedTable β) (owner : ℕ) (b : β) : ((t.added owner b).map (·.id)).Nodup := by
  rw [added, List.map_append]
  refine t.nodup.append (List.nodup_singleton _) fun n hn hn' => ?_
  have := t.bound n hn
  have : n = t.seq + 1 := List.mem_singleton.1 hn'
  omega

theorem bound_added (t : OwnedTable β) (owner : ℕ) (b : β) :
    ∀ n ∈ (t.added owner b).map (·.id), n ≤ t.seq + 1 := by
  intro n hn
  rw [added, List.map_append, List.mem_append] at hn
  rcases hn with hn | hn
  · exact Nat.le_succ_of_le (t.bound n hn)
  · exact Nat.le_of_eq (List.mem_singleton.1 hn)

/-- `INSERT` -/
def insert (t : OwnedTable β) (owner : ℕ) (b : β) : OwnedTable β where
  rows := t.added owner b
  seq := t.seq + 1
  nodup := t.nodup_added owner b
  bound := t.bound_added owner b

/-- `DELETE … WHERE …` -/
def deleteWhere (t : OwnedTable β) (p : Owned β → Bool) : OwnedTable β where
  rows := t.rows.filter fun r => !p r
  seq := t.seq
  nodup := t.nodup.sublist (List.filter_sublist.map _)
  bound := fun n hn => t.bound n ((List.filter_sublist.map _).subset hn)

theorem ids_updated (p : Owned β → Bool) (f : β → β) (rows : List (Owned β)) :
    (rows.map fun r => { r with val := if p r then f r.val else r.val }).map (·.id) = rows.map (·.id) :=
  List.map_map

/-- `UPDATE … SET … WHERE …` -/
def updateWhere (t : OwnedTable β) (p : Owned β → Bool) (f : β → β) : OwnedTable β where
  rows := t.rows.map fun r => { r with val := if p r then f r.val else r.val }
  seq := t.seq
  nodup := (ids_updated p f t.rows).symm ▸ t.nodup
  bound := (ids_updated p f t.rows).symm ▸ t.bound

variable {t : OwnedTable β} {r r' : Owned β} {p : Owned β → Bool} {owner limit : ℕ} {b : β} {ids : List ℕ}

theorem mem_insert : r ∈ (t.insert owner b).rows ↔ r ∈ t.rows ∨ r = ⟨t.seq + 1, owner, b⟩ := by
  simp [insert, added]

theorem mem_deleteWhere : r ∈ (t.deleteWhere p).rows ↔ r ∈ t.rows ∧ p r = false := by
  simp [deleteWhere]

theorem mem_updateWhere {f : β → β} : r ∈ (t.updateWhere p f).rows ↔
    ∃ q ∈ t.rows, r = { q with val := if p q then f q.val else q.val } := by
  simp only [updateWhere, List.mem_map, eq_comm]

theorem le_seq (h : r ∈ t.rows) : r.id ≤ t.seq := t.bound _ (List.mem_map_of_mem h)

theorem eq_of_id (h : r ∈ t.rows) (h' : r' ∈ t.rows) (he : r.id = r'.id) : r = r' :=
  List.inj_on_of_nodup_map t.nodup h h' he

/-- A possible answer to `SELECT id … WHERE … LIMIT …`, which leaves the order open. -/
def Picks (t : OwnedTable β) (p : Owned β → Bool) (limit : ℕ) (ids : List ℕ) : Prop :=
  ids.Nodup ∧ (∀ n ∈ ids, n ∈ (t.rows.filter p).map (·.id)) ∧ ids.length = min limit (t.rows.filter p).length

instance (t : OwnedTable β) (p : Owned β → Bool) (limit : ℕ) (ids : List ℕ) : Decidable (t.Picks p limit ids) :=
  inferInstanceAs (Decidable (_ ∧ _ ∧ _))

/-- An answer below the limit is all there is. -/
theorem Picks.mem (h : t.Picks p limit ids) (hlt : ids.length < limit) (hr : r ∈ t.rows) (hp : p r = true) :
    r.id ∈ ids := by
  obtain ⟨hnodup, hsub, hlen⟩ := h
  have hsubperm := List.subperm_of_subset hnodup hsub
  have hle : ((t.rows.filter p).map (·.id)).length ≤ ids.length := by
    rw [List.length_map]
    omega
  have hperm := hsubperm.perm_of_length_le hle
  exact hperm.mem_iff.2 (List.mem_map_of_mem (List.mem_filter.2 ⟨hr, hp⟩))

end OwnedTable

end ManyAiCli.Tables
