import Mathlib.Data.List.Basic
import Mathlib.Tactic.Common

/-! Clusters of a list whose items have places: a new one begins where the gap to
the item before exceeds a limit. A scan keeps the last of the longest clusters. When
it lies behind some place, the items before that place do not matter. -/

namespace ManyAiCli.Text

variable {α : Type*} (place : α → ℕ) (limit : ℕ)

/-- The second cluster, unless it is shorter. -/
def longer (best cur : List α) : List α := if cur.length ≥ best.length then cur else best

/-- `cur` is the cluster being read, `prev` its last place, `best` the best one
before it. -/
def scanClusters (best cur : List α) (prev : ℕ) : List α → List α
  | [] => longer best cur
  | p :: ps =>
    if place p - prev > limit then
      scanClusters (longer best cur) [p] (place p) ps
    else scanClusters best (cur ++ [p]) (place p) ps

def bestCluster : List α → List α
  | [] => []
  | p :: ps => scanClusters place limit [p] [p] (place p) ps

variable {place limit}

theorem longer_map {β : Type*} (f : α → β) (best cur : List α) :
    longer (best.map f) (cur.map f) = (longer best cur).map f := by
  simp only [longer, List.length_map]
  split_ifs <;> rfl

/-- Moving all items does not matter. -/
theorem scanClusters_map {β : Type*} {place' : β → ℕ} {f : α → β} {k : ℕ}
    (hf : ∀ x, place' (f x) = place x + k) (best cur : List α) (prev : ℕ) (l : List α) :
    scanClusters place' limit (best.map f) (cur.map f) (prev + k) (l.map f) =
      (scanClusters place limit best cur prev l).map f := by
  induction l generalizing best cur prev with
  | nil =>
    rw [List.map_nil, scanClusters, scanClusters, longer_map]
  | cons p ps ih =>
    rw [List.map_cons, scanClusters, scanClusters, hf, Nat.add_sub_add_right, longer_map]
    split_ifs
    · exact ih (longer best cur) [p] (place p)
    · simpa using ih best (cur ++ [p]) (place p)

theorem bestCluster_map {β : Type*} {place' : β → ℕ} {f : α → β} {k : ℕ}
    (hf : ∀ x, place' (f x) = place x + k) (l : List α) :
    bestCluster place' limit (l.map f) = (bestCluster place limit l).map f := by
  cases l with
  | nil => rfl
  | cons p ps =>
    rw [List.map_cons, bestCluster, hf]
    exact scanClusters_map hf [p] [p] (place p) ps

theorem longer_eq (best cur : List α) : longer best cur = best ∨ longer best cur = cur := by
  rw [longer]
  split_ifs
  · exact .inr rfl
  · exact .inl rfl

theorem scanClusters_contiguous {whole q best cur l : List α} {prev : ℕ} (hw : q ++ (cur ++ l) = whole)
    (hb : best <:+: whole) : scanClusters place limit best cur prev l <:+: whole := by
  have hlonger : longer best cur <:+: whole := by
    rcases longer_eq best cur with h | h <;> rw [h]
    · exact hb
    · exact ⟨q, l, by rw [← hw, List.append_assoc]⟩
  induction l generalizing q best cur prev with
  | nil => exact hlonger
  | cons p ps ih =>
    rw [scanClusters]
    split_ifs
    · have hw' : (q ++ cur) ++ ([p] ++ ps) = whole := by simpa using hw
      refine ih hw' hlonger ?_
      rcases longer_eq (longer best cur) [p] with h | h <;> rw [h]
      · exact hlonger
      · exact ⟨q ++ cur, ps, by simpa using hw'⟩
    · have hw' : q ++ ((cur ++ [p]) ++ ps) = whole := by simpa using hw
      refine ih hw' hb ?_
      rcases longer_eq best (cur ++ [p]) with h | h <;> rw [h]
      · exact hb
      · exact ⟨q, ps, by simpa using hw'⟩

theorem bestCluster_contiguous (l : List α) : bestCluster place limit l <:+: l := by
  cases l with
  | nil => exact List.infix_rfl
  | cons p ps => exact scanClusters_contiguous (q := []) rfl ⟨[], ps, rfl⟩

/-- A cluster of the scan of a whole list and the same cluster in the scan of the
part from `k` on: it is the same, or longer by items before `k`. -/
def Extends (place : α → ℕ) (k : ℕ) (c c' : List α) : Prop :=
  c = c' ∨ c'.length ≤ c.length ∧ ∃ x ∈ c, place x < k

theorem Extends.length_le {k : ℕ} {c c' : List α} (h : Extends place k c c') : c'.length ≤ c.length := by
  rcases h with rfl | ⟨h, -⟩
  · exact Nat.le_refl _
  · exact h

theorem Extends.longer {k : ℕ} {best best' cur cur' : List α} (hb : Extends place k best best')
    (hc : Extends place k cur cur') : Extends place k (longer best cur) (longer best' cur') := by
  have hb' := hb.length_le
  have hc' := hc.length_le
  rcases hc with rfl | ⟨-, hc⟩ <;> rcases hb with rfl | ⟨-, hb⟩ <;> simp only [Text.longer] <;>
    split_ifs <;>
    first
      | exact .inl rfl
      | exact .inr ⟨by omega, by assumption⟩
      | omega

theorem Extends.append {k : ℕ} {c c' : List α} (h : Extends place k c c') (x : α) :
    Extends place k (c ++ [x]) (c' ++ [x]) := by
  rcases h with rfl | ⟨h, y, hy, hk⟩
  · exact .inl rfl
  · exact .inr ⟨by simpa using h, y, List.mem_append_left _ hy, hk⟩

/-- The two scans go on with the best clusters so related. -/
theorem Extends.scanClusters {k : ℕ} {best best' cur cur' : List α} (hb : Extends place k best best')
    (hc : Extends place k cur cur') (prev : ℕ) (l : List α) :
    Extends place k (scanClusters place limit best cur prev l)
      (scanClusters place limit best' cur' prev l) := by
  induction l generalizing best best' cur cur' prev with
  | nil => exact hb.longer hc
  | cons p ps ih =>
    rw [Text.scanClusters, Text.scanClusters]
    split_ifs
    · exact ih (hb.longer hc) (.inl rfl) _
    · exact ih hb (hc.append p) _

/-- A scan of a first part leaves two clusters of items so far. -/
theorem scanClusters_append {k : ℕ} {best cur l₁ : List α} (prev : ℕ) (l₂ : List α)
    (hb : ∃ x ∈ best, place x < k) (hc : ∃ x ∈ cur, place x < k) (h₁ : ∀ x ∈ l₁, place x < k) :
    ∃ b c prev', (∃ x ∈ b, place x < k) ∧ (∃ x ∈ c, place x < k) ∧
      scanClusters place limit best cur prev (l₁ ++ l₂) = scanClusters place limit b c prev' l₂ := by
  induction l₁ generalizing best cur prev with
  | nil => exact ⟨best, cur, prev, hb, hc, rfl⟩
  | cons p ps ih =>
    have hp := h₁ p List.mem_cons_self
    have hps : ∀ x ∈ ps, place x < k := fun x hx => h₁ x (List.mem_cons_of_mem p hx)
    rw [List.cons_append, scanClusters]
    split_ifs
    · refine ih _ ?_ ⟨p, List.mem_singleton_self p, hp⟩ hps
      rcases longer_eq best cur with h | h <;> rw [h] <;> assumption
    · exact ih _ hb ⟨p, by simp, hp⟩ hps

/-- A best cluster behind the place `k` is the best cluster of the items from `k` on. -/
theorem bestCluster_append {k : ℕ} {l₁ l₂ : List α} (h₁ : ∀ x ∈ l₁, place x < k)
    (hlate : ∀ x ∈ bestCluster place limit (l₁ ++ l₂), k ≤ place x) :
    bestCluster place limit (l₁ ++ l₂) = bestCluster place limit l₂ := by
  cases l₁ with
  | nil => rfl
  | cons p ps =>
    have hp := h₁ p List.mem_cons_self
    obtain ⟨b, c, prev, ⟨x, hxb, hx⟩, ⟨y, hyc, hy⟩, h⟩ :=
      @scanClusters_append _ place limit k [p] [p] ps (place p) l₂ ⟨p, List.mem_singleton_self p, hp⟩
        ⟨p, List.mem_singleton_self p, hp⟩ fun z hz => h₁ z (List.mem_cons_of_mem p hz)
    rw [List.cons_append, bestCluster, h] at hlate ⊢
    cases l₂ with
    | nil =>
      rw [scanClusters] at hlate
      rcases longer_eq b c with h | h <;> rw [h] at hlate
      · exact absurd (hlate x hxb) (by omega)
      · exact absurd (hlate y hyc) (by omega)
    | cons t ts =>
      have hb : 1 ≤ b.length := List.length_pos_of_mem hxb
      have hc : 1 ≤ c.length := List.length_pos_of_mem hyc
      have hlong : Extends place k (longer b c) [t] := by
        refine .inr ⟨?_, ?_⟩ <;> rcases longer_eq b c with h | h <;> rw [h]
        · exact hb
        · exact hc
        · exact ⟨x, hxb, hx⟩
        · exact ⟨y, hyc, hy⟩
      have hext : Extends place k (scanClusters place limit b c prev (t :: ts))
          (bestCluster place limit (t :: ts)) := by
        rw [scanClusters, bestCluster]
        split_ifs
        · exact hlong.scanClusters (.inl rfl) _ _
        · have hbest : Extends place k b [t] := .inr ⟨hb, x, hxb, hx⟩
          have hcur : Extends place k (c ++ [t]) [t] :=
            .inr ⟨by simp, y, List.mem_append_left _ hyc, hy⟩
          exact hbest.scanClusters hcur _ _
      rcases hext with h | ⟨-, z, hz, hk⟩
      · exact h
      · exact absurd (hlate z hz) (by omega)

end ManyAiCli.Text
