import Mathlib.Data.List.Basic
import Mathlib.Order.Nat
import Mathlib.Tactic.Common

/-! Borders of a word: its prefixes that are suffixes too. The table holds the longest proper border of
every prefix; an entry is found from the one before by falling back along shorter borders until one can
be extended. -/

namespace ManyAiCli.Text

variable {α : Type*}

/-- The first `k` letters are the last ones too. -/
def Border (w : List α) (k : ℕ) : Prop := k ≤ w.length ∧ w.take k <:+ w

/-- The longest border that is not the whole word. -/
structure LongestBorder (w : List α) (b : ℕ) : Prop where
  border : Border w b
  proper : b < w.length
  longest : ∀ k < w.length, Border w k → k ≤ b

section

variable {w u v : List α} {k b : ℕ} {c : α}

theorem border_zero (w : List α) : Border w 0 := ⟨Nat.zero_le _, List.nil_suffix⟩

/-- A shorter border is a border of a longer one. -/
theorem border_take (hb : Border w b) (hk : k ≤ b) : Border (w.take b) k ↔ Border w k := by
  have htake : (w.take b).take k = w.take k := by rw [List.take_take, min_eq_left hk]
  have hlen : (w.take b).length = b := List.length_take_of_le hb.1
  constructor
  · rintro ⟨-, hs⟩
    rw [htake] at hs
    exact ⟨hk.trans hb.1, hs.trans hb.2⟩
  · rintro ⟨-, hs⟩
    refine ⟨by omega, ?_⟩
    rw [htake]
    refine List.suffix_of_suffix_length_le hs hb.2 ?_
    simp only [List.length_take]
    omega

theorem suffix_concat_iff {x y : α} : u ++ [x] <:+ v ++ [y] ↔ u <:+ v ∧ x = y := by
  constructor
  · rintro ⟨t, ht⟩
    rw [← List.append_assoc] at ht
    obtain ⟨h1, h2⟩ := List.append_inj' ht rfl
    exact ⟨⟨t, h1⟩, List.cons.inj h2 |>.1⟩
  · rintro ⟨⟨t, rfl⟩, rfl⟩
    exact ⟨t, List.append_assoc .. |>.symm⟩

/-- The borders of a word with one more letter extend borders of the word. -/
theorem border_concat_succ (hk : k < w.length) :
    Border (w ++ [c]) (k + 1) ↔ Border w k ∧ w[k]? = some c := by
  have htake : (w ++ [c]).take (k + 1) = w.take k ++ [w[k]] := by
    rw [List.take_append_of_le_length hk, List.take_succ_eq_append_getElem hk]
  rw [Border, htake, suffix_concat_iff, Border, List.getElem?_eq_getElem hk, List.length_append,
    Option.some.injEq]
  constructor
  · rintro ⟨-, hs, he⟩
    exact ⟨⟨hk.le, hs⟩, he⟩
  · rintro ⟨⟨-, hs⟩, he⟩
    exact ⟨by simp; omega, hs, he⟩

end

/-! ### The table -/

section

variable [DecidableEq α]

/-- Fall back from border to border until one can be extended by the letter. -/
def fallBack (w : List α) (table : List ℕ) (c : α) : ℕ → ℕ → ℕ
  | 0, j => j
  | fuel + 1, j =>
    if 0 < j ∧ w[j]? ≠ some c then fallBack w table c fuel (table.getD (j - 1) 0) else j

/-- The next entry of a table. -/
def nextBorder (w : List α) (table : List ℕ) (c : α) : ℕ :=
  let j := fallBack w table c table.length (table.getLastD 0)
  if w[j]? = some c then j + 1 else j

/-- The entries for `w` with the letters `rest` still to come. -/
def borderTable (w : List α) : List ℕ → List α → List ℕ
  | table, [] => table
  | table, c :: rest => borderTable w (table ++ [nextBorder w table c]) rest

/-- The table is right as far as it goes. -/
def TableOf (w : List α) (table : List ℕ) : Prop :=
  ∀ i b, table[i]? = some b → LongestBorder (w.take (i + 1)) b

variable {w u : List α} {table : List ℕ} {c : α} {j : ℕ}

/-- The fall back ends at the longest border that the letter extends, or at the empty one. -/
theorem fallBack_spec (ht : TableOf w table) (hu : u = w.take table.length) (hlen : u.length = table.length) :
    ∀ fuel j, j ≤ fuel → j < u.length → Border u j → (∀ k < u.length, Border u k → w[k]? = some c → k ≤ j) →
      Border u (fallBack w table c fuel j) ∧ fallBack w table c fuel j < u.length ∧
        (∀ k < u.length, Border u k → w[k]? = some c → k ≤ fallBack w table c fuel j) ∧
        (0 < fallBack w table c fuel j → w[fallBack w table c fuel j]? = some c)
  | 0, j, hj, hlt, hb, hmax => by
    obtain rfl : j = 0 := by omega
    exact ⟨hb, hlt, hmax, fun h => absurd h (lt_irrefl 0)⟩
  | fuel + 1, j, hj, hlt, hb, hmax => by
    rw [fallBack]
    split_ifs with h
    · obtain ⟨hpos, hne⟩ := h
      have hidx : j - 1 < table.length := by omega
      obtain ⟨b, hget⟩ : ∃ b, table[j - 1]? = some b := ⟨_, List.getElem?_eq_getElem hidx⟩
      have hd : table.getD (j - 1) 0 = b := by rw [List.getD_eq_getElem?_getD, hget]; rfl
      have hlong := ht (j - 1) b hget
      have htake : w.take (j - 1 + 1) = u.take j := by
        rw [hu, List.take_take, Nat.sub_add_cancel hpos, min_eq_left (by omega)]
      rw [htake] at hlong
      have hjlen : (u.take j).length = j := List.length_take_of_le hb.1
      have hbj : b < j := hjlen ▸ hlong.proper
      rw [hd]
      refine fallBack_spec ht hu hlen fuel b (by omega) (by omega) ((border_take hb hbj.le).1 hlong.border)
        fun k hk hkb hkc => ?_
      have hkj : k < j := lt_of_le_of_ne (hmax k hk hkb hkc) (by rintro rfl; exact hne hkc)
      exact hlong.longest k (by omega) ((border_take hb hkj.le).2 hkb)
    · refine ⟨hb, hlt, hmax, fun hpos => ?_⟩
      by_contra hne
      exact h ⟨hpos, hne⟩

theorem nextBorder_spec (ht : TableOf w table) (h0 : table ≠ [])
    (hc : w[table.length]? = some c) : LongestBorder (w.take (table.length + 1)) (nextBorder w table c) := by
  obtain ⟨hn, hce⟩ := List.getElem?_eq_some_iff.1 hc
  set u := w.take table.length with hu
  have hlen : u.length = table.length := List.length_take_of_le hn.le
  have hw : w.take (table.length + 1) = u ++ [c] := by rw [List.take_succ_eq_append_getElem hn, hce]
  have hpos : 0 < table.length := List.length_pos_of_ne_nil h0
  have hget {k : ℕ} (hk : k < u.length) : w[k]? = u[k]? := by
    rw [hu, List.getElem?_take_of_lt (by omega)]
  have hlast : LongestBorder u (table.getLastD 0) := by
    have := ht (table.length - 1) (table.getLastD 0) (by
      rw [List.getLastD_eq_getLast?, List.getLast?_eq_getElem?]
      rw [List.getElem?_eq_getElem (by omega)]
      rfl)
    rwa [Nat.sub_add_cancel hpos] at this
  obtain ⟨hb, hlt, hmax, hext⟩ := fallBack_spec ht hu hlen table.length (table.getLastD 0)
    (by have := hlast.proper; omega) hlast.proper hlast.border fun k hk hkb _ => hlast.longest k hk hkb
  rw [hw]
  unfold nextBorder
  generalize fallBack w table c table.length (table.getLastD 0) = b at *
  have hbound : ∀ k < (u ++ [c]).length, Border (u ++ [c]) k → k = 0 ∨ ∃ m, k = m + 1 ∧ m < u.length ∧
      Border u m ∧ w[m]? = some c := by
    intro k hk hkb
    rcases k with _ | m
    · exact .inl rfl
    · have hm : m < u.length := by simpa using hk
      obtain ⟨h1, h2⟩ := (border_concat_succ hm).1 hkb
      exact .inr ⟨m, rfl, hm, h1, by rw [hget hm]; exact h2⟩
  dsimp only
  split_ifs with he
  · refine ⟨(border_concat_succ hlt).2 ⟨hb, by rw [← hget hlt]; exact he⟩, by simp; omega, fun k hk hkb => ?_⟩
    rcases hbound k hk hkb with rfl | ⟨m, rfl, hm, hmb, hmc⟩
    · exact Nat.zero_le _
    · exact Nat.succ_le_succ (hmax m hm hmb hmc)
  · obtain rfl : b = 0 := by
      by_contra hb0
      exact he (hext (Nat.pos_of_ne_zero hb0))
    refine ⟨border_zero _, by simp, fun k hk hkb => ?_⟩
    rcases hbound k hk hkb with rfl | ⟨m, rfl, hm, hmb, hmc⟩
    · exact le_rfl
    · obtain rfl : m = 0 := Nat.le_zero.1 (hmax m hm hmb hmc)
      exact absurd hmc he

theorem borderTable_spec {rest : List α} (ht : TableOf w table) (h0 : table ≠ [])
    (hw : w = w.take table.length ++ rest) :
    TableOf w (borderTable w table rest) ∧ (borderTable w table rest).length = table.length + rest.length := by
  induction rest generalizing table with
  | nil => exact ⟨ht, rfl⟩
  | cons c rest ih =>
    rw [borderTable]
    have hle : table.length ≤ w.length := by
      by_contra hlt
      rw [List.take_of_length_le (by omega)] at hw
      simpa using congrArg List.length hw
    have hc : w[table.length]? = some c := by
      have h := congrArg (·[table.length]?) hw
      simpa [List.getElem?_append_right, hle] using h
    have hnext : TableOf w (table ++ [nextBorder w table c]) := by
      intro i b hi
      rcases Nat.lt_trichotomy i table.length with hlt | rfl | hgt
      · exact ht i b (by rwa [List.getElem?_append_left hlt] at hi)
      · obtain rfl : nextBorder w table c = b := by simpa using hi
        exact nextBorder_spec ht h0 hc
      · rw [List.getElem?_eq_none (by simp; omega)] at hi
        exact absurd hi (by simp)
    have htake : w.take (table.length + 1) = w.take table.length ++ [c] := by
      obtain ⟨hn, hce⟩ := List.getElem?_eq_some_iff.1 hc
      rw [List.take_succ_eq_append_getElem hn, hce]
    obtain ⟨h1, h2⟩ := ih hnext (by simp) (by
      rw [List.length_append, List.length_singleton, htake, List.append_assoc]
      exact hw)
    refine ⟨h1, ?_⟩
    rw [h2, List.length_append, List.length_singleton, List.length_cons]
    omega

/-- The whole table of a word, begun with the entry of its first letter. -/
theorem borderTable_last (hw : w ≠ []) : LongestBorder w ((borderTable w [0] (w.drop 1)).getLastD 0) := by
  obtain ⟨c, t, rfl⟩ := List.exists_cons_of_ne_nil hw
  have hstart : TableOf (c :: t) [0] := by
    intro i b hi
    match i, hi with
    | 0, hi =>
      obtain rfl : 0 = b := by simpa using hi
      refine ⟨border_zero _, by simp, fun k hk _ => ?_⟩
      simp only [Nat.zero_add, List.take_succ_cons, List.take_zero, List.length_singleton] at hk
      omega
    | i + 1, hi => simp at hi
  obtain ⟨ht, hlen⟩ : TableOf (c :: t) (borderTable (c :: t) [0] t) ∧ _ := borderTable_spec hstart (by simp) rfl
  have hlen' : (borderTable (c :: t) [0] t).length = t.length + 1 := by
    rw [hlen, List.length_singleton, Nat.add_comm]
  have hlast := ht t.length ((borderTable (c :: t) [0] t).getLastD 0) (by
    rw [List.getLastD_eq_getLast?, List.getLast?_eq_getElem?, hlen', Nat.add_sub_cancel]
    rw [List.getElem?_eq_getElem (by omega)]
    rfl)
  rwa [List.take_of_length_le (by simp)] at hlast

end

/-! ### Overlaps -/

section

variable {u v : List α} {z : α} {k b : ℕ}

/-- A letter that is not in the first half keeps a border from reaching across it. -/
theorem border_join_le (hz : z ∉ u) (hv : v.length ≤ u.length) (hb : Border (u ++ z :: v) b)
    (hlt : b < (u ++ z :: v).length) : b ≤ u.length := by
  by_contra hgt
  obtain ⟨x, hx⟩ := hb.2
  simp only [List.length_append, List.length_cons] at hlt
  have hlen := congrArg List.length hx
  simp only [List.length_append, List.length_take, List.length_cons] at hlen
  -- The letter stands at `u.length`, and the border's copy of that place lies in `u`.
  have hplace : (u ++ z :: v)[u.length]? = some z := by simp
  have hcopy : (u ++ z :: v)[u.length]? = u[u.length - x.length]? := by
    conv_lhs => rw [← hx]
    rw [List.getElem?_append_right (by omega), List.getElem?_take_of_lt (by omega),
      List.getElem?_append_left (by omega)]
  exact hz (List.mem_of_getElem? (hcopy.symm.trans hplace))

theorem border_join_iff (hu : k ≤ u.length) (hv : k ≤ v.length) :
    Border (u ++ z :: v) k ↔ u.take k <:+ v := by
  have hv' : v <:+ u ++ z :: v := ⟨u ++ [z], by simp⟩
  rw [Border, List.take_append_of_le_length hu]
  constructor
  · rintro ⟨-, hs⟩
    exact List.suffix_of_suffix_length_le hs hv' (by simp; omega)
  · intro hs
    exact ⟨by simp; omega, hs.trans hv'⟩

/-- The longest border of two words of one length around a letter that the first one lacks is their
longest overlap. -/
theorem LongestBorder.overlap (h : LongestBorder (u ++ z :: v) b) (hz : z ∉ u) (hv : v.length = u.length) :
    b ≤ u.length ∧ u.take b <:+ v ∧ ∀ k ≤ u.length, u.take k <:+ v → k ≤ b := by
  have hb : b ≤ u.length := border_join_le hz hv.le h.border h.proper
  refine ⟨hb, (border_join_iff hb (hv ▸ hb)).1 h.border, fun k hk hs => ?_⟩
  exact h.longest k (by simp; omega) ((border_join_iff hk (hv ▸ hk)).2 hs)

end

end ManyAiCli.Text
