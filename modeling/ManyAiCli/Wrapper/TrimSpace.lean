import ManyAiCli.Wrapper.RulesRoundTrip

/-! What the trimming of encoded characters leaves. It stops at a byte that no encoding has, it
depends only on the bytes in front, and it leaves alone what neither begins nor ends with an
encoding. -/

namespace ManyAiCli.Wrapper

open Text

variable {encodings : List Bytes} {b : UInt8} {s t x : Bytes} {skip n : ℕ}

/-! ### At the front -/

theorem dropEncoded_of_none (h : ∀ e ∈ encodings, ¬ e <+: s) : dropEncoded encodings 0 s = s := by
  cases s with
  | nil => rfl
  | cons c s =>
    have hfind : encodings.find? (·.isPrefixOf (c :: s)) = none := by
      rw [List.find?_eq_none]
      intro e he hstarts
      exact h e he (List.isPrefixOf_iff_prefix.1 hstarts)
    rw [dropEncoded, hfind]

/-- A byte that no encoding has stays, with all that follows it. -/
theorem suffix_dropEncoded (hb : ∀ e ∈ encodings, e ≠ [] ∧ b ∉ e) (hskip : skip ≤ x.length) (t : Bytes) :
    b :: t <:+ dropEncoded encodings skip (x ++ b :: t) := by
  induction x generalizing skip with
  | nil =>
    obtain rfl := Nat.le_zero.1 hskip
    rw [List.nil_append, dropEncoded_of_none]
    intro e he hstarts
    obtain ⟨hne, hclean⟩ := hb e he
    obtain ⟨c, e, rfl⟩ := List.exists_cons_of_ne_nil hne
    obtain ⟨rfl, -⟩ := List.cons_prefix_cons.1 hstarts
    exact hclean (List.mem_cons_self ..)
  | cons c x ih =>
    cases skip with
    | succ skip => exact ih (Nat.le_of_succ_le_succ hskip)
    | zero =>
      rw [List.cons_append, dropEncoded]
      cases hfind : encodings.find? (·.isPrefixOf (c :: (x ++ b :: t))) with
      | none => exact List.suffix_append (c :: x) (b :: t)
      | some e =>
        have hstarts : e.isPrefixOf (c :: (x ++ b :: t)) = true :=
          List.find?_some (p := fun e : Bytes => e.isPrefixOf (c :: (x ++ b :: t))) hfind
        obtain ⟨-, hclean⟩ := hb e (List.mem_of_find?_eq_some hfind)
        have hfront : e <+: c :: x :=
          prefix_of_prefix_append_cons hclean (List.isPrefixOf_iff_prefix.1 hstarts)
        have hlen := hfront.length_le
        rw [List.length_cons] at hlen
        exact ih (by omega)

/-- With enough left, more at the end makes no difference. -/
theorem dropEncoded_append (hn : ∀ e ∈ encodings, e.length ≤ n)
    (h : n ≤ (dropEncoded encodings skip s).length)
    (hpos : 0 < n) (t : Bytes) : dropEncoded encodings skip (s ++ t) = dropEncoded encodings skip s ++ t := by
  induction s generalizing skip with
  | nil =>
    have hnil : dropEncoded encodings skip [] = [] := by cases skip <;> rfl
    rw [hnil, List.length_nil] at h
    omega
  | cons c s ih =>
    cases skip with
    | succ skip => exact ih h
    | zero =>
      have hlong : n ≤ (c :: s).length := h.trans (dropEncoded_suffix encodings 0 (c :: s)).length_le
      have hsame : encodings.find? (·.isPrefixOf (c :: (s ++ t))) = encodings.find? (·.isPrefixOf (c :: s))
        := by
        apply find?_eq_of_agree
        intro e he
        rw [Bool.eq_iff_iff, List.isPrefixOf_iff_prefix, List.isPrefixOf_iff_prefix]
        constructor
        · intro hp
          exact List.prefix_of_prefix_length_le hp (List.prefix_append (c :: s) t) ((hn e he).trans hlong)
        · intro hp
          exact hp.trans (List.prefix_append (c :: s) t)
      rw [dropEncoded] at h
      rw [List.cons_append, dropEncoded, dropEncoded, hsame]
      cases hfind : encodings.find? (·.isPrefixOf (c :: s)) with
      | none => rfl
      | some e =>
        rw [hfind] at h
        exact ih h

/-- Encodings of which none begins with another are dropped one by one. -/
theorem dropEncoded_flatten (hfree : ∀ e ∈ encodings, ∀ e' ∈ encodings, e <+: e' → e = e')
    (hne : ∀ e ∈ encodings, e ≠ []) {front : List Bytes} (hfront : ∀ e ∈ front, e ∈ encodings)
    (ht : ∀ e ∈ encodings, ¬ e <+: t) : dropEncoded encodings 0 (front.flatten ++ t) = t := by
  induction front with
  | nil => exact dropEncoded_of_none ht
  | cons e front ih =>
    have he := hfront e (List.mem_cons_self ..)
    have hrest := ih fun e' he' => hfront e' (List.mem_cons_of_mem e he')
    obtain ⟨c, e', rfl⟩ := List.exists_cons_of_ne_nil (hne e he)
    have hfind : encodings.find? (·.isPrefixOf (c :: e' ++ (front.flatten ++ t))) = some (c :: e') := by
      have hself : (c :: e').isPrefixOf (c :: e' ++ (front.flatten ++ t)) = true :=
        List.isPrefixOf_iff_prefix.2 (List.prefix_append _ _)
      cases hfound : encodings.find? (·.isPrefixOf (c :: e' ++ (front.flatten ++ t))) with
      | none => exact absurd hself (List.find?_eq_none.1 hfound _ he)
      | some d =>
        have hd := List.mem_of_find?_eq_some hfound
        have hstarts : d.isPrefixOf (c :: e' ++ (front.flatten ++ t)) = true :=
          List.find?_some (p := fun d : Bytes => d.isPrefixOf (c :: e' ++ (front.flatten ++ t))) hfound
        have hd' := List.isPrefixOf_iff_prefix.1 hstarts
        have he' := List.prefix_append (c :: e') (front.flatten ++ t)
        rcases Nat.le_total d.length (c :: e').length with hle | hle
        · rw [hfree d hd _ he (List.prefix_of_prefix_length_le hd' he' hle)]
        · rw [hfree _ he d hd (List.prefix_of_prefix_length_le he' hd' hle)]
    have hskip : ∀ (u : Bytes) (m : ℕ), m = u.length →
        dropEncoded encodings m (u ++ (front.flatten ++ t)) = dropEncoded encodings 0 (front.flatten ++ t) :=
          by
      intro u
      induction u with
      | nil =>
        rintro _ rfl
        rfl
      | cons a u ihu =>
        rintro _ rfl
        exact ihu _ rfl
    rw [List.flatten_cons, List.append_assoc, List.cons_append, dropEncoded]
    rw [List.cons_append] at hfind
    rw [hfind]
    exact (hskip e' _ (by rw [List.length_cons, Nat.add_sub_cancel])).trans hrest

/-- A byte that no encoding has is left as often as it is there. -/
theorem count_dropEncoded {encodings : List Bytes} (hb : ∀ e ∈ encodings, e ≠ [] ∧ b ∉ e) (skip : ℕ)
    (s : Bytes) :
    (dropEncoded encodings skip s).count b = (s.drop skip).count b := by
  induction s generalizing skip with
  | nil => cases skip <;> rfl
  | cons c s ih =>
    cases skip with
    | succ skip => exact ih skip
    | zero =>
      rw [dropEncoded, List.drop_zero]
      cases hfind : encodings.find? (·.isPrefixOf (c :: s)) with
      | none => rfl
      | some e =>
        have hstarts : e.isPrefixOf (c :: s) = true := List.find?_some
          (p := fun e : Bytes => e.isPrefixOf (c :: s)) hfind
        obtain ⟨after, hs⟩ := List.isPrefixOf_iff_prefix.1 hstarts
        obtain ⟨hne, hclean⟩ := hb e (List.mem_of_find?_eq_some hfind)
        obtain ⟨d, e, rfl⟩ := List.exists_cons_of_ne_nil hne
        rw [List.cons_append] at hs
        obtain ⟨rfl, rfl⟩ := List.cons.inj hs
        show (dropEncoded encodings ((d :: e).length - 1) (e ++ after)).count b = _
        rw [List.mem_cons, not_or] at hclean
        rw [ih, List.length_cons, Nat.add_sub_cancel, List.drop_left, List.count_cons_of_ne
          (Ne.symm hclean.1),
          List.count_append, List.count_eq_zero_of_not_mem hclean.2, Nat.zero_add]

/-! ### White space -/

theorem trimSpaceBytes_isPrefix (s : Bytes) : trimSpaceBytes s <+: dropEncoded spaces 0 s := by
  rw [← List.reverse_suffix, trimSpaceBytes, List.reverse_reverse]
  exact dropEncoded_suffix _ 0 _

/-- A text between bytes that no white space has is kept. -/
theorem prefix_trimSpaceBytes_iff (hb : ∀ e ∈ spaces, e ≠ [] ∧ b ∉ e) :
    x ++ [b] <+: trimSpaceBytes s ↔ x ++ [b] <+: dropEncoded spaces 0 s := by
  constructor
  · intro h
    exact h.trans (trimSpaceBytes_isPrefix s)
  · rintro ⟨t, ht⟩
    rw [trimSpaceBytes, ← ht, List.append_assoc, List.reverse_append, List.reverse_append, List.append_assoc]
    rw [← List.reverse_suffix, List.reverse_reverse, List.reverse_append]
    refine suffix_dropEncoded ?_ (Nat.zero_le _) _
    intro e he
    obtain ⟨e', he', rfl⟩ := List.mem_map.1 he
    obtain ⟨hne, hclean⟩ := hb e' he'
    exact ⟨List.reverse_ne_nil_iff.2 hne, fun hm => hclean (List.mem_reverse.1 hm)⟩

/-- Neither begins nor ends with white space. -/
structure Trimmed (s : Bytes) : Prop where
  front : ∀ e ∈ spaces, ¬ e <+: s
  back : ∀ e ∈ spaces, ¬ e <:+ s

theorem Trimmed.trimSpaceBytes_eq (h : Trimmed s) : trimSpaceBytes s = s := by
  rw [trimSpaceBytes, dropEncoded_of_none h.front, dropEncoded_of_none, List.reverse_reverse]
  intro e he hstarts
  obtain ⟨e', he', rfl⟩ := List.mem_map.1 he
  exact h.back e' he' (List.reverse_prefix.1 hstarts)

theorem dropEncoded_length_lt (hne : ∀ e ∈ encodings, e ≠ []) {e : Bytes} (he : e ∈ encodings)
    (hstarts : e <+: s) :
    (dropEncoded encodings 0 s).length < s.length := by
  cases s with
  | nil => exact absurd (List.prefix_nil.1 hstarts) (hne e he)
  | cons c s =>
    rw [dropEncoded]
    cases hfind : encodings.find? (·.isPrefixOf (c :: s)) with
    | none => exact absurd (List.isPrefixOf_iff_prefix.2 hstarts) (List.find?_eq_none.1 hfind e he)
    | some d => exact Nat.lt_succ_of_le (dropEncoded_suffix encodings _ s).length_le

theorem trimmed_of_eq (h : trimSpaceBytes s = s) : Trimmed s := by
  have hne : ∀ e ∈ spaces, e ≠ [] := by decide
  have hle : s.length ≤ (dropEncoded spaces 0 s).length := by
    conv_lhs => rw [← h]
    exact (trimSpaceBytes_isPrefix s).length_le
  constructor
  · intro e he hstarts
    have hlt := dropEncoded_length_lt hne he hstarts
    omega
  · intro e he hends
    have hfront : dropEncoded spaces 0 s = s := (dropEncoded_suffix spaces 0 s).eq_of_length_le hle
    have hlt : (dropEncoded (spaces.map List.reverse) 0 s.reverse).length < s.reverse.length :=
      dropEncoded_length_lt
      (fun d hd => by
        obtain ⟨d', hd', rfl⟩ := List.mem_map.1 hd
        exact List.reverse_ne_nil_iff.2 (hne d' hd'))
      (List.mem_map_of_mem he) (List.reverse_prefix.2 hends)
    have hlen := congrArg List.length h
    rw [trimSpaceBytes, hfront, List.length_reverse] at hlen
    rw [List.length_reverse] at hlt
    omega

/-- At the end, an encoding of one byte that no other encoding has. -/
theorem dropEncoded_snoc (hb : [b] ∈ encodings) (hown : ∀ e ∈ encodings, e ≠ [] ∧ (b ∈ e → e = [b]))
    (hskip : skip ≤ x.length) : dropEncoded encodings skip (x ++ [b]) =
      if dropEncoded encodings skip x = [] then [] else dropEncoded encodings skip x ++ [b] := by
  induction x generalizing skip with
  | nil =>
    obtain rfl := Nat.le_zero.1 hskip
    rw [if_pos (show dropEncoded encodings 0 [] = [] from rfl), List.nil_append, dropEncoded]
    cases hfind : encodings.find? (·.isPrefixOf [b]) with
    | none => exact absurd (List.isPrefixOf_iff_prefix.2 List.prefix_rfl) (List.find?_eq_none.1 hfind _ hb)
    | some e => cases e.length - 1 <;> rfl
  | cons c x ih =>
    cases skip with
    | succ skip => exact ih (Nat.le_of_succ_le_succ hskip)
    | zero =>
      have hsame : encodings.find? (·.isPrefixOf (c :: (x ++ [b]))) = encodings.find? (·.isPrefixOf (c :: x))
        := by
        apply find?_eq_of_agree
        intro e he
        rw [Bool.eq_iff_iff, List.isPrefixOf_iff_prefix, List.isPrefixOf_iff_prefix]
        constructor
        · intro hp
          rcases List.prefix_concat_iff.1 (List.cons_append ▸ hp : e <+: (c :: x) ++ [b]) with heq | hfront
          · have hmem : b ∈ e := by
              rw [heq]
              exact List.mem_append_right _ (List.mem_singleton_self b)
            have hone := congrArg List.length ((hown e he).2 hmem)
            rw [heq, List.length_append, List.length_cons] at hone
            simp at hone
          · exact hfront
        · intro hp
          exact hp.trans (List.prefix_append (c :: x) [b])
      rw [List.cons_append, dropEncoded, dropEncoded, hsame]
      cases hfind : encodings.find? (·.isPrefixOf (c :: x)) with
      | none => rw [if_neg (List.cons_ne_nil c x), List.cons_append]
      | some e =>
        have hstarts : e.isPrefixOf (c :: x) = true :=
          List.find?_some (p := fun e : Bytes => e.isPrefixOf (c :: x)) hfind
        have hlen := (List.isPrefixOf_iff_prefix.1 hstarts).length_le
        rw [List.length_cons] at hlen
        exact ih (by omega)

theorem count_trimSpaceBytes (hb : ∀ e ∈ spaces, e ≠ [] ∧ b ∉ e) (s : Bytes) :
    (trimSpaceBytes s).count b = s.count b := by
  have hback : ∀ e ∈ spaces.map List.reverse, e ≠ [] ∧ b ∉ e := by
    intro e he
    obtain ⟨e', he', rfl⟩ := List.mem_map.1 he
    obtain ⟨hne, hclean⟩ := hb e' he'
    exact ⟨List.reverse_ne_nil_iff.2 hne, fun hm => hclean (List.mem_reverse.1 hm)⟩
  rw [trimSpaceBytes, List.count_reverse, count_dropEncoded hback, List.drop_zero, List.count_reverse,
    count_dropEncoded hb, List.drop_zero]

theorem length_trimSpaceBytes_le (s : Bytes) : (trimSpaceBytes s).length ≤ s.length :=
    (infix_trimSpaceBytes s).length_le

theorem trimSpaceBytes_eq_of_length (h : s.length ≤ (trimSpaceBytes s).length) : trimSpaceBytes s = s :=
  (infix_trimSpaceBytes s).eq_of_length_le h

theorem spaces_newline : [newline] ∈ spaces ∧ ∀ e ∈ spaces, e ≠ [] ∧ (newline ∈ e → e = [newline]) := by
  decide

theorem trimSpaceBytes_newline (x : Bytes) : trimSpaceBytes (x ++ [newline]) = trimSpaceBytes x := by
  obtain ⟨hmem, hown⟩ := spaces_newline
  rw [trimSpaceBytes, dropEncoded_snoc hmem hown (Nat.zero_le _), trimSpaceBytes]
  split_ifs with hempty
  · rw [hempty]
  · rw [List.reverse_append, List.reverse_singleton, List.singleton_append]
    have hdrop : dropEncoded (spaces.map List.reverse) 0 (newline :: (dropEncoded spaces 0 x).reverse) =
        dropEncoded (spaces.map List.reverse) 0 (dropEncoded spaces 0 x).reverse := by
      rw [dropEncoded]
      cases hfind : (spaces.map List.reverse).find?
        (·.isPrefixOf (newline :: (dropEncoded spaces 0 x).reverse)) with
      | none =>
        refine absurd ?_ (List.find?_eq_none.1 hfind _ (List.mem_map_of_mem hmem))
        exact List.isPrefixOf_iff_prefix.2 (List.cons_prefix_cons.2 ⟨rfl, List.nil_prefix⟩)
      | some e =>
        obtain ⟨e', he', rfl⟩ := List.mem_map.1 (List.mem_of_find?_eq_some hfind)
        have hstarts : e'.reverse.isPrefixOf (newline :: (dropEncoded spaces 0 x).reverse) = true :=
          List.find?_some (p := fun e : Bytes => e.isPrefixOf (newline :: (dropEncoded spaces 0 x).reverse))
            hfind
        obtain ⟨hne, hone⟩ := hown e' he'
        have hin : newline ∈ e' := by
          obtain ⟨c, u, hcu⟩ := List.exists_cons_of_ne_nil (List.reverse_ne_nil_iff.2 hne)
          rw [hcu] at hstarts
          obtain ⟨rfl, -⟩ := List.cons_prefix_cons.1 (List.isPrefixOf_iff_prefix.1 hstarts)
          rw [← List.mem_reverse, hcu]
          exact List.mem_cons_self ..
        rw [hone hin]
        rfl
    rw [hdrop]

end ManyAiCli.Wrapper
