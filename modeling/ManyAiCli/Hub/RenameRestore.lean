import ManyAiCli.Hub.GitNumstat

/-! Does the new path of a rename come out of its line, and does any other path stay as it is? The reader
takes the first brace of either kind for the notation's own. A line is told from the path by what it
still has of the arrow or of a brace. -/

namespace ManyAiCli.Hub.GitNumstat

open Text Wrapper

/-! ### Slashes -/

variable {b : UInt8} {s t : Bytes} {skip : ℕ}

theorem slashes_cons (c : UInt8) (s : Bytes) : slashes (c :: s) = none ∧ ¬ [slash, slash] <+: c :: s ∨
    ∃ s', c = slash ∧ s = slash :: s' ∧ slashes (c :: s) = some 2 := by
  by_cases h : [slash, slash] <+: c :: s
  · right
    obtain ⟨rfl, h'⟩ := List.cons_prefix_cons.1 h
    obtain ⟨s', rfl⟩ := h'
    exact ⟨s', rfl, rfl, if_pos h⟩
  · exact .inl ⟨if_neg h, h⟩

theorem count_replaceAll (hb : b ≠ slash) (skip : ℕ) (s : Bytes) :
    (replaceAll slashes [slash] skip s).count b = (s.drop skip).count b := by
  induction s generalizing skip with
  | nil => cases skip <;> rfl
  | cons c s ih =>
    cases skip with
    | succ skip => exact ih skip
    | zero =>
      rw [replaceAll, List.drop_zero]
      rcases slashes_cons c s with ⟨hnone, -⟩ | ⟨s', rfl, rfl, htwo⟩
      · rw [hnone, List.count_cons, List.count_cons]
        show List.count b (replaceAll _ _ 0 s) + _ = _
        rw [ih 0, List.drop_zero]
      · rw [htwo]
        show List.count b (slash :: replaceAll _ _ 1 (slash :: s')) = _
        rw [List.count_cons_of_ne hb.symm, ih 1, List.drop_one, List.tail_cons, List.count_cons_of_ne hb.symm,
          List.count_cons_of_ne hb.symm]

theorem length_replaceAll_le (skip : ℕ) (s : Bytes) :
    (replaceAll slashes [slash] skip s).length ≤ (s.drop skip).length := by
  induction s generalizing skip with
  | nil => cases skip <;> rfl
  | cons c s ih =>
    cases skip with
    | succ skip => exact ih skip
    | zero =>
      rw [replaceAll, List.drop_zero]
      rcases slashes_cons c s with ⟨hnone, -⟩ | ⟨s', rfl, rfl, htwo⟩
      · rw [hnone]
        exact Nat.succ_le_succ (ih 0)
      · rw [htwo]
        have hle := ih 1
        rw [List.drop_one, List.tail_cons] at hle
        show (slash :: replaceAll _ _ 1 (slash :: s')).length ≤ _
        rw [List.length_cons, List.length_cons, List.length_cons]
        omega

theorem length_replaceAll_lt (h : [slash, slash] <:+: s) :
    (replaceAll slashes [slash] 0 s).length < s.length := by
  induction s with
  | nil => exact absurd (List.infix_nil.1 h) (List.cons_ne_nil _ _)
  | cons c s ih =>
    rw [replaceAll]
    rcases slashes_cons c s with ⟨hnone, hnot⟩ | ⟨s', rfl, rfl, htwo⟩
    · rw [hnone]
      exact Nat.succ_lt_succ (ih ((List.infix_cons_iff.1 h).resolve_left hnot))
    · rw [htwo]
      have hle := length_replaceAll_le 1 (slash :: s')
      rw [List.drop_one, List.tail_cons] at hle
      show (slash :: replaceAll _ _ 1 (slash :: s')).length < _
      rw [List.length_cons, List.length_cons, List.length_cons]
      omega

theorem count_foldSlashes (hb : b ≠ slash) (rounds : ℕ) (s : Bytes) :
    (foldSlashes rounds s).count b = s.count b := by
  induction rounds generalizing s with
  | zero => rfl
  | succ rounds ih =>
    rw [foldSlashes]
    split_ifs
    · rw [ih, count_replaceAll hb, List.drop_zero]
    · rfl

theorem foldSlashes_of_clean (h : ¬ [slash, slash] <:+: s) (rounds : ℕ) : foldSlashes rounds s = s := by
  cases rounds with
  | zero => rfl
  | succ rounds => rw [foldSlashes, if_neg h]

theorem length_foldSlashes_le (rounds : ℕ) (s : Bytes) : (foldSlashes rounds s).length ≤ s.length := by
  induction rounds generalizing s with
  | zero => exact Nat.le_refl _
  | succ rounds ih =>
    rw [foldSlashes]
    split_ifs
    · exact (ih _).trans (length_replaceAll_le 0 s)
    · exact Nat.le_refl _

theorem foldSlashes_eq_of_length {rounds : ℕ} (h : s.length ≤ (foldSlashes rounds s).length) :
    foldSlashes rounds s = s := by
  cases rounds with
  | zero => rfl
  | succ rounds =>
    rw [foldSlashes] at h ⊢
    split_ifs at h ⊢ with htwo
    · have hlt := length_replaceAll_lt htwo
      have hle := length_foldSlashes_le rounds (replaceAll slashes [slash] 0 s)
      omega
    · rfl

/-- Two slashes where there should be one. -/
theorem foldSlashes_doubled (h : ¬ [slash, slash] <:+: s ++ slash :: t) (rounds : ℕ) :
    foldSlashes (rounds + 1) (s ++ slash :: slash :: t) = s ++ slash :: t := by
  have hdouble : [slash, slash] <:+: s ++ slash :: slash :: t := ⟨s, t, by simp⟩
  have hfront : ∀ u, u ≠ [] → u <:+ s → slashes (u ++ slash :: slash :: t) = none := by
    intro u hne hu
    refine if_neg fun hp => h ?_
    have hshort : [slash, slash] <+: u ++ [slash] := by
      refine List.prefix_of_prefix_length_le hp ⟨slash :: t, by simp⟩ ?_
      have hlen := List.length_pos_of_ne_nil hne
      rw [List.length_append, List.length_cons, List.length_cons]
      simp only [List.length_nil]
      omega
    obtain ⟨w, rfl⟩ := hu
    exact hshort.isInfix.trans ⟨w, t, by simp⟩
  have hback : replaceAll slashes [slash] 0 t = t := by
    apply replaceAll_of_none
    intro u _ hu
    refine if_neg fun hp => h ?_
    obtain ⟨w, rfl⟩ := hu
    exact hp.isInfix.trans ⟨s ++ slash :: w, [], by simp⟩
  have hmatch : slashes (slash :: slash :: t) = some 2 := if_pos ⟨t, rfl⟩
  rw [foldSlashes, if_pos hdouble, replaceAll_append s _ hfront, replaceAll_match (List.cons_ne_nil _ _)
    hmatch,
    List.drop_succ_cons, List.drop_succ_cons, List.drop_zero, hback]
  exact foldSlashes_of_clean h rounds

theorem trimSlash_eq (h : ¬ [slash] <:+ s) : trimSlash s = s := if_neg h

theorem length_trimSlash_le (s : Bytes) : (trimSlash s).length ≤ s.length := by
  rw [trimSlash]
  split_ifs
  · rw [List.length_dropLast]
    omega
  · exact Nat.le_refl _

theorem trimSlash_eq_of_length (h : s.length ≤ (trimSlash s).length) : trimSlash s = s := by
  rw [trimSlash] at h ⊢
  split_ifs at h ⊢ with hends
  · have hlen := hends.length_le
    rw [List.length_dropLast] at h
    rw [List.length_singleton] at hlen
    omega
  · rfl

theorem count_trimSlash (hb : b ≠ slash) (s : Bytes) : (trimSlash s).count b = s.count b := by
  rw [trimSlash]
  split_ifs with hends
  · obtain ⟨w, rfl⟩ := hends
    rw [List.dropLast_concat, List.count_append, List.count_singleton, if_neg (by simpa using hb.symm),
      Nat.add_zero]
  · rfl

theorem count_cleanPath (hb : b ≠ slash) (s : Bytes) : (cleanPath s).count b = s.count b := by
  rw [cleanPath, count_trimSlash hb, count_foldSlashes hb]

theorem length_cleanPath_le (s : Bytes) : (cleanPath s).length ≤ s.length :=
  (length_trimSlash_le _).trans (length_foldSlashes_le _ s)

theorem cleanPath_eq_of_length (h : s.length ≤ (cleanPath s).length) : cleanPath s = s := by
  rw [cleanPath] at h ⊢
  have hfold := foldSlashes_eq_of_length (h.trans (length_trimSlash_le _))
  rw [hfold] at h ⊢
  exact trimSlash_eq_of_length h

theorem slash_notMem_components {path : Bytes} (h : IsPath path) : ¬ [slash, slash] <:+: path ∧ ¬ [slash] <:+
    path := by
  constructor
  · rintro ⟨l, r, rfl⟩
    refine h.components [] ?_ rfl
    rw [List.append_assoc, List.cons_append, List.singleton_append, List.splitOn_append_cons_self,
      ← List.nil_append (slash :: r), List.splitOn_append_cons_self, List.splitOn_nil]
    simp
  · rintro ⟨l, rfl⟩
    refine h.components [] ?_ rfl
    rw [List.splitOn_append_cons_self, List.splitOn_nil]
    simp

theorem cleanPath_of_isPath {path : Bytes} (h : IsPath path) : cleanPath path = path := by
  obtain ⟨htwo, hends⟩ := slash_notMem_components h
  rw [cleanPath, foldSlashes_of_clean htwo, trimSlash_eq hends]

theorem cleanPath_doubled (h : IsPath (s ++ slash :: t)) : cleanPath (s ++ slash :: slash :: t) = s ++ slash
    :: t := by
  obtain ⟨htwo, hends⟩ := slash_notMem_components h
  have hlen : (s ++ slash :: slash :: t).length = (s.length + t.length + 1) + 1 := by
    rw [List.length_append, List.length_cons, List.length_cons]
    omega
  rw [cleanPath, hlen, foldSlashes_doubled htwo, trimSlash_eq hends]

/-! ### The braces the reader takes -/

variable {path pfx inner sfx : Bytes}

/-- The first braces of either kind are a pair. -/
structure IsPair (path pfx inner sfx : Bytes) : Prop where
  path_eq : path = pfx ++ lBrace :: (inner ++ rBrace :: sfx)
  prefix_open : lBrace ∉ pfx
  prefix_close : rBrace ∉ pfx
  inner_close : rBrace ∉ inner

/-- The path around the closing brace. -/
theorem IsPair.around (h : IsPair path pfx inner sfx) :
    path = (pfx ++ lBrace :: inner) ++ rBrace :: sfx ∧ rBrace ∉ pfx ++ lBrace :: inner := by
  constructor
  · rw [h.path_eq, List.append_assoc, List.cons_append]
  · rw [List.mem_append, List.mem_cons, not_or, not_or]
    exact ⟨h.prefix_close, by decide, h.inner_close⟩

theorem IsPair.bracePair_eq (h : IsPair path pfx inner sfx) :
    bracePair path = some (pfx.length, pfx.length + inner.length + 1) := by
  have hr : index [rBrace] path = some (pfx.length + inner.length + 1) := by
    rw [h.around.1, index_first h.around.2, List.length_append, List.length_cons]
    rfl
  have hl : index [lBrace] path = some pfx.length := by
    rw [h.path_eq]
    exact index_first h.prefix_open _
  rw [bracePair, hl, hr]
  exact if_pos (by omega)

theorem exists_isPair {l r : ℕ} (h : bracePair path = some (l, r)) : ∃ pfx inner sfx, IsPair path pfx inner
    sfx := by
  rw [bracePair] at h
  cases hl : index [lBrace] path with
  | none =>
    rw [hl] at h
    exact absurd h (by simp)
  | some i =>
    cases hr : index [rBrace] path with
    | none =>
      rw [hl, hr] at h
      exact absurd h (by simp)
    | some j =>
      rw [hl, hr] at h
      obtain ⟨hlt, -⟩ := Option.ite_none_right_eq_some.1 h
      obtain ⟨pfx, t, hpath, rfl, hopen⟩ := exists_of_index_one hl
      obtain ⟨p, sfx, hpath', rfl, hclose⟩ := exists_of_index_one hr
      rw [hpath'] at hpath
      rcases List.append_eq_append_iff.1 hpath with ⟨u, rfl, -⟩ | ⟨u, rfl, hu⟩
      · rw [List.length_append] at hlt
        omega
      · cases u with
        | nil =>
          rw [List.append_nil] at hlt
          exact absurd hlt (Nat.lt_irrefl _)
        | cons c inner =>
          obtain ⟨rfl, -⟩ := List.cons_eq_cons.1 hu
          rw [List.mem_append, List.mem_cons, not_or, not_or] at hclose
          exact ⟨pfx, inner, sfx, by rw [hpath', List.append_assoc, List.cons_append], hopen, hclose.1,
            hclose.2.2⟩

theorem IsPair.between_eq (h : IsPair path pfx inner sfx) :
    between path pfx.length (pfx.length + inner.length + 1) = inner := by
  have hdrop : path.drop (pfx.length + 1) = inner ++ rBrace :: sfx := by
    rw [h.path_eq, ← List.drop_drop, List.drop_left, List.drop_succ_cons, List.drop_zero]
  rw [between, hdrop, show pfx.length + inner.length + 1 - pfx.length - 1 = inner.length by omega,
    List.take_left]

theorem restore_of_no_pair (h : bracePair path = none) : gitNumstatRestoreRenamePath path =
    match lastIndex arrow path with
    | some i => trimSpaceBytes (path.drop (i + 4))
    | none => path := by
  cases hi : lastIndex arrow path with
  | none => simp only [gitNumstatRestoreRenamePath, h, hi]
  | some i => simp only [gitNumstatRestoreRenamePath, h, hi]

/-- The path with the part after the arrow in place of the braces. -/
theorem IsPair.restore_eq (h : IsPair path pfx inner sfx) : gitNumstatRestoreRenamePath path =
    match index arrow inner with
    | none => path
    | some i => cleanPath (pfx ++ trimSpaceBytes (inner.drop (i + 4)) ++ sfx) := by
  have hfront : path.take pfx.length = pfx := by rw [h.path_eq, List.take_left]
  have hback : path.drop (pfx.length + inner.length + 1 + 1) = sfx := by
    have hlen : pfx.length + inner.length + 1 + 1 = (pfx ++ lBrace :: inner).length + 1 := by
      rw [List.length_append, List.length_cons]
      omega
    rw [h.around.1, hlen, ← List.drop_drop, List.drop_left, List.drop_succ_cons, List.drop_zero]
  rw [gitNumstatRestoreRenamePath, h.bracePair_eq]
  show (match index arrow (between path _ _) with
    | none => path
    | some i => cleanPath (path.take _ ++ _ ++ path.drop _)) = _
  rw [h.between_eq, hfront, hback]

/-! ### The arrow -/

/-- The byte by which what is left of a line is told from a path. -/
def greater : UInt8 := 0x3E

theorem spaces_greater : ∀ e ∈ spaces, e ≠ [] ∧ greater ∉ e := by decide

theorem spaces_rBrace : ∀ e ∈ spaces, e ≠ [] ∧ rBrace ∉ e := by decide

theorem exists_of_index_arrow {i : ℕ} (h : index arrow inner = some i) :
    ∃ u v, inner = u ++ (arrow ++ v) ∧ u.length = i ∧ inner.drop (i + 4) = v := by
  obtain ⟨u, t, rfl, rfl, ⟨v, rfl⟩, -⟩ := exists_of_index h
  refine ⟨u, v, rfl, rfl, ?_⟩
  rw [← List.drop_drop, List.drop_left]
  rfl

namespace IsPair

theorem restore_of_arrow (h : IsPair path pfx inner sfx) {i : ℕ} (hi : index arrow inner = some i) :
    gitNumstatRestoreRenamePath path = cleanPath (pfx ++ trimSpaceBytes (inner.drop (i + 4)) ++ sfx) := by
  rw [h.restore_eq, hi]

theorem le_count_restore (h : IsPair path pfx inner sfx) (b : UInt8) (hb : b ≠ slash) :
    pfx.count b + sfx.count b ≤ (gitNumstatRestoreRenamePath path).count b := by
  rw [h.restore_eq]
  cases index arrow inner with
  | none =>
    show _ ≤ path.count b
    rw [h.path_eq, List.count_append, List.count_cons, List.count_append, List.count_cons]
    omega
  | some i =>
    show _ ≤ (cleanPath _).count b
    rw [count_cleanPath hb, List.count_append, List.count_append]
    omega

theorem count_restore_of_arrow (h : IsPair path pfx inner sfx) {i : ℕ} (hi : index arrow inner = some i)
    (b : UInt8)
    (hb : b ≠ slash) (hspaces : ∀ e ∈ spaces, e ≠ [] ∧ b ∉ e) :
    (gitNumstatRestoreRenamePath path).count b = pfx.count b + (inner.drop (i + 4)).count b + sfx.count b :=
      by
  rw [h.restore_of_arrow hi, count_cleanPath hb, List.count_append, List.count_append, count_trimSpaceBytes
    hspaces]

end IsPair

theorem count_arrow : arrow.count greater = 1 := by decide

/-- A path stays as it is where no arrow is taken for that of a rename. -/
theorem restore_eq_self_iff (path : Bytes) : gitNumstatRestoreRenamePath path = path ↔ ¬ LooksRenamed path :=
    by
  rw [LooksRenamed]
  cases hpair : bracePair path with
  | some lr =>
    obtain ⟨pfx, inner, sfx, h⟩ := exists_isPair hpair
    rw [h.bracePair_eq, Option.some.injEq] at hpair
    obtain rfl := hpair
    show _ ↔ ¬ arrow <:+: between path _ _
    rw [h.between_eq, ← index_eq_none_iff]
    cases hi : index arrow inner with
    | none =>
      rw [h.restore_eq, hi]
      exact iff_of_true rfl rfl
    | some i =>
      refine iff_of_false ?_ (by simp)
      intro heq
      obtain ⟨u, v, hinner, -, hv⟩ := exists_of_index_arrow hi
      have hcount := h.count_restore_of_arrow hi greater (by decide) spaces_greater
      rw [heq, h.path_eq, hv, hinner, List.count_append, List.count_cons, List.count_append,
        List.count_append,
        List.count_append, List.count_cons, count_arrow] at hcount
      omega
  | none =>
    show _ ↔ ¬ arrow <:+: path
    rw [← lastIndex_eq_none_iff, restore_of_no_pair hpair]
    cases hi : lastIndex arrow path with
    | none => exact iff_of_true rfl rfl
    | some i =>
      refine iff_of_false ?_ (by simp)
      intro heq
      obtain ⟨a, _, rfl, rfl, ⟨v, rfl⟩, -⟩ := exists_of_lastIndex hi
      have hlen := congrArg List.length
        (show trimSpaceBytes ((a ++ (arrow ++ v)).drop (a.length + 4)) = _ from heq)
      have hle := length_trimSpaceBytes_le ((a ++ (arrow ++ v)).drop (a.length + 4))
      rw [hlen, List.length_drop, List.length_append, List.length_append] at hle
      have harrow : arrow.length = 4 := rfl
      omega

/-! ### What the two paths share -/

theorem commonPrefix_left (a b : Bytes) : commonPrefix a b <+: a := by
  induction a generalizing b with
  | nil => exact List.nil_prefix
  | cons x a ih =>
    cases b with
    | nil => exact List.nil_prefix
    | cons y b =>
      rw [commonPrefix]
      split_ifs with h
      · exact List.cons_prefix_cons.2 ⟨rfl, ih b⟩
      · exact List.nil_prefix

theorem commonPrefix_comm (a b : Bytes) : commonPrefix a b = commonPrefix b a := by
  induction a generalizing b with
  | nil => cases b <;> rfl
  | cons x a ih =>
    cases b with
    | nil => rfl
    | cons y b =>
      rw [commonPrefix, commonPrefix, ih b]
      by_cases h : x = y
      · rw [if_pos h, if_pos h.symm, h]
      · rw [if_neg h, if_neg (Ne.symm h)]

theorem slashPrefix_left (a b : Bytes) : slashPrefix a b <+: a :=
  (List.rdropWhile_prefix _ _).trans (commonPrefix_left a b)

theorem slashPrefix_right (a b : Bytes) : slashPrefix a b <+: b := by
  rw [slashPrefix, commonPrefix_comm]
  exact slashPrefix_left b a

theorem slashPrefix_cases (a b : Bytes) : slashPrefix a b = [] ∨ ∃ p, slashPrefix a b = p ++ [slash] := by
  rw [or_iff_not_imp_left]
  intro hne
  have hlast := List.rdropWhile_last_not (· ≠ slash) (commonPrefix a b) hne
  rw [decide_eq_true_iff, not_not] at hlast
  exact ⟨_, (hlast ▸ List.dropLast_append_getLast hne).symm⟩

theorem slashSuffix_right (a b : Bytes) : slashSuffix a b <:+ b := by
  rw [slashSuffix, ← List.reverse_prefix, List.reverse_reverse]
  exact slashPrefix_right a.reverse b.reverse

theorem slashSuffix_left (a b : Bytes) : slashSuffix a b <:+ a := by
  rw [slashSuffix, ← List.reverse_prefix, List.reverse_reverse]
  exact slashPrefix_left a.reverse b.reverse

namespace Rename

variable (r : Rename)

/-- A path is put together from what is shared and its own part, or the two shared parts meet in one slash. -/
theorem path_cases {path : Bytes} (hpre : r.pre <+: path) (hsuf : r.suf <:+ r.sharing path) :
    path = r.pre ++ (r.middle path ++ r.suf) ∨
      r.middle path = [] ∧ ∃ p s, r.pre = p ++ [slash] ∧ r.suf = slash :: s ∧ path = p ++ slash :: s := by
  obtain ⟨t, rfl⟩ := hpre
  rw [middle, List.drop_left]
  rcases slashPrefix_cases r.old r.new with hnil | ⟨p, hp⟩
  · have hpre : r.pre = [] := hnil
    rw [sharing, hpre] at hsuf
    have hsuf : r.suf <:+ t := hsuf
    obtain ⟨m, rfl⟩ := hsuf
    left
    rw [hpre, List.nil_append, List.nil_append, List.length_nil, Nat.sub_zero, List.length_append,
      Nat.add_sub_cancel, List.take_left]
  · have hpre : r.pre = p ++ [slash] := hp
    have hshare : r.sharing (r.pre ++ t) = slash :: t := by
      rw [sharing, hpre, List.length_append, List.length_singleton, Nat.add_sub_cancel, List.append_assoc,
        List.drop_left]
      rfl
    rw [hshare] at hsuf
    rcases List.suffix_cons_iff.1 hsuf with hall | ⟨m, rfl⟩
    · right
      rw [hall, List.length_append, List.length_cons]
      refine ⟨?_, p, t, hpre, rfl, by rw [hpre, List.append_assoc]; rfl⟩
      rw [show r.pre.length + t.length - r.pre.length - (t.length + 1) = 0 by omega, List.take_zero]
    · left
      rw [List.length_append, List.length_append, Nat.add_sub_cancel_left, Nat.add_sub_cancel, List.take_left]

theorem new_cases : r.new = r.pre ++ (r.middle r.new ++ r.suf) ∨
    r.middle r.new = [] ∧ ∃ p s, r.pre = p ++ [slash] ∧ r.suf = slash :: s ∧ r.new = p ++ slash :: s :=
  r.path_cases (slashPrefix_right r.old r.new) (slashSuffix_right _ _)

theorem old_cases : r.old = r.pre ++ (r.middle r.old ++ r.suf) ∨
    r.middle r.old = [] ∧ ∃ p s, r.pre = p ++ [slash] ∧ r.suf = slash :: s ∧ r.old = p ++ slash :: s :=
  r.path_cases (slashPrefix_left r.old r.new) (slashSuffix_left _ _)

theorem line_plain (h : r.pre = [] ∧ r.suf = []) : r.line = r.old ++ (arrow ++ r.new) := by
  have hmiddle : ∀ path, r.middle path = path := by
    intro path
    rw [middle, h.1, h.2]
    exact List.take_length
  rw [line, if_pos h, hmiddle, hmiddle, List.append_assoc]

theorem line_braced (h : ¬ (r.pre = [] ∧ r.suf = [])) :
    r.line = r.pre ++ lBrace :: (r.middle r.old ++ (arrow ++ (r.middle r.new ++ rBrace :: r.suf))) := by
  rw [line, if_neg h]
  simp only [List.append_assoc, List.cons_append, List.nil_append]

end Rename

/-! ### The first arrow -/

theorem arrow_eq : arrow = 0x20 :: ascii "=> " ∧ arrow = ascii " =>" ++ [0x20] := by decide

theorem ascii_arrow : ascii "=> " = [0x3D, 0x3E, 0x20] := by decide

/-- The arrow cannot begin one or two bytes before another one. -/
theorem two_lt_of_arrow {c v : Bytes} (hne : c ≠ []) (h : arrow <+: c ++ (arrow ++ v)) : 2 < c.length := by
  match c with
  | [] => exact absurd rfl hne
  | [x] =>
    rw [arrow_eq.1, ascii_arrow] at h
    exact absurd (List.cons_prefix_cons.1 (List.cons_prefix_cons.1 h).2).1 (by decide)
  | [x, y] =>
    rw [arrow_eq.1, ascii_arrow] at h
    exact absurd (List.cons_prefix_cons.1 (List.cons_prefix_cons.1 (List.cons_prefix_cons.1 h).2).2).1
      (by decide)
  | x :: y :: z :: c =>
    rw [List.length_cons, List.length_cons, List.length_cons]
    omega

/-- An arrow that begins before the one given ends before the last byte of that. -/
theorem infix_of_arrow {c v : Bytes} (hne : c ≠ []) (h : arrow <+: c ++ (arrow ++ v)) :
    arrow <+: c ++ ascii " =>" := by
  have hshort : c ++ ascii " =>" <+: c ++ (arrow ++ v) := ⟨0x20 :: v, by rw [arrow_eq.2]; simp⟩
  refine List.prefix_of_prefix_length_le h hshort ?_
  have hlen := List.length_pos_of_ne_nil hne
  have harrow : arrow.length = 4 ∧ (ascii " =>").length = 3 := by decide
  rw [List.length_append, harrow.1, harrow.2]
  omega

theorem noneIn_arrow_iff {u v : Bytes} : NoneIn arrow u (arrow ++ v) ↔ ¬ arrow <:+: u ++ ascii " =>" := by
  constructor
  · rintro hnone ⟨l, r, hlr⟩
    have harrow : arrow.length = 4 ∧ (ascii " =>").length = 3 := by decide
    have hlen := congrArg List.length hlr
    rw [List.length_append, List.length_append, List.length_append, harrow.1, harrow.2] at hlen
    have hl : l <+: u ++ ascii " =>" := ⟨arrow ++ r, by rw [← hlr, List.append_assoc]⟩
    obtain ⟨c, rfl⟩ := List.prefix_of_prefix_length_le hl (List.prefix_append u _) (by omega)
    have hne : c ≠ [] := by
      rintro rfl
      rw [List.append_nil] at hlen
      omega
    rw [List.append_assoc, List.append_assoc] at hlr
    have hfront : arrow <+: c ++ ascii " =>" := ⟨r, List.append_cancel_left hlr⟩
    refine hnone c hne (List.suffix_append l c) (hfront.trans ⟨0x20 :: v, ?_⟩)
    rw [arrow_eq.2]
    simp
  · intro hnot u' hne hu hp
    obtain ⟨w, rfl⟩ := hu
    rw [List.append_assoc] at hnot
    exact hnot ((infix_of_arrow hne hp).isInfix.trans (List.suffix_append w _).isInfix)

theorem index_arrow {u : Bytes} (h : ¬ arrow <:+: u ++ ascii " =>") (v : Bytes) :
    index arrow (u ++ (arrow ++ v)) = some u.length :=
  index_append u (List.prefix_append arrow v) (noneIn_arrow_iff.2 h)

/-- With an arrow before the one between the middles, that one is left. -/
theorem index_arrow_early {u v : Bytes} (h : arrow <:+: u ++ ascii " =>") : ∃ i,
    index arrow (u ++ (arrow ++ v)) = some i ∧ ascii "=> " ++ v <:+ (u ++ (arrow ++ v)).drop (i + 4) := by
  have hin : arrow <:+: u ++ (arrow ++ v) := ⟨u, v, by rw [List.append_assoc]⟩
  obtain ⟨i, hi⟩ := Option.isSome_iff_exists.1 (index_isSome_iff.2 hin)
  obtain ⟨a, t, heq, rfl, ht, hnone⟩ := exists_of_index hi
  refine ⟨a.length, hi, ?_⟩
  rcases List.append_eq_append_iff.1 heq with ⟨c, rfl, hc⟩ | ⟨c, rfl, hc⟩
  · have hearly : NoneIn arrow u (arrow ++ v) := by
      by_cases hne : c = []
      · subst hne
        rw [List.append_nil] at hnone
        rwa [hc]
      · exact absurd (hc ▸ List.prefix_append arrow v) (hnone c hne (List.suffix_append u c))
    exact absurd h (noneIn_arrow_iff.1 hearly)
  · by_cases hne : c = []
    · subst hne
      rw [List.append_nil] at h
      rw [List.nil_append] at hc
      rw [hc] at hnone
      exact absurd h (noneIn_arrow_iff.1 hnone)
    · rw [hc] at ht
      have htwo := two_lt_of_arrow hne ht
      rw [List.append_assoc, ← List.drop_drop, List.drop_left]
      match c with
      | [] => exact absurd rfl hne
      | x :: c =>
        rw [arrow_eq.1, List.cons_append, List.cons_append, List.drop_succ_cons]
        match c with
        | y :: z :: c =>
          rw [List.cons_append, List.cons_append, List.drop_succ_cons, List.drop_succ_cons]
          cases c with
          | nil => exact List.suffix_rfl
          | cons w c => exact ⟨c ++ [0x20], by simp⟩

/-! ### A line with braces -/

/-- Nothing but closing braces. -/
theorem cons_append_of_all {w : Bytes} (h : ∀ c ∈ w, c = b) (t : Bytes) : w ++ b :: t = b :: (w ++ t) := by
  induction w with
  | nil => rfl
  | cons c w ih =>
    obtain rfl := h c (List.mem_cons_self ..)
    rw [List.cons_append, ih fun d hd => h d (List.mem_cons_of_mem c hd), List.cons_append]

theorem all_of_cons_append {w t : Bytes} (h : w ++ b :: t = b :: (w ++ t)) : ∀ c ∈ w, c = b := by
  induction w with
  | nil => exact List.forall_mem_nil _
  | cons c w ih =>
    obtain ⟨rfl, h⟩ := List.cons_eq_cons.1 h
    rw [List.forall_mem_cons]
    exact ⟨rfl, ih h⟩

theorem exists_head_of_all {w : Bytes} (h : ∀ c ∈ w.head?, c = b) (t : Bytes) : ∃ s, w ++ b :: t = b :: s :=
    by
  cases w with
  | nil => exact ⟨t, rfl⟩
  | cons c w =>
    obtain rfl := h c rfl
    exact ⟨w ++ c :: t, rfl⟩

namespace Rename

variable {r : Rename}

theorem count_new (hb : b ≠ slash) :
    r.new.count b = r.pre.count b + (r.middle r.new).count b + r.suf.count b := by
  rcases r.new_cases with h | ⟨hmiddle, p, s, hpre, hsuf, h⟩
  · conv_lhs => rw [h]
    rw [List.count_append, List.count_append]
    omega
  · rw [hmiddle, h, hpre, hsuf, List.count_append, List.count_append, List.count_cons_of_ne hb.symm,
      List.count_singleton, if_neg (by simpa using hb.symm), List.count_nil, Nat.add_zero]

/-- An end of the old middle is in the way. -/
theorem restore_ne_of_rBrace (hbraced : ¬ (r.pre = [] ∧ r.suf = [])) (hpre : lBrace ∉ r.pre ∧ rBrace ∉ r.pre)
    (h : rBrace ∈ r.middle r.old) : gitNumstatRestoreRenamePath r.line ≠ r.new := by
  obtain ⟨o, o', ho, hclose⟩ := List.eq_append_cons_of_mem h
  have hpair : IsPair r.line r.pre o (o' ++ (arrow ++ (r.middle r.new ++ rBrace :: r.suf))) := by
    refine ⟨?_, hpre.1, hpre.2, hclose⟩
    rw [r.line_braced hbraced, ho, List.append_assoc, List.cons_append]
  intro heq
  have hcount := hpair.le_count_restore greater (by decide)
  have hnew := r.count_new (b := greater) (by decide)
  rw [heq, List.count_append, List.count_append, List.count_append, List.count_cons, count_arrow] at hcount
  omega

/-- The end of the new middle at which the pair ends, and the rest of the line. -/
theorem exists_rest (r : Rename) : ∃ rest,
    (r.middle r.new).dropWhile (· ≠ rBrace) ++ rBrace :: r.suf = rBrace :: rest := by
  apply exists_head_of_all
  intro c hc
  have hnot := List.head?_dropWhile_not (fun x => decide (x ≠ rBrace)) (r.middle r.new)
  rw [Option.mem_def.1 hc] at hnot
  simpa using hnot

theorem isPair_line (hbraced : ¬ (r.pre = [] ∧ r.suf = [])) (hpre : lBrace ∉ r.pre ∧ rBrace ∉ r.pre)
    (hold : rBrace ∉ r.middle r.old) {rest : Bytes}
    (hrest : (r.middle r.new).dropWhile (· ≠ rBrace) ++ rBrace :: r.suf = rBrace :: rest) :
    IsPair r.line r.pre (r.middle r.old ++ (arrow ++ (r.middle r.new).takeWhile (· ≠ rBrace))) rest := by
  refine ⟨?_, hpre.1, hpre.2, ?_⟩
  · rw [r.line_braced hbraced, List.append_assoc, List.append_assoc, ← hrest,
      ← List.append_assoc ((r.middle r.new).takeWhile _), List.takeWhile_append_dropWhile]
  · rw [List.mem_append, List.mem_append, not_or, not_or]
    refine ⟨hold, by decide, fun hm => ?_⟩
    have hne := List.mem_takeWhile_imp hm
    simp at hne

/-- An arrow in the old middle is in the way. -/
theorem restore_ne_of_arrow (hbraced : ¬ (r.pre = [] ∧ r.suf = [])) (hpre : lBrace ∉ r.pre ∧ rBrace ∉ r.pre)
    (hold : rBrace ∉ r.middle r.old) (h : arrow <:+: r.middle r.old ++ ascii " =>") :
    gitNumstatRestoreRenamePath r.line ≠ r.new := by
  obtain ⟨rest, hrest⟩ := r.exists_rest
  obtain ⟨i, hi, hleft⟩ := index_arrow_early (v := (r.middle r.new).takeWhile (· ≠ rBrace)) h
  intro heq
  have hcount := (isPair_line hbraced hpre hold hrest).count_restore_of_arrow hi greater (by decide)
    spaces_greater
  have hnew := r.count_new (b := greater) (by decide)
  have hsuffix := hleft.sublist.count_le greater
  have htail := congrArg (List.count greater) hrest
  have hone : (ascii "=> ").count greater = 1 := by decide
  have hmiddle := congrArg (List.count greater)
    (List.takeWhile_append_dropWhile (p := fun x => decide (x ≠ rBrace)) (l := r.middle r.new))
  rw [List.count_append] at hmiddle
  rw [List.count_append, List.count_cons, List.count_cons] at htail
  rw [List.count_append, hone] at hsuffix
  rw [heq] at hcount
  omega

/-- Between the right pair and after the right arrow, the new path comes out if its middle goes up to the
  pair's end. -/
theorem restore_eq_new_iff (hbraced : ¬ (r.pre = [] ∧ r.suf = [])) (hpre : lBrace ∉ r.pre ∧ rBrace ∉ r.pre)
    (hold : rBrace ∉ r.middle r.old) (harrow : ¬ arrow <:+: r.middle r.old ++ ascii " =>")
      (hnew : IsPath r.new) :
    gitNumstatRestoreRenamePath r.line = r.new ↔
      (∀ b ∈ (r.middle r.new).dropWhile (· ≠ rBrace), b = rBrace) ∧
        trimSpaceBytes ((r.middle r.new).takeWhile (· ≠ rBrace)) = (r.middle r.new).takeWhile (· ≠ rBrace) :=
          by
  obtain ⟨rest, hrest⟩ := r.exists_rest
  have hmiddle := List.takeWhile_append_dropWhile (p := fun x => decide (x ≠ rBrace)) (l := r.middle r.new)
  have hdrop : (r.middle r.old ++ (arrow ++ (r.middle r.new).takeWhile (· ≠ rBrace))).drop
      ((r.middle r.old).length + 4) = (r.middle r.new).takeWhile (· ≠ rBrace) := by
    rw [← List.drop_drop, List.drop_left]
    rfl
  have hrestore := (isPair_line hbraced hpre hold hrest).restore_of_arrow (index_arrow harrow _)
  rw [hdrop] at hrestore
  rw [hrestore]
  generalize (r.middle r.new).takeWhile (· ≠ rBrace) = v at hmiddle ⊢
  generalize (r.middle r.new).dropWhile (· ≠ rBrace) = w at hmiddle hrest ⊢
  constructor
  · intro heq
    rcases r.new_cases with h | ⟨hnil, -⟩
    · have hlen := length_cleanPath_le (r.pre ++ trimSpaceBytes v ++ rest)
      have htrim := length_trimSpaceBytes_le v
      have hwhole := congrArg List.length h
      have htail := congrArg List.length hrest
      rw [← hmiddle, List.length_append, List.length_append, List.length_append] at hwhole
      rw [List.length_append, List.length_cons, List.length_cons] at htail
      rw [heq, List.length_append, List.length_append] at hlen
      have hv : trimSpaceBytes v = v := trimSpaceBytes_eq_of_length (by omega)
      refine ⟨?_, hv⟩
      rw [hv] at heq
      have hsame : cleanPath (r.pre ++ v ++ rest) = r.pre ++ v ++ rest := by
        apply cleanPath_eq_of_length
        rw [heq, List.length_append, List.length_append]
        omega
      rw [hsame] at heq
      have hwords := heq.trans h
      rw [← hmiddle, List.append_assoc, List.append_assoc] at hwords
      have hrest' := List.append_cancel_left (List.append_cancel_left hwords)
      rw [hrest'] at hrest
      exact all_of_cons_append hrest
    · rw [hnil] at hmiddle
      obtain ⟨rfl, rfl⟩ := List.append_eq_nil_iff.1 hmiddle
      exact ⟨List.forall_mem_nil _, rfl⟩
  · rintro ⟨hall, htrim⟩
    rw [htrim, List.append_assoc]
    have hrest' : rest = w ++ r.suf := by
      rw [cons_append_of_all hall] at hrest
      exact (List.cons_eq_cons.1 hrest).2.symm
    rw [hrest', ← List.append_assoc v, hmiddle]
    rcases r.new_cases with h | ⟨hnil, p, s, hp, hs, h⟩
    · rw [← h, cleanPath_of_isPath hnew]
    · rw [hnil, hp, hs, h, List.nil_append, List.append_assoc, List.singleton_append]
      exact cleanPath_doubled (h ▸ hnew)

theorem restore_braced_iff (hbraced : ¬ (r.pre = [] ∧ r.suf = [])) (hpre : lBrace ∉ r.pre ∧ rBrace ∉ r.pre)
    (hnew : IsPath r.new) : gitNumstatRestoreRenamePath r.line = r.new ↔ r.BracedDecodes := by
  rw [BracedDecodes, and_iff_right hpre]
  by_cases hold : rBrace ∈ r.middle r.old
  · exact iff_of_false (restore_ne_of_rBrace hbraced hpre hold) fun h => h.1 hold
  · by_cases harrow : arrow <:+: r.middle r.old ++ ascii " =>"
    · exact iff_of_false (restore_ne_of_arrow hbraced hpre hold harrow) fun h => h.2.1 harrow
    · rw [restore_eq_new_iff hbraced hpre hold harrow hnew, and_iff_right hold, and_iff_right harrow]

/-! ### A line without braces of its own -/

/-- Braces that the paths themselves have are in the way. -/
theorem restore_ne_of_isPair (hplain : r.pre = [] ∧ r.suf = []) (h : IsPair r.line pfx inner sfx) :
    gitNumstatRestoreRenamePath r.line ≠ r.new := by
  intro heq
  have hpath := (r.line_plain hplain).symm.trans h.around.1
  by_cases hold : rBrace ∈ r.old
  · -- then the arrow of the line and the new path stay at the end
    obtain ⟨o, o', ho, hfirst⟩ := List.eq_append_cons_of_mem hold
    rw [ho, List.append_assoc, List.cons_append] at hpath
    have hsfx := eq_of_first hfirst h.around.2 hpath
    have hgreater := h.le_count_restore greater (by decide)
    rw [heq, ← hsfx, List.count_append, List.count_append, count_arrow] at hgreater
    omega
  · have harrow : arrow.count rBrace = 0 := by decide
    cases hi : index arrow inner with
    | none =>
      rw [h.restore_eq, hi] at heq
      have hlen := congrArg List.length (show r.line = r.new from heq)
      rw [r.line_plain hplain, List.length_append, List.length_append] at hlen
      have hfour : arrow.length = 4 := by decide
      omega
    | some i =>
      -- then the new path has one closing brace more
      have hcount := congrArg (List.count rBrace) hpath
      have hrestore := h.count_restore_of_arrow hi rBrace (by decide) spaces_rBrace
      have hleft : rBrace ∉ inner.drop (i + 4) := fun hm => h.inner_close (List.mem_of_mem_drop hm)
      rw [heq, List.count_eq_zero_of_not_mem h.prefix_close, List.count_eq_zero_of_not_mem hleft] at hrestore
      rw [List.count_append, List.count_append, List.count_append, List.count_cons_self,
        List.count_eq_zero_of_not_mem h.around.2, List.count_eq_zero_of_not_mem hold, harrow] at hcount
      omega

/-- No arrow goes on from the one of the line into the new path. -/
theorem infix_space_iff {s : Bytes} : arrow <:+: ascii "=> " ++ s ↔ arrow <:+: 0x20 :: s := by
  constructor
  · intro h
    rw [ascii_arrow] at h
    rcases List.infix_cons_iff.1 h with h | h
    · rw [arrow_eq.1] at h
      exact absurd (List.cons_prefix_cons.1 h).1 (by decide)
    · rcases List.infix_cons_iff.1 h with h | h
      · rw [arrow_eq.1] at h
        exact absurd (List.cons_prefix_cons.1 h).1 (by decide)
      · exact h
  · intro h
    rw [ascii_arrow]
    exact h.trans ⟨[0x3D, 0x3E], [], by simp⟩

theorem restore_plain_iff (hplain : r.pre = [] ∧ r.suf = []) :
    gitNumstatRestoreRenamePath r.line = r.new ↔ r.PlainDecodes := by
  rw [PlainDecodes]
  cases hpair : bracePair r.line with
  | some lr =>
    obtain ⟨pfx, inner, sfx, h⟩ := exists_isPair hpair
    exact iff_of_false (restore_ne_of_isPair hplain h) fun h => absurd h.1 (by simp)
  | none =>
    have harrow : arrow <+: 0x20 :: (ascii "=> " ++ r.new) := ⟨r.new, by rw [arrow_eq.1]; rfl⟩
    have hline : r.line = r.old ++ 0x20 :: (ascii "=> " ++ r.new) := by
      rw [r.line_plain hplain, arrow_eq.1]
      rfl
    rw [and_iff_right rfl, ← infix_space_iff]
    by_cases hlast : arrow <:+: ascii "=> " ++ r.new
    · refine iff_of_false ?_ fun h => h.1 hlast
      intro heq
      cases hi : lastIndex arrow r.line with
      | none =>
        have hin : arrow <:+: r.line := ⟨r.old, r.new, by rw [r.line_plain hplain, List.append_assoc]⟩
        exact lastIndex_eq_none_iff.1 hi hin
      | some i =>
        have hlate : r.old.length < i ∧ i + 4 ≤ r.line.length := by
          obtain ⟨a, t, hat, rfl, ht, hnone⟩ := exists_of_lastIndex hi
          have hfits := ht.length_le
          refine ⟨?_, by rw [hat, List.length_append]; exact Nat.add_le_add_left hfits a.length⟩
          obtain ⟨l, l', hl⟩ := hlast
          by_contra hearly
          have hlen := congrArg List.length (hline.symm.trans hat)
          have hlen' := congrArg List.length hl
          rw [List.length_append, List.length_append, List.length_cons] at hlen
          rw [List.length_append, List.length_append, List.length_append] at hlen'
          rw [List.length_append] at hlen
          have hu : arrow ++ l' <:+ r.line := by
            rw [hline, ← hl, List.append_assoc]
            exact ⟨r.old ++ 0x20 :: l, by simp⟩
          have hut : arrow ++ l' <:+ t := by
            refine List.suffix_of_suffix_length_le hu ⟨a, hat.symm⟩ ?_
            rw [List.length_append]
            omega
          refine hnone _ hut ?_ (List.prefix_append arrow l')
          rintro rfl
          rw [List.length_append] at hlen
          omega
        rw [restore_of_no_pair hpair, hi] at heq
        have hlen := congrArg List.length (show trimSpaceBytes (r.line.drop (i + 4)) = r.new from heq)
        have hle := length_trimSpaceBytes_le (r.line.drop (i + 4))
        have hwhole := congrArg List.length (r.line_plain hplain)
        have hfour : arrow.length = 4 := by decide
        rw [hlen, List.length_drop] at hle
        rw [List.length_append, List.length_append, hfour] at hwhole
        omega
    · have hdrop : r.line.drop (r.old.length + 4) = r.new := by
        rw [hline, ← List.drop_drop, List.drop_left]
        rfl
      have hi : lastIndex arrow r.line = some r.old.length := by
        rw [hline]
        exact lastIndex_append r.old harrow hlast
      rw [and_iff_right hlast, restore_of_no_pair hpair, hi]
      show trimSpaceBytes (r.line.drop (r.old.length + 4)) = _ ↔ _
      rw [hdrop]

/-- The new path comes out of the line if the reader takes the braces and the arrow of the notation, -/
theorem restore_line (h : r.Decodes) (hnew : IsPath r.new) : gitNumstatRestoreRenamePath r.line = r.new := by
  rw [Decodes] at h
  split_ifs at h with hplain
  · exact (restore_plain_iff hplain).2 h
  · exact (restore_braced_iff hplain h.1 hnew).2 h

/-- and only then, unless braces in front of the notation's own come out right by chance. -/
theorem decodes_of_restore (hpre : lBrace ∉ r.pre ∧ rBrace ∉ r.pre) (hnew : IsPath r.new)
    (h : gitNumstatRestoreRenamePath r.line = r.new) : r.Decodes := by
  rw [Decodes]
  split_ifs with hplain
  · exact (restore_plain_iff hplain).1 h
  · exact (restore_braced_iff hplain hpre hnew).1 h

/-- By chance: the first pair is in the name of a directory, with an empty new part like the notation's own. -/
example : gitNumstatRestoreRenamePath (Rename.mk (ascii "x/{u => }/u/f") (ascii "x/{u => }/f")).line =
    ascii "x/{u => }/f" := by decide

end Rename

end ManyAiCli.Hub.GitNumstat
