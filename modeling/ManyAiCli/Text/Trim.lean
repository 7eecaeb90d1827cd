import ManyAiCli.Text.Strings
import Mathlib.Data.List.TakeWhile

/-! What is left of a text after its white space at both ends is gone. -/

namespace ManyAiCli.Text

variable {α : Type*} {p : α → Bool}

/-! ### At one end -/

theorem dropWhile_append_cons {x : α} (hx : p x = false) (a s : List α) :
    (a ++ x :: s).dropWhile p = a.dropWhile p ++ x :: s := by
  rw [List.dropWhile_append]
  split
  next h => rw [List.isEmpty_iff.1 h, List.dropWhile_cons_of_neg (by simp [hx]), List.nil_append]
  next => rfl

theorem rdropWhile_append_cons {x : α} (hx : p x = false) (s b : List α) :
    (s ++ x :: b).rdropWhile p = s ++ x :: b.rdropWhile p := by
  have hrev : (s ++ x :: b).reverse = b.reverse ++ x :: s.reverse := by simp
  rw [List.rdropWhile, hrev, dropWhile_append_cons hx, List.rdropWhile]
  simp

theorem rdropWhile_append_of_pos {t : List α} (ht : ∀ x ∈ t, p x = true) (s : List α) :
    (s ++ t).rdropWhile p = s.rdropWhile p := by
  rw [List.rdropWhile, List.reverse_append, List.dropWhile_append_of_pos, List.rdropWhile]
  simpa using ht

/-- What stands behind the last one that is none of them. -/
theorem rtakeWhile_append_cons {x : α} (hx : p x = false) (s : List α) {b : List α} (hb : ∀ y ∈ b, p y = true) :
    (s ++ x :: b).rtakeWhile p = b := by
  have hrev : (s ++ x :: b).reverse = b.reverse ++ x :: s.reverse := by simp
  rw [List.rtakeWhile, hrev, List.takeWhile_append_of_pos (by simpa using hb),
    List.takeWhile_cons_of_neg (by simp [hx]), List.append_nil, List.reverse_reverse]

/-- A prefix is one of the trimmed text too, or is it after trimming. -/
theorem prefix_rdropWhile {pre s : List α} (h : pre <+: s) :
    pre <+: s.rdropWhile p ∨ s.rdropWhile p = pre.rdropWhile p := by
  rcases List.prefix_or_prefix_of_prefix h (List.rdropWhile_prefix p s) with hpre | ⟨t, ht⟩
  · exact .inl hpre
  · right
    obtain ⟨t', ht'⟩ := h
    have hrest : t ++ t' = s.rtakeWhile p := by
      have hsplit : s.rdropWhile p ++ (t ++ t') = s.rdropWhile p ++ s.rtakeWhile p := by
        rw [List.rdropWhile_append_rtakeWhile, ← List.append_assoc, ht, ht']
      exact List.append_cancel_left hsplit
    have hall : ∀ x ∈ t, p x = true := fun x hx =>
      List.mem_rtakeWhile_imp (hrest ▸ List.mem_append_left t' hx)
    rw [← ht, rdropWhile_append_of_pos hall, List.rdropWhile_idempotent]

/-! ### At both ends -/

section Both

variable {p : Char → Bool}

/-- A text that neither begins nor ends with one of them. -/
theorem trim_eq_self {s : List Char} (h : ∀ c ∈ s, p c = false) : trim p s = s := by
  have hleft : s.dropWhile p = s :=
    List.dropWhile_eq_self_iff.2 fun _ => Bool.not_eq_true _ ▸ h _ (List.getElem_mem _)
  rw [trim, trimRight, hleft, List.rdropWhile_eq_self_iff]
  exact fun _ => Bool.not_eq_true _ ▸ h _ (List.getLast_mem _)

theorem trim_append_of_pos {t : List Char} (ht : ∀ x ∈ t, p x = true) (s : List Char) :
    trim p (s ++ t) = trim p s := by
  rw [trim, trimRight, List.dropWhile_append]
  split
  next h => rw [List.dropWhile_eq_nil_iff.2 ht, trim, trimRight, List.isEmpty_iff.1 h]
  next => rw [rdropWhile_append_of_pos ht, trim, trimRight]

theorem trim_of_pos_append {t : List Char} (ht : ∀ x ∈ t, p x = true) (s : List Char) :
    trim p (t ++ s) = trim p s := by
  rw [trim, List.dropWhile_append_of_pos ht, trim]

variable (p) in
/-- What stands between them. -/
theorem exists_eq_append_trim (s : List Char) :
    ∃ a b, (∀ x ∈ a, p x = true) ∧ (∀ x ∈ b, p x = true) ∧ s = a ++ (trim p s ++ b) := by
  refine ⟨s.takeWhile p, (s.dropWhile p).rtakeWhile p, fun x hx => List.mem_takeWhile_imp hx,
    fun x hx => List.mem_rtakeWhile_imp hx, ?_⟩
  rw [trim, trimRight, List.rdropWhile_append_rtakeWhile, List.takeWhile_append_dropWhile]

variable (p) in
theorem trim_within (s : List Char) : trim p s <:+: s := by
  obtain ⟨a, b, -, -, h⟩ := exists_eq_append_trim p s
  exact ⟨a, b, by rw [List.append_assoc]; exact h.symm⟩

variable (p) in
theorem trim_trim (s : List Char) : trim p (trim p s) = trim p s := by
  obtain ⟨a, b, ha, hb, h⟩ := exists_eq_append_trim p s
  conv_rhs => rw [h, trim_of_pos_append ha, trim_append_of_pos hb]

/-- None of them is in front. -/
theorem head_trim {s t : List Char} {c : Char} (h : trim p s = c :: t) : p c = false := by
  obtain ⟨u, hu⟩ := List.rdropWhile_prefix p (s.dropWhile p)
  rw [← trimRight, ← trim, h, List.cons_append] at hu
  have hHead : (s.dropWhile p).head? = some c := by rw [← hu, List.head?_cons]
  have hNot := List.head?_dropWhile_not p s
  rwa [hHead] at hNot

end Both

/-! ### White space -/

theorem trimSpace_append_of_pos {t : List Char} (ht : ∀ x ∈ t, isSpace x = true) (s : List Char) :
    trimSpace (s ++ t) = trimSpace s := trim_append_of_pos ht s

theorem trimSpace_of_pos_append {t : List Char} (ht : ∀ x ∈ t, isSpace x = true) (s : List Char) :
    trimSpace (t ++ s) = trimSpace s := trim_of_pos_append ht s

theorem trimSpace_cons {x : Char} (hx : isSpace x = true) (s : List Char) :
    trimSpace (x :: s) = trimSpace s := by
  rw [trimSpace, trim, List.dropWhile_cons_of_pos hx, trimSpace, trim]

/-- What stands between white space. -/
theorem exists_eq_append_trimSpace (s : List Char) :
    ∃ a b, (∀ x ∈ a, isSpace x = true) ∧ (∀ x ∈ b, isSpace x = true) ∧ s = a ++ (trimSpace s ++ b) :=
  exists_eq_append_trim isSpace s

theorem trimSpace_within (s : List Char) : trimSpace s <:+: s := trim_within isSpace s

theorem trimSpace_trimSpace (s : List Char) : trimSpace (trimSpace s) = trimSpace s := trim_trim isSpace s

/-- White space at the end alone. -/
theorem trimSpace_trimRight (s : List Char) : trimSpace (trimRight isSpace s) = trimSpace s := by
  have hTail : ∀ x ∈ s.rtakeWhile isSpace, isSpace x = true := fun x hx => List.mem_rtakeWhile_imp hx
  rw [trimRight, ← trimSpace_append_of_pos hTail, List.rdropWhile_append_rtakeWhile]

/-- Between two runes that are none, the text in front stays. -/
theorem trimSpace_append_cons {x y : Char} (hx : isSpace x = false) (hy : isSpace y = false) (a s : List Char) :
    trimSpace (x :: (a ++ y :: s)) = x :: (a ++ y :: trimRight isSpace s) := by
  rw [trimSpace, trim, List.dropWhile_cons_of_neg (by simp [hx]), trimRight, ← List.cons_append,
    rdropWhile_append_cons hy]
  rfl

end ManyAiCli.Text
