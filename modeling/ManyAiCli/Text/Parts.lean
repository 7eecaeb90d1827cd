import Mathlib.Data.List.DropRight
import Mathlib.Data.List.TakeWhile
import Mathlib.Tactic.Common

/-! What separators leave of a text: its parts that are not empty. -/

namespace ManyAiCli.Text

variable {α : Type*} {p q : α → Bool}

def parts (p : α → Bool) (s : List α) : List (List α) := (s.splitOnP p).filter (· ≠ [])

@[simp] theorem parts_nil : parts p [] = [] := by simp [parts]

theorem parts_append_sep {c : α} (hc : p c = true) (a b : List α) : parts p (a ++ c :: b) = parts p a ++ parts p b := by
  rw [parts, List.splitOnP_append_cons a b hc, List.filter_append]
  rfl

theorem parts_cons_sep {c : α} (hc : p c = true) (s : List α) : parts p (c :: s) = parts p s :=
  (parts_append_sep hc [] s).trans (by simp)

theorem parts_of_seps {s : List α} (h : ∀ c ∈ s, p c = true) : parts p s = [] := by
  induction s with
  | nil => exact parts_nil
  | cons c s ih =>
    rw [parts_cons_sep (h c List.mem_cons_self), ih fun d hd => h d (List.mem_cons_of_mem _ hd)]

/-- A part of its own. -/
theorem parts_of_part {s : List α} (hne : s ≠ []) (h : ∀ c ∈ s, p c = false) : parts p s = [s] := by
  rw [parts, List.splitOnP_eq_singleton h]
  simp [hne]

theorem parts_append_of_seps {t : List α} (h : ∀ c ∈ t, p c = true) (s : List α) : parts p (s ++ t) = parts p s := by
  cases t with
  | nil => rw [List.append_nil]
  | cons c t =>
    rw [parts_append_sep (h c List.mem_cons_self), parts_of_seps fun d hd => h d (List.mem_cons_of_mem _ hd),
      List.append_nil]

@[simp] theorem parts_rdropWhile (s : List α) : parts p (s.rdropWhile p) = parts p s := by
  conv_rhs => rw [← List.rdropWhile_append_rtakeWhile (p := p) (l := s),
    parts_append_of_seps fun c hc => List.mem_rtakeWhile_imp hc]

@[simp] theorem parts_dropWhile (s : List α) : parts p (s.dropWhile p) = parts p s := by
  induction s with
  | nil => rfl
  | cons c s ih =>
    by_cases hc : p c = true
    · rw [List.dropWhile_cons_of_pos hc, ih, parts_cons_sep hc]
    · rw [List.dropWhile_cons_of_neg hc]

/-- One separator for another. -/
theorem parts_map {f : α → α} (hSep : ∀ c, p (f c) = p c) (hKeep : ∀ c, p c = false → f c = c) (s : List α) :
    parts p (s.map f) = parts p s := by
  have hSplit : (s.map f).splitOnP p = s.splitOnP p := by
    induction s with
    | nil => rfl
    | cons c s ih =>
      rw [List.map_cons, List.splitOnP_cons_eq_if_modifyHead, List.splitOnP_cons_eq_if_modifyHead, hSep, ih]
      split_ifs with hc
      · rfl
      · rw [hKeep c (Bool.not_eq_true _ ▸ hc)]
  rw [parts, hSplit, parts]

theorem parts_congr {s : List α} (h : ∀ c ∈ s, p c = q c) : parts p s = parts q s := by
  have hSplit : s.splitOnP p = s.splitOnP q := by
    induction s with
    | nil => rfl
    | cons c s ih =>
      rw [List.splitOnP_cons_eq_if_modifyHead, List.splitOnP_cons_eq_if_modifyHead, h c List.mem_cons_self,
        ih fun d hd => h d (List.mem_cons_of_mem _ hd)]
  rw [parts, hSplit, parts]

theorem not_sep_of_mem_splitOnP {s part : List α} (h : part ∈ s.splitOnP p) : ∀ c ∈ part, p c = false := by
  induction s generalizing part with
  | nil =>
    rw [List.splitOnP_nil, List.mem_singleton] at h
    simp [h]
  | cons b s ih =>
    rw [List.splitOnP_cons_eq_if_modifyHead] at h
    split_ifs at h with hb
    · obtain rfl | h := List.mem_cons.1 h
      · exact fun c hc => absurd hc List.not_mem_nil
      · exact ih h
    · cases hs : s.splitOnP p with
      | nil => exact absurd hs (List.splitOnP_ne_nil p s)
      | cons first rest =>
        rw [hs, List.modifyHead_cons] at h
        rw [hs] at ih
        obtain rfl | h := List.mem_cons.1 h
        · intro c hc
          obtain rfl | hc := List.mem_cons.1 hc
          · exact Bool.not_eq_true _ ▸ hb
          · exact ih List.mem_cons_self c hc
        · exact ih (List.mem_cons_of_mem _ h)

/-- A part is not empty, and has no separator. -/
def IsPart (p : α → Bool) (part : List α) : Prop := part ≠ [] ∧ ∀ c ∈ part, p c = false

theorem isPart_of_mem_parts {s part : List α} (h : part ∈ parts p s) : IsPart p part := by
  obtain ⟨hMem, hne⟩ := List.mem_filter.1 h
  exact ⟨of_decide_eq_true hne, not_sep_of_mem_splitOnP hMem⟩

/-- What is no separator is in a part. -/
theorem exists_mem_parts {s : List α} {c : α} (hc : c ∈ s) (h : p c = false) : ∃ part ∈ parts p s, c ∈ part := by
  induction s with
  | nil => exact absurd hc List.not_mem_nil
  | cons b s ih =>
    by_cases hb : p b = true
    · rw [parts_cons_sep hb]
      obtain rfl | hc := List.mem_cons.1 hc
      · rw [hb] at h
        cases h
      · exact ih hc
    · obtain ⟨first, rest, hs⟩ := List.exists_cons_of_ne_nil (List.splitOnP_ne_nil p s)
      have hParts : parts p (b :: s) = (b :: first) :: rest.filter (· ≠ []) := by
        rw [parts, List.splitOnP_cons_eq_if_modifyHead, if_neg hb, hs, List.modifyHead_cons]
        rfl
      rw [hParts]
      obtain rfl | hc := List.mem_cons.1 hc
      · exact ⟨_, List.mem_cons_self, List.mem_cons_self⟩
      · obtain ⟨part, hPart, hMem⟩ := ih hc
        rw [parts, hs] at hPart
        obtain ⟨hPart, hne⟩ := List.mem_filter.1 hPart
        obtain rfl | hPart := List.mem_cons.1 hPart
        · exact ⟨_, List.mem_cons_self, List.mem_cons_of_mem _ hMem⟩
        · exact ⟨part, List.mem_cons_of_mem _ (List.mem_filter.2 ⟨hPart, hne⟩), hMem⟩

theorem parts_intercalate {sep : α} (hSep : p sep = true) {l : List (List α)} (h : ∀ part ∈ l, IsPart p part) :
    parts p ([sep].intercalate l) = l := by
  induction l with
  | nil => exact parts_nil
  | cons part l ih =>
    have hRest := ih fun q hq => h q (List.mem_cons_of_mem _ hq)
    obtain ⟨hne, hPart⟩ := h part List.mem_cons_self
    cases l with
    | nil => rw [List.intercalate_singleton, parts_of_part hne hPart]
    | cons next l =>
      rw [List.intercalate_cons_cons, List.append_assoc, List.singleton_append, parts_append_sep hSep, hRest,
        parts_of_part hne hPart, List.singleton_append]

end ManyAiCli.Text
