import Mathlib.Data.List.DropRight
import Mathlib.Tactic.Common

/-! Slices with spare room: the elements stand at the front of a backing array, and what lies behind
them is still there. Copying within a slice and appending in place are seen through the elements, and
so is keeping the last elements of a list that grows. -/

namespace ManyAiCli.Text

/-! ### The end of a list -/

variable {α : Type*}

theorem rtake_suffix (l : List α) (n : ℕ) : l.rtake n <:+ l := List.drop_suffix _ _

theorem length_rtake (l : List α) (n : ℕ) : (l.rtake n).length = min n l.length := by
  rw [List.rtake, List.length_drop]
  omega

/-- The last elements, as many as there are. -/
theorem rtake_eq_drop_min (l : List α) (n : ℕ) : l.rtake n = l.drop (l.length - min n l.length) := by
  have hSkip : l.length - min n l.length = l.length - n := by omega
  rw [List.rtake, hSkip]

theorem rtake_of_length_le {l : List α} {n : ℕ} (h : l.length ≤ n) : l.rtake n = l := by
  rw [List.rtake, Nat.sub_eq_zero_of_le h, List.drop_zero]

/-- The end of a list of which the back is long enough is the end of the back. -/
theorem rtake_append_of_le (l : List α) {m : List α} {n : ℕ} (h : n ≤ m.length) :
    (l ++ m).rtake n = m.rtake n := by
  have hSkip : (l ++ m).length - n = l.length + (m.length - n) := by
    rw [List.length_append]
    omega
  rw [List.rtake, List.rtake, hSkip, List.drop_length_add_append]

/-- The back is kept whole where it is short enough. -/
theorem rtake_append_of_ge (l : List α) {m : List α} {n : ℕ} (h : m.length ≤ n) :
    (l ++ m).rtake n = l.rtake (n - m.length) ++ m := by
  have hSkip : (l ++ m).length - n = l.length - (n - m.length) := by
    rw [List.length_append]
    omega
  rw [List.rtake, List.rtake, hSkip, List.drop_append_of_le_length (Nat.sub_le _ _)]

/-- What has been cut off does not matter for the end of a longer list. -/
theorem rtake_rtake_append (l m : List α) (n : ℕ) : (l.rtake n ++ m).rtake n = (l ++ m).rtake n := by
  have hFront : l.take (l.length - n) ++ l.rtake n = l := List.take_append_drop _ _
  by_cases hn : l.length ≤ n
  · rw [rtake_of_length_le hn]
  · have hLong : n ≤ (l.rtake n ++ m).length := by
      rw [List.length_append, length_rtake]
      omega
    conv_rhs => rw [← hFront, List.append_assoc]
    exact (rtake_append_of_le _ hLong).symm

/-! ### Slices -/

/-- A slice: its backing array from its first element on, and how many elements it has. -/
structure Slice (α : Type*) where
  array : List α
  len : ℕ
  len_le : len ≤ array.length

namespace Slice

def cap (s : Slice α) : ℕ := s.array.length

def elems (s : Slice α) : List α := s.array.take s.len

/-- `make([]T, len, cap)`. -/
def make (zero : α) (len cap : ℕ) (h : len ≤ cap) : Slice α where
  array := List.replicate cap zero
  len := len
  len_le := by rwa [List.length_replicate]

/-- `s[from:]`. -/
def dropFront (s : Slice α) (start : ℕ) : Slice α where
  array := s.array.drop start
  len := s.len - start
  len_le := by
    have hLen := s.len_le
    rw [List.length_drop]
    omega

/-- `s[:len]`, which can reach beyond the elements. -/
def cut (s : Slice α) (len : ℕ) (h : len ≤ s.cap) : Slice α where
  array := s.array
  len := len
  len_le := h

/-- `copy(s, source)`; the source is read before anything is written, as it may be a part of `s`. -/
def copy (s : Slice α) (source : List α) : Slice α where
  array := source.take s.len ++ s.array.drop (source.take s.len).length
  len := s.len
  len_le := by
    have hLen := s.len_le
    rw [List.length_append, List.length_drop]
    omega

/-- `append(s, data...)`: in place where there is room, else in a new array, which may be longer than it
must be by what `grow` says for the old room and the new length. -/
def append (zero : α) (grow : ℕ → ℕ → ℕ) (s : Slice α) (data : List α) : Slice α where
  array :=
    if s.len + data.length ≤ s.cap then s.elems ++ data ++ s.array.drop (s.len + data.length)
    else s.elems ++ data ++ List.replicate (grow s.cap (s.len + data.length)) zero
  len := s.len + data.length
  len_le := by
    have hLen : (s.elems ++ data).length = s.len + data.length := by
      rw [List.length_append, elems, List.length_take_of_le s.len_le]
    split
    · rw [List.length_append, hLen]
      omega
    · rw [List.length_append, hLen]
      omega

@[simp] theorem length_elems (s : Slice α) : s.elems.length = s.len := List.length_take_of_le s.len_le

theorem len_le_cap (s : Slice α) : s.len ≤ s.cap := s.len_le

@[simp] theorem len_make (zero : α) {len cap : ℕ} (h : len ≤ cap) : (make zero len cap h).len = len := rfl

@[simp] theorem len_dropFront (s : Slice α) (start : ℕ) : (s.dropFront start).len = s.len - start := rfl

@[simp] theorem len_cut (s : Slice α) {len : ℕ} (h : len ≤ s.cap) : (s.cut len h).len = len := rfl

@[simp] theorem len_copy (s : Slice α) (source : List α) : (s.copy source).len = s.len := rfl

@[simp] theorem len_append (zero : α) (grow : ℕ → ℕ → ℕ) (s : Slice α) (data : List α) :
    (s.append zero grow data).len = s.len + data.length := rfl

@[simp] theorem elems_dropFront (s : Slice α) (start : ℕ) :
    (s.dropFront start).elems = s.elems.drop start := by
  rw [elems, elems, List.drop_take]
  rfl

/-- Within the elements, the first of them. -/
theorem elems_cut (s : Slice α) {len : ℕ} (h : len ≤ s.cap) (hLen : len ≤ s.len) :
    (s.cut len h).elems = s.elems.take len := by
  rw [elems, elems, List.take_take, Nat.min_eq_left hLen]
  rfl

/-- A copy that does not fill the slice leaves the rest of it. -/
theorem elems_copy (s : Slice α) {source : List α} (h : source.length ≤ s.len) :
    (s.copy source).elems = source ++ s.elems.drop source.length := by
  show (source.take s.len ++ s.array.drop (source.take s.len).length).take s.len = _
  rw [List.take_of_length_le h, List.take_append, List.take_of_length_le h, elems, List.drop_take]

/-- A copy that fills the slice. -/
theorem elems_copy_all (s : Slice α) {source : List α} (h : source.length = s.len) :
    (s.copy source).elems = source := by
  rw [elems_copy s (Nat.le_of_eq h), h, List.drop_of_length_le (Nat.le_of_eq (length_elems s)), List.append_nil]

@[simp] theorem elems_append (zero : α) (grow : ℕ → ℕ → ℕ) (s : Slice α) (data : List α) :
    (s.append zero grow data).elems = s.elems ++ data := by
  have hLen : (s.elems ++ data).length = s.len + data.length := by
    rw [List.length_append, length_elems]
  show List.take (s.len + data.length) (if _ then _ else _) = _
  split
  · rw [← hLen, List.take_left]
  · rw [← hLen, List.take_left]

end Slice

end ManyAiCli.Text
