import ManyAiCli.Hub.PtyStream
import ManyAiCli.Text.Slice

/-! The replay buffer of a session as the slice it is. `appendPTYReplay` appends in place where there is
room, moves what it keeps to the front of the same array where there is not, and takes a new array where
the old one is too large; the buffer always holds the end of the output. -/

namespace ManyAiCli.Hub.ReplayBuffer

open Text PtyStream

/-- The buffer where it is not too long, else its end, in the same array. -/
def trimmed (buf : Slice UInt8) : Slice UInt8 :=
  if maxPTYBuf < buf.len then buf.dropFront (buf.len - maxPTYBuf) else buf

theorem len_trimmed_le (buf : Slice UInt8) : (trimmed buf).len ≤ maxPTYBuf := by
  rw [trimmed]
  split_ifs with h
  · rw [Slice.len_dropFront]
    omega
  · omega

/-- A buffer with too much room is copied to an array of `maxPTYBuf`. -/
def compacted (buf : Slice UInt8) : Slice UInt8 :=
  if maxPTYBuf < buf.cap then
    (Slice.make 0 (trimmed buf).len maxPTYBuf (len_trimmed_le buf)).copy (trimmed buf).elems
  else buf

/-- The slice of `maxPTYBuf` bytes that the end of a long chunk is copied to. -/
def filled (buf : Slice UInt8) : Slice UInt8 :=
  if h : buf.cap < maxPTYBuf then Slice.make 0 maxPTYBuf maxPTYBuf (Nat.le_refl _)
  else buf.cut maxPTYBuf (Nat.le_of_not_lt h)

/-- The last `keep` bytes, moved to the front. -/
def kept (buf : Slice UInt8) (keep : ℕ) (h : keep ≤ buf.len) : Slice UInt8 :=
  if 0 < keep then
    (buf.copy (buf.dropFront (buf.len - keep)).elems).cut keep
      (h.trans (Slice.len_le_cap (buf.copy (buf.dropFront (buf.len - keep)).elems)))
  else buf.cut 0 (Nat.zero_le _)

/-- `grow` is the room beyond the needed that the runtime gives a slice that `append` has to move. -/
def appendPTYReplay (grow : ℕ → ℕ → ℕ) (buf : Slice UInt8) (data : List UInt8) : Slice UInt8 :=
  if data = [] then buf
  else if maxPTYBuf ≤ data.length then
    (filled (compacted buf)).copy (data.drop (data.length - maxPTYBuf))
  else if h : (compacted buf).len + data.length ≤ maxPTYBuf then (compacted buf).append 0 grow data
  else (kept (compacted buf) (maxPTYBuf - data.length) (by omega)).append 0 grow data

/-! ### One chunk -/

variable {grow : ℕ → ℕ → ℕ} {buf : Slice UInt8}

theorem trimmed_of_le (h : buf.len ≤ maxPTYBuf) : trimmed buf = buf := if_neg (Nat.not_lt.2 h)

theorem elems_compacted (h : buf.len ≤ maxPTYBuf) : (compacted buf).elems = buf.elems := by
  rw [compacted]
  split_ifs with hRoom
  · have hLen : (trimmed buf).elems.length =
        (Slice.make 0 (trimmed buf).len maxPTYBuf (len_trimmed_le buf) : Slice UInt8).len :=
      Slice.length_elems _
    rw [Slice.elems_copy_all _ hLen, trimmed_of_le h]
  · rfl

theorem len_compacted (h : buf.len ≤ maxPTYBuf) : (compacted buf).len = buf.len := by
  rw [← Slice.length_elems, elems_compacted h, Slice.length_elems]

theorem len_filled (buf : Slice UInt8) : (filled buf).len = maxPTYBuf := by
  rw [filled]
  split_ifs with h
  · exact Slice.len_make 0 (Nat.le_refl _)
  · exact Slice.len_cut buf (Nat.le_of_not_lt h)

/-- The source and the target of the copy overlap where more than half is kept. -/
theorem elems_kept {keep : ℕ} (h : keep ≤ buf.len) : (kept buf keep h).elems = buf.elems.rtake keep := by
  have hStart : buf.elems.length - keep = buf.len - keep := by rw [Slice.length_elems]
  rw [kept, List.rtake, hStart]
  split_ifs with hKeep
  · have hLen : (buf.dropFront (buf.len - keep)).elems.length = keep := by
      rw [Slice.length_elems, Slice.len_dropFront]
      omega
    rw [Slice.elems_cut _ _ (by rwa [Slice.len_copy]), Slice.elems_copy _ (by rwa [hLen]), hLen]
    rw [List.take_append_of_le_length (Nat.le_of_eq hLen.symm), List.take_of_length_le (Nat.le_of_eq hLen),
      Slice.elems_dropFront]
  · obtain rfl : keep = 0 := by omega
    rw [Slice.elems_cut _ _ (Nat.zero_le _), List.take_zero, Nat.sub_zero,
      List.drop_of_length_le (Nat.le_of_eq (Slice.length_elems buf))]

/-- Each branch leaves the end of the buffer followed by the chunk. -/
theorem elems_appendPTYReplay (data : List UInt8) (h : buf.len ≤ maxPTYBuf) :
    (appendPTYReplay grow buf data).elems = (buf.elems ++ data).rtake maxPTYBuf := by
  have hLen : (compacted buf).len = buf.len := len_compacted h
  rw [appendPTYReplay]
  split_ifs with hNil hLong hFits
  · rw [hNil, List.append_nil, rtake_of_length_le (by rwa [Slice.length_elems])]
  · have hEnd : (data.drop (data.length - maxPTYBuf)).length = (filled (compacted buf)).len := by
      rw [len_filled, List.length_drop]
      omega
    rw [Slice.elems_copy_all _ hEnd, rtake_append_of_le _ hLong]
    rfl
  · have hAll : (buf.elems ++ data).length ≤ maxPTYBuf := by
      rw [List.length_append, Slice.length_elems]
      omega
    rw [Slice.elems_append, elems_compacted h, rtake_of_length_le hAll]
  · rw [Slice.elems_append, elems_kept, elems_compacted h, rtake_append_of_ge _ (by omega)]

theorem len_appendPTYReplay_le (data : List UInt8) (h : buf.len ≤ maxPTYBuf) :
    (appendPTYReplay grow buf data).len ≤ maxPTYBuf := by
  rw [← Slice.length_elems, elems_appendPTYReplay data h, length_rtake]
  exact Nat.min_le_left _ _

/-- Seen through its bytes, the buffer is the one of the terminal output on its way to the UIs. -/
theorem elems_appendPTYReplay_eq (data : List UInt8) (h : buf.len ≤ maxPTYBuf) :
    (appendPTYReplay grow buf data).elems = PtyStream.appendPTYReplay buf.elems data := by
  rw [elems_appendPTYReplay data h, PtyStream.appendPTYReplay]
  split_ifs with hNil
  · rw [hNil, List.append_nil, rtake_of_length_le (by rwa [Slice.length_elems])]
  · rfl

/-! ### A run of chunks -/

/-- The buffer after chunks. -/
def appendAll (grow : ℕ → ℕ → ℕ) (buf : Slice UInt8) (chunks : List (List UInt8)) : Slice UInt8 :=
  chunks.foldl (appendPTYReplay grow) buf

/-- However the runtime grows slices and whatever room there is, the buffer holds the last bytes of what
it started with followed by the chunks, at most `maxPTYBuf` of them. -/
theorem replay_is_end_of_stream (grow : ℕ → ℕ → ℕ) (chunks : List (List UInt8)) (buf : Slice UInt8)
    (h : buf.len ≤ maxPTYBuf) :
    (appendAll grow buf chunks).elems =
        (buf.elems ++ chunks.flatten).drop ((buf.elems ++ chunks.flatten).length -
          min maxPTYBuf (buf.elems ++ chunks.flatten).length) ∧
      (appendAll grow buf chunks).len ≤ maxPTYBuf := by
  induction chunks generalizing buf with
  | nil =>
    have hAll : min maxPTYBuf buf.elems.length = buf.elems.length := by
      rw [Slice.length_elems]
      omega
    rw [List.flatten_nil, List.append_nil, hAll, Nat.sub_self]
    exact ⟨rfl, h⟩
  | cons data chunks ih =>
    obtain ⟨hElems, hLen⟩ := ih (appendPTYReplay grow buf data) (len_appendPTYReplay_le data h)
    refine ⟨?_, hLen⟩
    rw [← rtake_eq_drop_min] at hElems ⊢
    rw [appendAll, List.foldl_cons, ← appendAll, hElems, elems_appendPTYReplay data h, rtake_rtake_append,
      List.append_assoc, List.flatten_cons]

/-- A buffer of one byte with room for one more. -/
def oneByte : Slice UInt8 where
  array := [7, 0]
  len := 1
  len_le := Nat.le_succ 1

/-- The first chunk fits the array, the second does not. -/
theorem oneByte_grows :
    (appendAll (fun _ _ => 0) oneByte [[1], [2, 3]]).elems = [7, 1, 2, 3] := by
  have hElems := (replay_is_end_of_stream (fun _ _ => 0) [[1], [2, 3]] oneByte
    (show 1 ≤ 2097152 by omega)).1
  have hAll : oneByte.elems ++ [[1], [2, 3]].flatten = [7, 1, 2, 3] := rfl
  have hMin : min maxPTYBuf 4 = 4 := Nat.min_eq_right (show 4 ≤ 2097152 by omega)
  rw [hAll, List.length_cons, List.length_cons, List.length_cons, List.length_singleton, hMin,
    Nat.sub_self] at hElems
  exact hElems

end ManyAiCli.Hub.ReplayBuffer
