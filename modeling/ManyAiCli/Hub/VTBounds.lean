import ManyAiCli.Hub.VTParser

/-! The terminal mirror as it runs: every index into the grid is checked, `none` is a
run-time panic, and machine integers wrap around. The grid keeps its shape and the
cursor stays inside it, so on every run each check passes and the mirror is the one
without checks. -/

namespace ManyAiCli.Hub.VTBuffer

open Text

/-! ### The checked mirror -/

namespace Checked

/-- `cells[row][col] = r`. -/
def setCell (b : VTBuffer) (row col : ℤ) (r : Char) : Option VTBuffer :=
  if 0 ≤ row ∧ row < b.cells.length ∧ 0 ≤ col ∧ col < (b.cells.getD row.toNat []).length then
    some (b.setCell row col r)
  else none

/-- The loop of `clearRow` over the columns from `first` on. -/
def clearCols (b : VTBuffer) (row first : ℤ) (n : ℕ) : Option VTBuffer :=
  (List.range n).foldlM (fun b (i : ℕ) => setCell b row (wrap64 (first + i)) ' ') b

def clearRow (b : VTBuffer) (row first last : ℤ) : Option VTBuffer :=
  if row < 0 ∨ row ≥ b.rows then some b else
  let first := clampInt first 0 (b.cols - 1)
  let last := clampInt last 0 (b.cols - 1)
  clearCols b row first (last - first + 1).toNat

def clearRows (b : VTBuffer) (first last : ℤ) : Option VTBuffer :=
  (List.range (last - first).toNat).foldlM
    (fun b (i : ℕ) => clearRow b (wrap64 (first + i)) 0 (b.cols - 1)) b

def clearAll (b : VTBuffer) : Option VTBuffer := clearRows b 0 b.rows

def eraseDisplay (b : VTBuffer) (mode : ℤ) : Option VTBuffer :=
  if mode = 1 then (clearRows b 0 b.row).bind fun b => clearRow b b.row 0 b.col
  else if mode = 2 ∨ mode = 3 then (clearAll b).map fun b => { b with row := 0, col := 0 }
  else (clearRow b b.row b.col (b.cols - 1)).bind fun b => clearRows b (wrap64 (b.row + 1)) b.rows

def eraseLine (b : VTBuffer) (mode : ℤ) : Option VTBuffer :=
  if mode = 1 then clearRow b b.row 0 b.col
  else if mode = 2 then clearRow b b.row 0 (b.cols - 1)
  else clearRow b b.row b.col (b.cols - 1)

/-- The rows are copied up by one, which needs a first row to leave out, and the last
row is made anew. -/
def newLine (b : VTBuffer) : Option VTBuffer :=
  let row := wrap64 (b.row + 1)
  if row < b.rows then some { b with row := row }
  else
    let last := wrap64 (b.rows - 1)
    let moved := b.cells.drop 1 ++ b.cells.drop (b.cells.length - 1)
    if b.cells = [] ∨ last < 0 ∨ last ≥ moved.length then none
    else some { b with cells := moved.set last.toNat (blankLine b.cols), row := last }

def writeRune (b : VTBuffer) (r : Char) : Option VTBuffer :=
  if r = '\r' then some { b with col := 0 }
  else if r = '\n' then newLine b
  else if r = '\x08' then some (if b.col > 0 then { b with col := wrap64 (b.col - 1) } else b)
  else if r = '\t' then
    some { b with col := clampInt (wrap64 (wrap64 (b.col / 8 + 1) * 8)) 0 (b.cols - 1) }
  else if r.toNat < 0x20 then some b
  else
    (setCell b b.row b.col r).bind fun b =>
      let col := wrap64 (b.col + 1)
      if col ≥ b.cols then newLine { b with col := 0 } else some { b with col := col }

/-- The rows that are kept are copied, each up to the columns that are kept. -/
def resize (b : VTBuffer) (cols rows : ℤ) : Option VTBuffer :=
  let next := b.resize cols rows
  let copyRows := min next.rows b.rows
  let copyCols := min next.cols b.cols
  let inRange := (List.range copyRows.toNat).all fun r =>
    r < next.cells.length && r < b.cells.length && 0 ≤ copyCols &&
      copyCols ≤ (next.cells.getD r []).length && copyCols ≤ (b.cells.getD r []).length
  if b.cells ≠ [] ∧ inRange = false then none else some next

def new (cols rows : ℤ) : Option VTBuffer :=
  resize zero (if cols ≤ 0 then defaultVTCols else cols) (if rows ≤ 0 then defaultVTRows else rows)

def reset (b : VTBuffer) : Option VTBuffer := new b.cols b.rows

/-- The control sequences that draw; the others look at no cell. -/
def controlSequence (b : VTBuffer) (body : List Char) (final : Char) : Option VTBuffer :=
  let isPrivate := body.head? = some '?'
  let params := parseCSIParams (if isPrivate then body.tail else body)
  match final with
  | 'J' => eraseDisplay b (param params 0 0)
  | 'K' => eraseLine b (param params 0 0)
  | 'h' | 'l' =>
    if isPrivate ∧ params.head? = some 1049 then (clearAll b).map fun b => { b with row := 0, col := 0 }
    else some b
  | _ => some (b.controlSequence body final)

def processEscape (b : VTBuffer) (seq : List UInt8) : Option VTBuffer :=
  match seq with
  | 0x1B :: 0x5B :: c :: rest =>
    let bs := c :: rest
    controlSequence b (runes bs.dropLast) (Char.ofNat (bs.getLast (List.cons_ne_nil c rest)).toNat)
  | _ => some (b.processEscape seq)

def extendEscape (b : VTBuffer) (c : UInt8) : Option VTBuffer :=
  let b' := { b with esc := b.esc ++ [c] }
  if b'.escapeComplete ∧
      ¬ (b'.esc[0]? = some escByte ∧ b'.esc[1]?.map isStringSequenceIntroducer = some true) then
    (processEscape b' b'.esc).map fun b => { b with esc := [] }
  else some (b.extendEscape c)

def writeOne (b : VTBuffer) (c : UInt8) (rest : List UInt8) : Option (VTBuffer × List UInt8) :=
  if b.inString then some (b.skipString c rest)
  else if b.esc ≠ [] then (extendEscape b c).map fun b => (b, rest)
  else if c = escByte then some ({ b with esc := [escByte] }, rest)
  else
    let (r, size) := decodeRune (c :: rest)
    if r = runeError ∧ size = 1 ∧ fullRune (c :: rest) = false then
      some ({ b with utf8Pending := c :: rest }, [])
    else (writeRune b r).map fun b => (b, (c :: rest).drop size)

def writeLoop : ℕ → VTBuffer → List UInt8 → Option VTBuffer
  | 0, b, _ => some b
  | _, b, [] => some b
  | n + 1, b, c :: rest => (writeOne b c rest).bind fun r => writeLoop n r.1 r.2

def write (b : VTBuffer) (data : List UInt8) : Option VTBuffer :=
  if data = [] then some b
  else
    let buf := b.utf8Pending ++ data
    writeLoop buf.length { b with utf8Pending := [] } buf

end Checked

/-! ### The grid -/

/-- The cells are `rows` lines of `cols` runes, and the cursor and the saved cursor are
inside. -/
structure Grid (b : VTBuffer) : Prop where
  rows : 0 < b.rows ∧ b.rows < 9223372036854775808
  cols : 0 < b.cols ∧ b.cols < 9223372036854775808
  length : (b.cells.length : ℤ) = b.rows
  width : ∀ line ∈ b.cells, (line.length : ℤ) = b.cols
  row : 0 ≤ b.row ∧ b.row < b.rows
  col : 0 ≤ b.col ∧ b.col < b.cols
  savedRow : 0 ≤ b.savedRow ∧ b.savedRow < b.rows
  savedCol : 0 ≤ b.savedCol ∧ b.savedCol < b.cols

/-- All checks pass, and the grid is in order again. -/
def Safe (r : Option VTBuffer) (b : VTBuffer) : Prop := r = some b ∧ b.Grid

variable {b : VTBuffer}

theorem wrap64_of_range {n : ℤ} (h : -9223372036854775808 ≤ n) (h' : n < 9223372036854775808) :
    wrap64 n = n := by
  rw [wrap64, Int.bmod_eq_of_le] <;> omega

theorem clampInt_range (v : ℤ) {n : ℤ} (h : 0 < n) : 0 ≤ clampInt v 0 (n - 1) ∧ clampInt v 0 (n - 1) < n := by
  unfold clampInt
  split_ifs <;> omega

theorem Grid.setRow (h : b.Grid) {r : ℤ} (hr : 0 ≤ r ∧ r < b.rows) : Grid { b with row := r } :=
  ⟨h.rows, h.cols, h.length, h.width, hr, h.col, h.savedRow, h.savedCol⟩

theorem Grid.setCol (h : b.Grid) {c : ℤ} (hc : 0 ≤ c ∧ c < b.cols) : Grid { b with col := c } :=
  ⟨h.rows, h.cols, h.length, h.width, h.row, hc, h.savedRow, h.savedCol⟩

theorem Grid.setCells (h : b.Grid) {cells : List (List Char)} (hl : cells.length = b.cells.length)
    (hw : ∀ line ∈ cells, (line.length : ℤ) = b.cols) : Grid { b with cells := cells } :=
  ⟨h.rows, h.cols, by rw [← h.length, hl], hw, h.row, h.col, h.savedRow, h.savedCol⟩

theorem Grid.home (h : b.Grid) : Grid { b with row := 0, col := 0 } :=
  (h.setRow ⟨Int.le_refl 0, h.rows.1⟩).setCol ⟨Int.le_refl 0, h.cols.1⟩

/-- Changing a row keeps the shape when its width is kept. -/
theorem Grid.modify (h : b.Grid) (r : ℕ) {f : List Char → List Char} (hf : ∀ line, (f line).length = line.length) :
    Grid { b with cells := b.cells.modify r f } := by
  refine h.setCells (by simp) fun line hl => ?_
  obtain ⟨i, hi, rfl⟩ := List.getElem_of_mem hl
  rw [List.getElem_modify]
  split_ifs
  · rw [hf]
    exact h.width _ (List.getElem_mem _)
  · exact h.width _ (List.getElem_mem _)

theorem Grid.getD_length (h : b.Grid) {r : ℤ} (hr : 0 ≤ r ∧ r < b.rows) :
    ((b.cells.getD r.toNat []).length : ℤ) = b.cols := by
  have hl := h.length
  have hlt : r.toNat < b.cells.length := by omega
  rw [List.getD_eq_getElem?_getD, List.getElem?_eq_getElem hlt, Option.getD_some]
  exact h.width _ (List.getElem_mem _)

theorem setCell_safe (h : b.Grid) {r c : ℤ} (hr : 0 ≤ r ∧ r < b.rows) (hc : 0 ≤ c ∧ c < b.cols) (x : Char) :
    Safe (Checked.setCell b r c x) (b.setCell r c x) := by
  have hl := h.length
  have hw := h.getD_length hr
  refine ⟨if_pos ⟨hr.1, by omega, hc.1, by omega⟩, h.modify _ fun line => List.length_set⟩

/-! ### Clearing -/

theorem mapIdx_ge (line : List Char) (first : ℤ) :
    (line.mapIdx fun c x => if first ≤ c ∧ (c : ℤ) < first + (0 : ℕ) then ' ' else x) = line := by
  refine List.ext_getElem? fun i => ?_
  rw [List.getElem?_mapIdx]
  cases (line)[i]? with
  | none => rfl
  | some x =>
    rw [Option.map_some, if_neg]
    omega

/-- One more column cleared. -/
theorem mapIdx_set (line : List Char) {first : ℤ} (hf : 0 ≤ first) (n : ℕ) :
    ((line.mapIdx fun c x => if first ≤ c ∧ (c : ℤ) < first + n then ' ' else x).set (first + n).toNat ' ') =
      line.mapIdx fun c x => if first ≤ c ∧ (c : ℤ) < first + (n + 1 : ℕ) then ' ' else x := by
  refine List.ext_getElem? fun i => ?_
  rw [List.getElem?_set, List.getElem?_mapIdx, List.getElem?_mapIdx, List.length_mapIdx]
  by_cases hi : (first + n).toNat = i
  · subst hi
    rw [if_pos rfl]
    by_cases hlt : (first + n).toNat < line.length
    · rw [if_pos hlt, List.getElem?_eq_getElem hlt, Option.map_some, if_pos (by omega)]
    · rw [if_neg hlt, List.getElem?_eq_none (by omega), Option.map_none]
  · rw [if_neg hi]
    cases (line)[i]? with
    | none => rfl
    | some x =>
      rw [Option.map_some, Option.map_some]
      congr 1
      exact if_congr (by omega) rfl rfl

/-- Clearing `n` cells one after the other clears the columns they are in. -/
theorem clearCols_eq (h : b.Grid) {r first : ℤ} (hr : 0 ≤ r ∧ r < b.rows) (hf : 0 ≤ first) {n : ℕ}
    (hn : first + n ≤ b.cols) : Checked.clearCols b r first n = some { b with
      cells := b.cells.modify r.toNat fun line =>
        line.mapIdx fun c x => if first ≤ c ∧ (c : ℤ) < first + n then ' ' else x } := by
  have hc := h.cols
  induction n with
  | zero =>
    have hid : b.cells.modify r.toNat (fun line =>
        line.mapIdx fun c x => if first ≤ c ∧ (c : ℤ) < first + (0 : ℕ) then ' ' else x) = b.cells := by
      rw [funext fun line => mapIdx_ge line first]
      exact List.modify_id _ _
    rw [hid]
    rfl
  | succ n ih =>
    have hg := h.modify r.toNat (f := fun line => line.mapIdx fun c x =>
      if first ≤ c ∧ (c : ℤ) < first + n then ' ' else x) (by simp)
    rw [Checked.clearCols, List.range_succ, List.foldlM_append, ← Checked.clearCols, ih (by omega)]
    simp only [Option.bind_eq_bind, Option.bind_some, List.foldlM_cons, List.foldlM_nil]
    rw [wrap64_of_range (by omega) (by omega),
      (setCell_safe hg hr ⟨by omega, by push_cast at hn; dsimp only; omega⟩ ' ').1]
    simp only [setCell, List.modify_modify_eq, Function.comp_def, mapIdx_set _ hf, Option.bind_some, Option.pure_def]

theorem clearRow_safe (h : b.Grid) (r first last : ℤ) :
    Safe (Checked.clearRow b r first last) (b.clearRow r first last) := by
  unfold Checked.clearRow clearRow
  split_ifs with hr
  · exact ⟨rfl, h⟩
  · have hf := clampInt_range first h.cols.1
    have hl := clampInt_range last h.cols.1
    generalize clampInt first 0 (b.cols - 1) = f at hf ⊢
    generalize clampInt last 0 (b.cols - 1) = l at hl ⊢
    refine ⟨?_, h.modify _ (by simp)⟩
    rw [clearCols_eq h (by omega) hf.1 (by omega)]
    congr 3
    funext line
    congr 1
    funext c x
    exact if_congr (by omega) rfl rfl

/-- Clearing changes nothing but the cells. -/
theorem clearRow_eq (b : VTBuffer) (r first last : ℤ) :
    ∃ cells, b.clearRow r first last = { b with cells := cells } := by
  unfold clearRow
  split_ifs
  · exact ⟨b.cells, rfl⟩
  · exact ⟨_, rfl⟩

theorem clearRows_eq (b : VTBuffer) (first last : ℤ) :
    ∃ cells, b.clearRows first last = { b with cells := cells } := by
  unfold clearRows
  generalize List.range (last - first).toNat = is
  induction is generalizing b with
  | nil => exact ⟨b.cells, rfl⟩
  | cons i is ih =>
    obtain ⟨cells, hc⟩ := b.clearRow_eq (first + i) 0 (b.cols - 1)
    obtain ⟨cells', hc'⟩ := ih { b with cells := cells }
    exact ⟨cells', by rw [List.foldl_cons, hc, hc']⟩

theorem clearRows_safe (h : b.Grid) {first last : ℤ} (hf : 0 ≤ first) (hl : last ≤ b.rows) :
    Safe (Checked.clearRows b first last) (b.clearRows first last) := by
  have hrows := h.rows
  have hn : first + (last - first).toNat ≤ b.rows ∨ (last - first).toNat = 0 := by omega
  unfold Checked.clearRows clearRows
  generalize (last - first).toNat = n at hn ⊢
  induction n with
  | zero => exact ⟨rfl, h⟩
  | succ n ih =>
    obtain ⟨he, hg⟩ := ih (by omega)
    simp only [List.range_succ, List.foldlM_append, List.foldl_append, he, List.foldlM_cons, List.foldlM_nil,
      List.foldl_cons, List.foldl_nil, Option.bind_eq_bind, Option.bind_some, Option.pure_def, Option.bind_fun_some]
    rw [wrap64_of_range (by omega) (by omega)]
    exact clearRow_safe hg _ _ _

theorem clearAll_safe (h : b.Grid) : Safe (Checked.clearAll b) b.clearAll :=
  clearRows_safe h (Int.le_refl 0) (Int.le_refl _)

theorem Safe.bind {r : Option VTBuffer} {b' : VTBuffer} {f : VTBuffer → Option VTBuffer} {g : VTBuffer → VTBuffer}
    (h : Safe r b') (hf : b'.Grid → Safe (f b') (g b')) : Safe (r.bind f) (g b') := by
  obtain ⟨rfl, hg⟩ := h
  exact hf hg

theorem Safe.home {r : Option VTBuffer} {b' : VTBuffer} (h : Safe r b') :
    Safe (r.map fun b => { b with row := 0, col := 0 }) { b' with row := 0, col := 0 } := by
  obtain ⟨rfl, hg⟩ := h
  exact ⟨rfl, hg.home⟩

theorem eraseDisplay_safe (h : b.Grid) (mode : ℤ) : Safe (Checked.eraseDisplay b mode) (b.eraseDisplay mode) := by
  have hrow := h.row
  have hrows := h.rows
  unfold Checked.eraseDisplay eraseDisplay
  split_ifs
  · have hs := clearRows_safe h (Int.le_refl 0) (by omega : b.row ≤ b.rows)
    obtain ⟨cells, hc⟩ := b.clearRows_eq 0 b.row
    rw [hc] at hs ⊢
    exact hs.bind (g := fun b => b.clearRow b.row 0 b.col) fun hg => clearRow_safe hg _ _ _
  · exact (clearAll_safe h).home
  · have hs := clearRow_safe h b.row b.col (b.cols - 1)
    obtain ⟨cells, hc⟩ := b.clearRow_eq b.row b.col (b.cols - 1)
    rw [hc] at hs ⊢
    refine hs.bind (g := fun b => b.clearRows (b.row + 1) b.rows) fun hg => ?_
    rw [wrap64_of_range (by dsimp only; omega) (by dsimp only; omega)]
    exact clearRows_safe hg (by dsimp only; omega) (Int.le_refl _)

theorem eraseLine_safe (h : b.Grid) (mode : ℤ) : Safe (Checked.eraseLine b mode) (b.eraseLine mode) := by
  unfold Checked.eraseLine eraseLine
  split_ifs <;> exact clearRow_safe h _ _ _

/-! ### Writing -/

theorem newLine_safe (h : b.Grid) : Safe (Checked.newLine b) b.newLine := by
  have hrow := h.row
  have hrows := h.rows
  have hl := h.length
  unfold Checked.newLine newLine
  dsimp only
  rw [wrap64_of_range (by omega) (by omega), wrap64_of_range (by omega) (by omega)]
  split_ifs with hlt hbad
  · exact ⟨rfl, h.setRow (by omega)⟩
  · exfalso
    have hne : b.cells ≠ [] := by
      rintro hnil
      rw [hnil] at hl
      simp at hl
      omega
    simp only [hne, false_or, List.length_append, List.length_drop] at hbad
    omega
  · rw [not_or] at hbad
    have hset : ((b.cells.drop 1 ++ b.cells.drop (b.cells.length - 1)).set (b.rows - 1).toNat (blankLine b.cols)) =
        b.cells.drop 1 ++ [blankLine b.cols] := by
      rw [List.drop_length_sub_one hbad.1, List.set_append_right _ _ (by rw [List.length_drop]; omega),
        List.length_drop, show (b.rows - 1).toNat - (b.cells.length - 1) = 0 by omega, List.set_cons_zero]
    rw [hset]
    have hg : Grid { b with cells := b.cells.drop 1 ++ [blankLine b.cols] } := by
      refine h.setCells ?_ fun line hm => ?_
      · rw [List.length_append, List.length_drop, List.length_singleton]
        omega
      rcases List.mem_append.1 hm with hm | hm
      · exact h.width line (List.mem_of_mem_drop hm)
      · have hc := h.cols
        rw [List.mem_singleton.1 hm, blankLine, List.length_replicate]
        omega
    exact ⟨rfl, hg.setRow (r := b.rows - 1) ⟨by omega, by dsimp only; omega⟩⟩

theorem writeRune_safe (h : b.Grid) (r : Char) : Safe (Checked.writeRune b r) (b.writeRune r) := by
  have hcol := h.col
  have hcols := h.cols
  unfold Checked.writeRune writeRune
  split_ifs
  · exact ⟨rfl, h.setCol (by omega)⟩
  · exact newLine_safe h
  · rw [wrap64_of_range (by omega) (by omega)]
    exact ⟨rfl, h.setCol (by omega)⟩
  · exact ⟨rfl, h⟩
  · rw [wrap64_of_range (n := b.col / 8 + 1) (by omega) (by omega)]
    exact ⟨rfl, h.setCol (clampInt_range _ hcols.1)⟩
  · exact ⟨rfl, h⟩
  · refine (setCell_safe h h.row h.col r).bind
      (g := fun b => if b.col + 1 ≥ b.cols then ({ b with col := 0 }).newLine else { b with col := b.col + 1 })
      fun hg => ?_
    have hcol := hg.col
    have hcols := hg.cols
    dsimp only
    rw [wrap64_of_range (by omega) (by omega)]
    split_ifs
    · exact newLine_safe (hg.setCol (by omega))
    · exact ⟨rfl, hg.setCol (by omega)⟩

theorem Grid.save (h : b.Grid) : Grid { b with savedRow := b.row, savedCol := b.col } :=
  ⟨h.rows, h.cols, h.length, h.width, h.row, h.col, h.row, h.col⟩

theorem Grid.restore (h : b.Grid) : Grid { b with row := b.savedRow, col := b.savedCol } :=
  (h.setRow h.savedRow).setCol h.savedCol

theorem Grid.controlSequence (h : b.Grid) (body : List Char) (final : Char) :
    (b.controlSequence body final).Grid := by
  have hrow (v : ℤ) := clampInt_range v h.rows.1
  have hcol (v : ℤ) := clampInt_range v h.cols.1
  unfold VTBuffer.controlSequence
  dsimp only
  generalize parseCSIParams (if body.head? = some '?' then body.tail else body) = params
  split
  · exact h.setRow (hrow _)
  · exact h.setRow (hrow _)
  · exact h.setCol (hcol _)
  · exact h.setCol (hcol _)
  · exact h.setCol (hcol _)
  · exact (h.setRow (hrow _)).setCol (hcol _)
  · exact (h.setRow (hrow _)).setCol (hcol _)
  · exact (eraseDisplay_safe h _).2
  · exact (eraseLine_safe h _).2
  · exact h.save
  · exact h.restore
  · split_ifs
    · exact (clearAll_safe h).2.home
    · exact h
  · split_ifs
    · exact (clearAll_safe h).2.home
    · exact h
  · exact h

theorem controlSequence_safe (h : b.Grid) (body : List Char) (final : Char) :
    Safe (Checked.controlSequence b body final) (b.controlSequence body final) := by
  refine ⟨?_, h.controlSequence body final⟩
  unfold Checked.controlSequence VTBuffer.controlSequence
  dsimp only
  generalize parseCSIParams (if body.head? = some '?' then body.tail else body) = params
  split
  · exact (eraseDisplay_safe h _).1
  · exact (eraseLine_safe h _).1
  · split_ifs
    · exact (clearAll_safe h).home.1
    · rfl
  · split_ifs
    · exact (clearAll_safe h).home.1
    · rfl
  · rfl

theorem processEscape_safe (h : b.Grid) (seq : List UInt8) :
    Safe (Checked.processEscape b seq) (b.processEscape seq) := by
  unfold Checked.processEscape
  split
  · exact controlSequence_safe h _ _
  · refine ⟨rfl, ?_⟩
    unfold processEscape
    split
    · exact h.save
    · exact h.restore
    · exact h.controlSequence _ _
    · exact h

/-- The parser may change. -/
theorem Grid.withParser (h : b.Grid) (pending esc : List UInt8) (osc str : Bool) (skip : ℕ) :
    Grid { b with
      utf8Pending := pending, esc := esc, inOSC := osc, inStringSeq := str, stringSeqSkipBytes := skip } :=
  ⟨h.rows, h.cols, h.length, h.width, h.row, h.col, h.savedRow, h.savedCol⟩

theorem extendEscape_safe (h : b.Grid) (c : UInt8) : Safe (Checked.extendEscape b c) (b.extendEscape c) := by
  have hg : Grid { b with esc := b.esc ++ [c] } := h.withParser _ _ _ _ _
  unfold Checked.extendEscape
  dsimp only
  split_ifs with hc
  · obtain ⟨he, hp⟩ := processEscape_safe hg (b.esc ++ [c])
    have hosc : ¬ ((b.esc ++ [c])[0]? = some escByte ∧ (b.esc ++ [c])[1]? = some 0x5D) := by
      rintro ⟨h0, h1⟩
      exact hc.2 ⟨h0, by rw [h1]; rfl⟩
    unfold extendEscape
    dsimp only
    rw [if_neg hosc, if_neg hc.2, if_pos hc.1, he]
    exact ⟨rfl, hp.withParser _ _ _ _ _⟩
  · refine ⟨rfl, ?_⟩
    unfold extendEscape
    dsimp only
    split_ifs with h1 h2 h3
    · exact h.withParser _ _ _ _ _
    · exact h.withParser _ _ _ _ _
    · exact absurd ⟨h3, h2⟩ hc
    · exact h.withParser _ _ _ _ _
    · exact hg

theorem skipString_grid (h : b.Grid) (c : UInt8) (rest : List UInt8) : (b.skipString c rest).1.Grid := by
  unfold skipString skipByte endString
  split_ifs <;> dsimp only
  · exact h.withParser _ _ _ _ _
  · exact h.withParser _ _ _ _ _
  · exact h.withParser _ _ _ _ _
  · exact h.withParser _ _ _ _ _
  · split_ifs <;> exact h.withParser _ _ _ _ _

theorem writeOne_safe (h : b.Grid) (c : UInt8) (rest : List UInt8) :
    Checked.writeOne b c rest = some (b.writeOne c rest) ∧ (b.writeOne c rest).1.Grid := by
  unfold Checked.writeOne writeOne
  split_ifs
  · exact ⟨rfl, skipString_grid h c rest⟩
  · obtain ⟨he, hg⟩ := extendEscape_safe h c
    exact ⟨by rw [he]; rfl, hg⟩
  · exact ⟨rfl, h.withParser _ _ _ _ _⟩
  · dsimp only
    split_ifs
    · exact ⟨rfl, h.withParser _ _ _ _ _⟩
    · obtain ⟨he, hg⟩ := writeRune_safe h (decodeRune (c :: rest)).1
      exact ⟨by rw [he]; rfl, hg⟩

theorem writeLoop_safe (h : b.Grid) (n : ℕ) (buf : List UInt8) :
    Safe (Checked.writeLoop n b buf) (writeLoop n b buf) := by
  induction n generalizing b buf with
  | zero => exact ⟨rfl, h⟩
  | succ n ih =>
    cases buf with
    | nil => exact ⟨rfl, h⟩
    | cons c rest =>
      obtain ⟨he, hg⟩ := writeOne_safe h c rest
      rw [Checked.writeLoop, he, Option.bind_some]
      exact ih hg _

theorem write_safe (h : b.Grid) (data : List UInt8) : Safe (Checked.write b data) (b.write data) := by
  unfold Checked.write write
  split_ifs
  · exact ⟨rfl, h⟩
  · exact writeLoop_safe (h.withParser _ _ _ _ _) _ _

/-! ### Resizing -/

theorem resize_grid {cols rows : ℤ} (hc : cols < 9223372036854775808) (hr : rows < 9223372036854775808) :
    (b.resize cols rows).Grid := by
  have hc' : 0 < (b.resize cols rows).cols ∧ (b.resize cols rows).cols < 9223372036854775808 := by
    simp only [resize, defaultVTCols]
    split_ifs <;> omega
  have hr' : 0 < (b.resize cols rows).rows ∧ (b.resize cols rows).rows < 9223372036854775808 := by
    simp only [resize, defaultVTRows]
    split_ifs <;> omega
  refine ⟨hr', hc', ?_, ?_, clampInt_range _ hr'.1, clampInt_range _ hc'.1, clampInt_range _ hr'.1,
    clampInt_range _ hc'.1⟩
  · rw [show (b.resize cols rows).cells.length = (b.resize cols rows).rows.toNat by simp [resize]]
    omega
  · intro line hl
    obtain ⟨r, -, rfl⟩ := List.mem_map.1 hl
    rw [List.length_map, List.length_range]
    exact Int.toNat_of_nonneg (Int.le_of_lt hc'.1)

theorem resize_safe (h : b.Grid ∨ b.cells = []) {cols rows : ℤ} (hc : cols < 9223372036854775808)
    (hr : rows < 9223372036854775808) : Safe (Checked.resize b cols rows) (b.resize cols rows) := by
  have hg := resize_grid (b := b) hc hr
  refine ⟨if_neg ?_, hg⟩
  rintro ⟨hne, hall⟩
  have h := h.resolve_right hne
  rw [List.all_eq_false] at hall
  obtain ⟨r, hm, hbad⟩ := hall
  rw [List.mem_range] at hm
  have hl := h.length
  have hl' := hg.length
  have hw := h.getD_length (r := r) (by omega)
  have hw' := hg.getD_length (r := r) (by omega)
  rw [Int.toNat_natCast] at hw hw'
  have := h.cols
  have := hg.cols
  simp only [Bool.and_eq_true, decide_eq_true_eq] at hbad
  omega

theorem new_safe {cols rows : ℤ} (hc : cols < 9223372036854775808) (hr : rows < 9223372036854775808) :
    Safe (Checked.new cols rows) (newVTBuffer cols rows) := by
  unfold Checked.new newVTBuffer
  refine resize_safe (.inr rfl) ?_ ?_
  · unfold defaultVTCols
    split_ifs <;> omega
  · unfold defaultVTRows
    split_ifs <;> omega

theorem reset_safe (h : b.Grid) : Safe (Checked.reset b) b.reset := new_safe h.cols.2 h.rows.2

/-! ### Bounds of the parser -/

theorem length_of_not_fullRune {xs : List UInt8} (h : fullRune xs = false) : xs.length ≤ 3 := by
  cases xs with
  | nil => simp
  | cons p ps =>
    cases hl : lead p with
    | none => simp [fullRune, hl] at h
    | some r =>
      obtain ⟨n, lo, hi⟩ := r
      have hn := lead_width hl
      simp only [fullRune, hl, Bool.or_eq_false_iff, decide_eq_false_iff_not] at h
      rw [List.length_cons]
      omega

theorem writeOne_esc (h : b.esc.length ≤ maxEscapeSeqBytes) (c : UInt8) (rest : List UInt8) :
    (b.writeOne c rest).1.esc.length ≤ maxEscapeSeqBytes := by
  rw [writeOne_eq]
  split_ifs
  · unfold skipString skipByte endString
    split_ifs <;> dsimp only <;> try exact h
    split_ifs <;> exact h
  · unfold extendEscape
    dsimp only
    split_ifs with h1 h2 h3 h4
    · exact Nat.zero_le _
    · exact Nat.zero_le _
    · exact Nat.zero_le _
    · exact Nat.zero_le _
    · exact not_lt.1 h4
  · exact (by decide : [escByte].length ≤ maxEscapeSeqBytes)
  · rwa [(parser_eq (writeRune_parserState b _)).2.1]
  · exact h

theorem writeLoop_esc (h : b.esc.length ≤ maxEscapeSeqBytes) (n : ℕ) (buf : List UInt8) :
    (writeLoop n b buf).esc.length ≤ maxEscapeSeqBytes := by
  induction n generalizing b buf with
  | zero => exact h
  | succ n ih =>
    cases buf with
    | nil => exact h
    | cons c rest => exact ih (writeOne_esc h c rest) _

/-! ### Runs -/

inductive VTOp
  | write (data : List UInt8)
  | resize (cols rows : Int64)
  | reset

def Checked.apply (b : VTBuffer) : VTOp → Option VTBuffer
  | .write data => write b data
  | .resize cols rows => resize b cols.toInt rows.toInt
  | .reset => reset b

def Checked.run (cols rows : Int64) (ops : List VTOp) : Option VTBuffer :=
  (new cols.toInt rows.toInt).bind fun b => ops.foldlM apply b

/-- The fields of a mirror fit together. -/
structure Mirror (b : VTBuffer) : Prop where
  rows : (b.cells.length : ℤ) = b.rows
  cols : ∀ line ∈ b.cells, (line.length : ℤ) = b.cols
  row : 0 ≤ b.row ∧ b.row < b.rows
  savedRow : 0 ≤ b.savedRow ∧ b.savedRow < b.rows
  col : 0 ≤ b.col ∧ b.col < b.cols
  savedCol : 0 ≤ b.savedCol ∧ b.savedCol < b.cols
  esc : b.esc.length ≤ maxEscapeSeqBytes
  utf8Pending : b.utf8Pending.length ≤ 3
  stringSeqSkipBytes : b.stringSeqSkipBytes ≤ maxStringSeqSkipBytes
  oneMode : [b.inOSC, b.inStringSeq, b.esc ≠ [], b.utf8Pending ≠ []].countP (· = true) ≤ 1

/-- A buffer in use, with all that is known of it. -/
structure Sound (b : VTBuffer) : Prop where
  grid : b.Grid
  reachable : VTReachable b
  esc : b.esc.length ≤ maxEscapeSeqBytes

theorem Sound.mirror (h : b.Sound) : b.Mirror := by
  have hp := reachable_parserInv h.reachable
  refine ⟨h.grid.length, h.grid.width, h.grid.row, h.grid.savedRow, h.grid.col, h.grid.savedCol, h.esc, ?_,
    hp.skip_le, ?_⟩
  · by_cases hn : b.utf8Pending = []
    · simp [hn]
    · exact length_of_not_fullRune (hp.pending hn).2.2
  · have hcount (osc str esc pending : Bool) (h1 : osc = true → str = false)
        (h2 : (osc || str) = true → esc = false) (h3 : pending = true → (osc || str) = false ∧ esc = false) :
        [osc, str, esc, pending].countP (· = true) ≤ 1 := by
      revert h1 h2 h3
      cases osc <;> cases str <;> cases esc <;> cases pending <;> decide
    refine hcount _ _ _ _ hp.osc_string (fun hs => ?_) fun hn => ?_
    · simp [hp.string_esc hs]
    · have := hp.pending (by simpa using hn)
      exact ⟨this.1, by simp [this.2.1]⟩

theorem Sound.apply (h : b.Sound) (op : VTOp) : ∃ b', Checked.apply b op = some b' ∧ b'.Sound := by
  cases op with
  | write data =>
    obtain ⟨he, hg⟩ := write_safe h.grid data
    refine ⟨_, he, hg, h.reachable.write data, ?_⟩
    unfold write
    split_ifs
    · exact h.esc
    · exact writeLoop_esc (b := { b with utf8Pending := [] }) h.esc _ _
  | resize cols rows =>
    obtain ⟨he, hg⟩ := resize_safe (.inl h.grid) cols.toInt_lt rows.toInt_lt
    exact ⟨_, he, hg, h.reachable.resize _ _, h.esc⟩
  | reset =>
    obtain ⟨he, hg⟩ := reset_safe h.grid
    exact ⟨_, he, hg, h.reachable.reset, Nat.zero_le _⟩

theorem Sound.run (h : b.Sound) (ops : List VTOp) : ∃ b', ops.foldlM Checked.apply b = some b' ∧ b'.Sound := by
  induction ops generalizing b with
  | nil => exact ⟨b, rfl, h⟩
  | cons op ops ih =>
    obtain ⟨b₁, he, h₁⟩ := h.apply op
    rw [List.foldlM_cons, he]
    exact ih h₁

/-- Whatever is written to a mirror and however it is resized, no index is ever out of
range and its fields fit together. -/
theorem mirror_run (cols rows : Int64) (ops : List VTOp) : ∃ b, Checked.run cols rows ops = some b ∧ b.Mirror := by
  obtain ⟨he, hg⟩ := new_safe cols.toInt_lt rows.toInt_lt
  rw [Checked.run, he, Option.bind_some]
  obtain ⟨b, hb, hs⟩ := Sound.run ⟨hg, .new _ _, Nat.zero_le _⟩ ops
  exact ⟨b, hb, hs.mirror⟩

end ManyAiCli.Hub.VTBuffer
