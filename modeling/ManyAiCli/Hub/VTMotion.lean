import ManyAiCli.Hub.VTBounds
import ManyAiCli.Hub.VTChunking

/-! Cursor motion. A parameter has any number of digits, but is read as a 64-bit
integer, a larger one as if it were missing; it is added before the clamp, and the sum
wraps around. -/

namespace ManyAiCli.Hub.VTBuffer

open Text

/-- The control sequences that move the cursor. -/
inductive Motion
  | up
  | down
  | forward
  | back
  | column
  | position
  | positionF
  deriving DecidableEq, Repr

/-- The last byte of the sequence. -/
def Motion.final : Motion → UInt8
  | .up => 0x41
  | .down => 0x42
  | .forward => 0x43
  | .back => 0x44
  | .column => 0x47
  | .position => 0x48
  | .positionF => 0x66

def digitByte (d : Fin 10) : UInt8 := UInt8.ofNat (48 + d)

/-- Decimal parameters in their digits, between semicolons. -/
def paramBytes (ps : List (List (Fin 10))) : List UInt8 := [0x3B].intercalate (ps.map (·.map digitByte))

def sequence (ps : List (List (Fin 10))) (m : Motion) : List UInt8 := escByte :: 0x5B :: (paramBytes ps ++ [m.final])

def number (ds : List (Fin 10)) : ℕ := ds.foldl (fun n (d : Fin 10) => n * 10 + d.val) 0

/-- A parameter as it is meant: a missing one or 0 stands for 1. -/
def amount (ps : List (List (Fin 10))) (idx : ℕ) : ℤ :=
  let n := number (ps.getD idx [])
  if n = 0 then 1 else n

/-- Where the cursor belongs, by exact arithmetic. -/
def target (b : VTBuffer) (ps : List (List (Fin 10))) : Motion → ℤ × ℤ
  | .up => (clampInt (b.row - amount ps 0) 0 (b.rows - 1), b.col)
  | .down => (clampInt (b.row + amount ps 0) 0 (b.rows - 1), b.col)
  | .forward => (b.row, clampInt (b.col + amount ps 0) 0 (b.cols - 1))
  | .back => (b.row, clampInt (b.col - amount ps 0) 0 (b.cols - 1))
  | .column => (b.row, clampInt (amount ps 0 - 1) 0 (b.cols - 1))
  | .position | .positionF =>
    (clampInt (amount ps 0 - 1) 0 (b.rows - 1), clampInt (amount ps 1 - 1) 0 (b.cols - 1))

def maxInt : ℤ := 9223372036854775807

/-- The parameters are integers and so is the sum, or what becomes of them makes no
difference on this grid. -/
def Fits (b : VTBuffer) (ps : List (List (Fin 10))) : Motion → Prop
  | .up => amount ps 0 ≤ maxInt ∨ b.row ≤ 1
  | .down => b.row + amount ps 0 ≤ maxInt ∨ maxInt < amount ps 0 ∧ b.rows ≤ b.row + 2
  | .forward => b.col + amount ps 0 ≤ maxInt ∨ maxInt < amount ps 0 ∧ b.cols ≤ b.col + 2
  | .back => amount ps 0 ≤ maxInt ∨ b.col ≤ 1
  | .column => amount ps 0 ≤ maxInt ∨ b.cols = 1
  | .position | .positionF => (amount ps 0 ≤ maxInt ∨ b.rows = 1) ∧ (amount ps 1 ≤ maxInt ∨ b.cols = 1)

/-- With these bytes the parser, which may have taken some before, has the whole sequence. -/
structure Completes (b : VTBuffer) (data seq : List UInt8) : Prop where
  whole : b.esc ++ data = seq
  ne_nil : data ≠ []
  start : b.esc = [] → b.inString = false ∧ b.utf8Pending = []

variable {b : VTBuffer} {ps : List (List (Fin 10))} {m : Motion}

/-! ### Reading the parameters -/

theorem decodeRune_ascii {p : UInt8} (hp : p < 0x80) (bs : List UInt8) :
    decodeRune (p :: bs) = (Char.ofNat p.toNat, 1) := by
  have hlead : lead p = some (1, 0x80, 0xBF) := if_pos hp
  simp only [decodeRune, hlead]

theorem runes_go_ascii {bs : List UInt8} (h : ∀ p ∈ bs, p < 0x80) {n : ℕ} (hn : bs.length ≤ n) :
    runes.go n bs = bs.map fun p => Char.ofNat p.toNat := by
  induction bs generalizing n with
  | nil => cases n <;> rfl
  | cons p bs ih =>
    obtain ⟨n, rfl⟩ : ∃ k, n = k + 1 := ⟨n - 1, by simp at hn; omega⟩
    rw [runes.go, decodeRune_ascii (h p (List.mem_cons_self ..)), List.map_cons, List.drop_one, List.tail_cons,
      ih (fun q hq => h q (List.mem_cons_of_mem p hq)) (by simpa using hn)]

theorem runes_ascii {bs : List UInt8} (h : ∀ p ∈ bs, p < 0x80) :
    runes bs = bs.map fun p => Char.ofNat p.toNat := runes_go_ascii h (Nat.le_refl _)

def digitChar (d : Fin 10) : Char := Char.ofNat (48 + d)

theorem digitByte_facts : ∀ d : Fin 10, digitByte d < 0x3A ∧ Char.ofNat (digitByte d).toNat = digitChar d ∧
    (digitChar d).isDigit = true ∧ (digitChar d).toNat - 48 = d ∧ isSpace (digitChar d) = false ∧
    digitChar d ≠ ';' ∧ digitChar d ≠ '-' ∧ digitChar d ≠ '+' ∧ digitChar d ≠ '?' := by
  decide

theorem mem_of_mem_intercalate {α : Type*} {x sep : α} {ls : List (List α)} (h : x ∈ [sep].intercalate ls) :
    x = sep ∨ ∃ l ∈ ls, x ∈ l := by
  induction ls with
  | nil => exact absurd h List.not_mem_nil
  | cons l ls ih =>
    cases ls with
    | nil => exact .inr ⟨l, by simp, by simpa using h⟩
    | cons l' ls =>
      rw [List.intercalate_cons_cons, List.mem_append, List.mem_append, List.mem_singleton] at h
      rcases h with (h | h) | h
      · exact .inr ⟨l, by simp, h⟩
      · exact .inl h
      · exact (ih h).imp_right fun ⟨k, hk, hx⟩ => ⟨k, List.mem_cons_of_mem l hk, hx⟩

theorem mem_paramBytes {p : UInt8} (h : p ∈ paramBytes ps) : p < 0x40 := by
  rcases mem_of_mem_intercalate h with rfl | ⟨l, hl, hp⟩
  · decide
  · obtain ⟨ds, -, rfl⟩ := List.mem_map.1 hl
    obtain ⟨d, -, rfl⟩ := List.mem_map.1 hp
    exact Nat.lt_trans (digitByte_facts d).1 (by decide)

/-- The text of the parameters. -/
def paramText (ps : List (List (Fin 10))) : List Char := [';'].intercalate (ps.map (·.map digitChar))

theorem question_not_mem_paramText : '?' ∉ paramText ps := by
  intro h
  rcases mem_of_mem_intercalate h with h | ⟨l, hl, hc⟩
  · exact absurd h (by decide)
  · obtain ⟨ds, -, rfl⟩ := List.mem_map.1 hl
    obtain ⟨d, -, hd⟩ := List.mem_map.1 hc
    exact (digitByte_facts d).2.2.2.2.2.2.2.2 hd

theorem runes_paramBytes (ps : List (List (Fin 10))) : runes (paramBytes ps) = paramText ps := by
  rw [runes_ascii fun p hp => Nat.lt_trans (mem_paramBytes hp) (by decide)]
  unfold paramBytes paramText
  induction ps with
  | nil => rfl
  | cons ds ps ih =>
    have hdigits : (ds.map digitByte).map (fun p => Char.ofNat p.toNat) = ds.map digitChar := by
      rw [List.map_map]
      exact List.map_congr_left fun d _ => (digitByte_facts d).2.1
    cases ps with
    | nil => simpa using hdigits
    | cons ds' ps =>
      simp only [List.map_cons, List.intercalate_cons_cons, List.map_append] at ih ⊢
      rw [hdigits, ih]
      rfl

/-- The digits of a number from the left. -/
theorem foldl_digits (ds : List (Fin 10)) (n : ℕ) :
    (ds.map digitChar).foldl (fun n c => n * 10 + ((c.toNat - 48 : ℕ) : ℤ)) (n : ℤ) =
      (ds.foldl (fun n (d : Fin 10) => n * 10 + d.val) n : ℕ) := by
  induction ds generalizing n with
  | nil => rfl
  | cons d ds ih =>
    rw [List.map_cons, List.foldl_cons, List.foldl_cons, (digitByte_facts d).2.2.2.1, ← ih]
    push_cast
    rfl

theorem trimSpace_digits (ds : List (Fin 10)) : trimSpace (ds.map digitChar) = ds.map digitChar := by
  have hspace : ∀ c ∈ ds.map digitChar, ¬ isSpace c = true := by
    intro c hc
    obtain ⟨d, -, rfl⟩ := List.mem_map.1 hc
    simp [(digitByte_facts d).2.2.2.2.1]
  have hleft : (ds.map digitChar).dropWhile isSpace = ds.map digitChar := by
    rw [List.dropWhile_eq_self_iff]
    exact fun hl => hspace _ (List.getElem_mem hl)
  rw [trimSpace, trim, hleft, trimRight, List.rdropWhile_eq_self_iff]
  exact fun hl => hspace _ (List.getLast_mem hl)

/-- What is read for a parameter. -/
def readNumber (ds : List (Fin 10)) : ℤ := if (number ds : ℤ) ≤ maxInt then number ds else 0

theorem atoi_digits (ds : List (Fin 10)) : (atoi (trimSpace (ds.map digitChar))).getD 0 = readNumber ds := by
  rw [trimSpace_digits]
  cases ds with
  | nil => rfl
  | cons d ds =>
    have hall : ((d :: ds).map digitChar).all Char.isDigit = true := by
      rw [List.all_eq_true]
      intro c hc
      obtain ⟨e, -, rfl⟩ := List.mem_map.1 hc
      exact (digitByte_facts e).2.2.1
    have hvalue : digitsValue ((d :: ds).map digitChar) = some (number (d :: ds) : ℤ) := by
      rw [digitsValue, if_pos ⟨by simp, hall⟩]
      exact congrArg some (foldl_digits (d :: ds) 0)
    have hsign : atoi ((d :: ds).map digitChar) = (digitsValue ((d :: ds).map digitChar)).filter
        fun n => -9223372036854775808 ≤ n ∧ n ≤ 9223372036854775807 := by
      have hne := (digitByte_facts d).2.2.2.2.2.2
      rw [atoi]
      · exact fun t ht => hne.1 (List.cons.inj ht).1
      · exact fun t ht => hne.2.1 (List.cons.inj ht).1
    rw [hsign, hvalue, readNumber, Option.filter_some, maxInt]
    split_ifs with h1 h2
    · rfl
    · simp at h1
      omega
    · simp at h1
      omega
    · rfl

theorem param_map (ps : List (List (Fin 10))) (idx : ℕ) : param (ps.map readNumber) idx 1 =
    if readNumber (ps.getD idx []) = 0 then 1 else readNumber (ps.getD idx []) := by
  rw [param, List.getElem?_map, List.getD_eq_getElem?_getD]
  cases ps[idx]? with
  | none => rfl
  | some ds => rfl

/-- What is read for the parameters. -/
theorem param_paramText (ps : List (List (Fin 10))) (idx : ℕ) :
    param (parseCSIParams (paramText ps)) idx 1 =
      if readNumber (ps.getD idx []) = 0 then 1 else readNumber (ps.getD idx []) := by
  rw [← param_map, parseCSIParams]
  split_ifs with hnil
  · have hps : ps = [] ∨ ps = [[]] := by
      match ps with
      | [] => exact .inl rfl
      | [[]] => exact .inr rfl
      | [_ :: _] => simp [paramText] at hnil
      | _ :: _ :: _ => simp [paramText, List.intercalate_cons_cons] at hnil
    rcases hps with rfl | rfl
    · rfl
    · cases idx <;> rfl
  · have hne : ps.map (·.map digitChar) ≠ [] := by
      rintro h
      rw [paramText, h] at hnil
      exact hnil rfl
    have hsep : ∀ l ∈ ps.map (·.map digitChar), ';' ∉ l := by
      intro l hl hmem
      obtain ⟨ds, -, rfl⟩ := List.mem_map.1 hl
      obtain ⟨d, -, hd⟩ := List.mem_map.1 hmem
      exact (digitByte_facts d).2.2.2.2.2.1 hd
    rw [paramText, List.splitOn_intercalate ';' hsep hne, List.map_map]
    congr 2
    exact funext atoi_digits

theorem number_nonneg (ds : List (Fin 10)) : (0 : ℤ) ≤ number ds := Int.natCast_nonneg _

/-- A number in range is read as it is meant, one out of range as 1. -/
theorem param_eq (ps : List (List (Fin 10))) (idx : ℕ) : param (parseCSIParams (paramText ps)) idx 1 =
    if amount ps idx ≤ maxInt then amount ps idx else 1 := by
  rw [param_paramText, readNumber, amount]
  generalize number (ps.getD idx []) = n
  simp only [maxInt]
  split_ifs <;> omega

theorem amount_pos (ps : List (List (Fin 10))) (idx : ℕ) : 1 ≤ amount ps idx := by
  rw [amount]
  split_ifs <;> omega

/-! ### Collecting the sequence -/

theorem final_range : ∀ m : Motion, (0x40 ≤ m.final && m.final ≤ 0x7E) = true := by
  intro m
  cases m <;> decide

/-- A control sequence opens no payload. -/
theorem no_string (l : List UInt8) :
    ¬ ((escByte :: 0x5B :: l)[0]? = some escByte ∧ (escByte :: 0x5B :: l)[1]? = some 0x5D) ∧
    ¬ ((escByte :: 0x5B :: l)[0]? = some escByte ∧
      (escByte :: 0x5B :: l)[1]?.map isStringSequenceIntroducer = some true) := by
  simp [isStringSequenceIntroducer]

/-- A byte of the parameters is collected. -/
theorem extendEscape_param {c : UInt8} {u bytes : List UInt8} (he : b.esc ++ [c] = escByte :: 0x5B :: u)
    (hu : u <+: bytes) (hlt : ∀ p ∈ bytes, p < 0x40) (hlen : bytes.length + 2 ≤ maxEscapeSeqBytes) :
    b.extendEscape c = { b with esc := b.esc ++ [c] } := by
  have hcomplete : escapeComplete { b with esc := escByte :: 0x5B :: u } = false := by
    rw [escapeComplete]
    cases hlast : u.getLast? with
    | none => simp [hlast]
    | some ch =>
      have hch : ch < 0x40 := hlt ch (hu.subset (List.mem_of_getLast? hlast))
      have hnot : ¬ 0x40 ≤ ch := Nat.not_le.2 hch
      simp [hlast, hnot]
  have hshort : ¬ (escByte :: 0x5B :: u).length > maxEscapeSeqBytes := by
    have := hu.length_le
    simp only [List.length_cons]
    omega
  rw [extendEscape]
  simp only [he, hcomplete]
  rw [if_neg (no_string u).1, if_neg (no_string u).2, if_neg Bool.false_ne_true, if_neg hshort]

/-- The last byte runs the sequence. -/
theorem extendEscape_final {c : UInt8} {bytes : List UInt8} (he : b.esc ++ [c] = escByte :: 0x5B :: (bytes ++ [m.final])) :
    b.extendEscape c = { controlSequence { b with esc := b.esc ++ [c] } (runes bytes) (Char.ofNat m.final.toNat) with
      esc := [] } := by
  have hcomplete : escapeComplete { b with esc := escByte :: 0x5B :: (bytes ++ [m.final]) } = true := by
    rw [escapeComplete]
    simp only [ne_eq, not_true_eq_false, if_false, List.getLast?_concat]
    exact final_range m
  have hprocess (b : VTBuffer) : b.processEscape (escByte :: 0x5B :: (bytes ++ [m.final])) =
      b.controlSequence (runes bytes) (Char.ofNat m.final.toNat) := by
    have hcsi (l : List UInt8) (hl : l ≠ []) : b.processEscape (escByte :: 0x5B :: l) =
        b.controlSequence (runes l.dropLast) (Char.ofNat (l.getLast hl).toNat) := by
      cases l with
      | nil => exact absurd rfl hl
      | cons x l => rfl
    rw [hcsi _ (by simp), List.dropLast_concat, List.getLast_concat]
  rw [extendEscape]
  simp only [he, hcomplete]
  rw [if_neg (no_string _).1, if_neg (no_string _).2, if_pos trivial, hprocess]

/-- What the bytes of a sequence do when its first byte has been taken. -/
theorem writeAll_sequence {bytes data : List UInt8} (hlt : ∀ p ∈ bytes, p < 0x40)
    (hlen : bytes.length + 2 ≤ maxEscapeSeqBytes) (hs : b.inString = false) (he : b.esc ≠ []) (hne : data ≠ [])
    (h : b.esc ++ data = escByte :: 0x5B :: (bytes ++ [m.final])) :
    b.writeAll data =
      { controlSequence { b with esc := escByte :: 0x5B :: (bytes ++ [m.final]) } (runes bytes)
          (Char.ofNat m.final.toNat) with esc := [] } := by
  induction data generalizing b with
  | nil => exact absurd rfl hne
  | cons c data ih =>
    have hone : b.writeOne c data = (b.extendEscape c, data) := by
      rw [writeOne, hs, if_neg Bool.false_ne_true, if_pos he]
    rw [writeAll_cons, hone]
    cases data with
    | nil => rw [writeAll_nil, extendEscape_final h, h]
    | cons d data =>
      rw [List.append_cons] at h
      obtain ⟨u, hu, hprefix⟩ : ∃ u, b.esc ++ [c] = escByte :: 0x5B :: u ∧ u <+: bytes := by
        have hpre : b.esc ++ [c] <+: escByte :: 0x5B :: (bytes ++ [m.final]) := ⟨d :: data, h⟩
        obtain ⟨x, e, hesc⟩ := List.exists_cons_of_ne_nil he
        rw [hesc, List.cons_append] at hpre h ⊢
        obtain ⟨hx, hpre⟩ := List.cons_prefix_cons.1 hpre
        obtain ⟨y, u, hec⟩ := List.exists_cons_of_ne_nil (List.append_ne_nil_of_right_ne_nil e (List.cons_ne_nil c []))
        rw [hec] at hpre h ⊢
        obtain ⟨hy, hpre⟩ := List.cons_prefix_cons.1 hpre
        have hlength := congrArg List.length h
        simp only [List.length_cons, List.length_append, List.length_nil] at hlength
        exact ⟨u, by rw [hx, hy], List.prefix_of_prefix_length_le hpre (List.prefix_append ..) (by omega)⟩
      rw [extendEscape_param hu hprefix hlt hlen]
      exact ih hs (by simp) (by simp) h

theorem Completes.write {bytes data : List UInt8} (hb : b.ParserInv)
    (h : b.Completes data (escByte :: 0x5B :: (bytes ++ [m.final])))
    (hlt : ∀ p ∈ bytes, p < 0x40) (hlen : bytes.length + 2 ≤ maxEscapeSeqBytes) :
    b.write data =
      { controlSequence { b with esc := escByte :: 0x5B :: (bytes ++ [m.final]) } (runes bytes)
          (Char.ofNat m.final.toNat) with esc := [] } := by
  by_cases he : b.esc = []
  · obtain ⟨hs, hp⟩ := h.start he
    have hdata := h.whole
    rw [he, List.nil_append] at hdata
    have hone : b.writeOne escByte (0x5B :: (bytes ++ [m.final])) =
        ({ b with esc := [escByte] }, 0x5B :: (bytes ++ [m.final])) := by
      rw [writeOne, hs, if_neg Bool.false_ne_true, if_neg (not_not.2 he), if_pos rfl]
    rw [write_of_pending_nil hp, hdata, writeAll_cons, hone]
    exact writeAll_sequence hlt hlen hs (by simp) (by simp) rfl
  · have hs : b.inString = false := by
      by_contra hs
      exact he (hb.string_esc (by simpa using hs))
    have hp : b.utf8Pending = [] := by
      by_contra hp
      exact he (hb.pending hp).2.1
    rw [write_of_pending_nil hp]
    exact writeAll_sequence hlt hlen hs he h.ne_nil h.whole

/-! ### Where the cursor goes -/

theorem wrap64_of_over {n : ℤ} (h : 9223372036854775808 ≤ n) (h' : n < 18446744073709551616) :
    wrap64 n = n - 18446744073709551616 := by
  rw [wrap64, Int.bmod]
  omega

variable {x n size : ℤ}

/-- Down and to the right: a sum that wraps around ends on the first row or column. -/
theorem forward_iff (hx : 0 ≤ x ∧ x < size) (hsize : size < 9223372036854775808) (hn : 1 ≤ n) :
    clampInt (wrap64 (x + if n ≤ maxInt then n else 1)) 0 (size - 1) = clampInt (x + n) 0 (size - 1) ↔
      x + n ≤ maxInt ∨ maxInt < n ∧ size ≤ x + 2 := by
  unfold maxInt
  split_ifs with hle
  · rcases Int.lt_or_le (x + n) 9223372036854775808 with hsum | hsum
    · rw [wrap64_of_range (by omega) hsum]
      simp only [true_iff]
      omega
    · rw [wrap64_of_over hsum (by omega)]
      unfold clampInt
      split_ifs <;> omega
  · rw [wrap64_of_range (by omega) (by omega)]
    unfold clampInt
    split_ifs <;> omega

theorem back_iff (hx : 0 ≤ x ∧ x < size) (hsize : size < 9223372036854775808) (hn : 1 ≤ n) :
    clampInt (wrap64 (x - if n ≤ maxInt then n else 1)) 0 (size - 1) = clampInt (x - n) 0 (size - 1) ↔
      n ≤ maxInt ∨ x ≤ 1 := by
  unfold maxInt
  split_ifs with hle
  · rw [wrap64_of_range (by omega) (by omega)]
    simp only [true_iff]
    omega
  · rw [wrap64_of_range (by omega) (by omega)]
    unfold clampInt
    split_ifs <;> omega

theorem place_iff (hsize : 0 < size ∧ size < 9223372036854775808) (hn : 1 ≤ n) :
    clampInt (wrap64 ((if n ≤ maxInt then n else 1) - 1)) 0 (size - 1) = clampInt (n - 1) 0 (size - 1) ↔
      n ≤ maxInt ∨ size = 1 := by
  unfold maxInt
  split_ifs with hle
  · rw [wrap64_of_range (by omega) (by omega)]
    simp only [true_iff]
    omega
  · rw [wrap64_of_range (by omega) (by omega)]
    unfold clampInt
    split_ifs <;> omega

theorem controlSequence_motion (hg : b.Grid) (ps : List (List (Fin 10))) (m : Motion) :
    (((b.controlSequence (paramText ps) (Char.ofNat m.final.toNat)).row,
      (b.controlSequence (paramText ps) (Char.ofNat m.final.toNat)).col) = b.target ps m) ↔ b.Fits ps m := by
  have hrows : 0 < b.rows ∧ b.rows < 9223372036854775808 := hg.rows
  have hcols : 0 < b.cols ∧ b.cols < 9223372036854775808 := hg.cols
  have hprivate : (paramText ps).head? ≠ some '?' := fun h =>
    question_not_mem_paramText (List.mem_of_mem_head? h)
  have h₀ := amount_pos ps 0
  have h₁ := amount_pos ps 1
  have hread := param_eq ps
  unfold controlSequence
  simp only [if_neg hprivate]
  cases m with
  | up =>
    show (clampInt (wrap64 (b.row - param _ 0 1)) 0 (b.rows - 1), b.col) = _ ↔ _
    rw [hread, target, Prod.mk.injEq, back_iff hg.row hrows.2 h₀, Fits]
    simp
  | down =>
    show (clampInt (wrap64 (b.row + param _ 0 1)) 0 (b.rows - 1), b.col) = _ ↔ _
    rw [hread, target, Prod.mk.injEq, forward_iff hg.row hrows.2 h₀, Fits]
    simp
  | forward =>
    show (b.row, clampInt (wrap64 (b.col + param _ 0 1)) 0 (b.cols - 1)) = _ ↔ _
    rw [hread, target, Prod.mk.injEq, forward_iff hg.col hcols.2 h₀, Fits]
    simp
  | back =>
    show (b.row, clampInt (wrap64 (b.col - param _ 0 1)) 0 (b.cols - 1)) = _ ↔ _
    rw [hread, target, Prod.mk.injEq, back_iff hg.col hcols.2 h₀, Fits]
    simp
  | column =>
    show (b.row, clampInt (wrap64 (param _ 0 1 - 1)) 0 (b.cols - 1)) = _ ↔ _
    rw [hread, target, Prod.mk.injEq, place_iff hcols h₀, Fits]
    simp
  | position | positionF =>
    show (clampInt (wrap64 (param _ 0 1 - 1)) 0 (b.rows - 1), clampInt (wrap64 (param _ 1 1 - 1)) 0 (b.cols - 1)) = _ ↔ _
    rw [hread, hread, target, Prod.mk.injEq, place_iff hrows h₀, place_iff hcols h₁, Fits]

/-- On every run, and however the sequence is cut into writes, the cursor ends where exact
arithmetic puts it exactly when the parameters fit. -/
theorem motion_iff {cols rows : Int64} {ops : List VTOp} {data : List UInt8}
    (hrun : Checked.run cols rows ops = some b) (h : b.Completes data (sequence ps m))
    (hlen : (sequence ps m).length ≤ maxEscapeSeqBytes + 1) :
    ∃ b', Checked.write b data = some b' ∧ ((b'.row, b'.col) = b.target ps m ↔ b.Fits ps m) := by
  obtain ⟨he, hg⟩ := new_safe cols.toInt_lt rows.toInt_lt
  rw [Checked.run, he, Option.bind_some] at hrun
  obtain ⟨b₁, hb₁, hs⟩ := Sound.run ⟨hg, .new _ _, Nat.zero_le _⟩ ops
  obtain rfl : b₁ = b := Option.some.inj (hb₁.symm.trans hrun)
  refine ⟨_, (write_safe hs.grid data).1, ?_⟩
  have hbytes : (paramBytes ps).length + 2 ≤ maxEscapeSeqBytes := by
    simp only [sequence, List.length_cons, List.length_append, List.length_nil] at hlen
    omega
  rw [h.write (reachable_parserInv hs.reachable) (fun p hp => mem_paramBytes hp) hbytes, runes_paramBytes]
  exact controlSequence_motion (hs.grid.withParser _ _ _ _ _) ps m

/-- Three to the right on a new screen. -/
theorem motion_forward : ∃ b b', Checked.run 8 2 [] = some b ∧
    Checked.write b (sequence [[3]] .forward) = some b' ∧ (b'.row, b'.col) = b.target [[3]] .forward := by
  obtain ⟨b, hb⟩ : ∃ b, Checked.run 8 2 [] = some b := ⟨_, rfl⟩
  have hfields : b.col = 0 ∧ b.esc = [] ∧ b.inString = false ∧ b.utf8Pending = [] := by
    cases hb
    decide
  have hc : b.Completes (sequence [[3]] .forward) (sequence [[3]] .forward) :=
    ⟨by rw [hfields.2.1]; rfl, by decide, fun _ => hfields.2.2⟩
  obtain ⟨b', hw, hiff⟩ := motion_iff hb hc (by decide)
  refine ⟨b, b', hb, hw, hiff.2 (.inl ?_)⟩
  rw [hfields.1]
  decide

/-- A move to the right by the largest integer ends left of where it began. -/
theorem motion_wraps : ∃ b b' : VTBuffer, Checked.run 8 2 [.write [0x61]] = some b ∧
    Checked.write b (sequence [[9, 2, 2, 3, 3, 7, 2, 0, 3, 6, 8, 5, 4, 7, 7, 5, 8, 0, 7]] .forward) = some b' ∧
    b.Completes (sequence [[9, 2, 2, 3, 3, 7, 2, 0, 3, 6, 8, 5, 4, 7, 7, 5, 8, 0, 7]] .forward)
      (sequence [[9, 2, 2, 3, 3, 7, 2, 0, 3, 6, 8, 5, 4, 7, 7, 5, 8, 0, 7]] .forward) ∧
    b'.col < b.col ∧
    (b'.row, b'.col) ≠ b.target [[9, 2, 2, 3, 3, 7, 2, 0, 3, 6, 8, 5, 4, 7, 7, 5, 8, 0, 7]] .forward :=
  ⟨_, _, rfl, rfl, ⟨rfl, by decide, fun _ => ⟨rfl, rfl⟩⟩, by decide +kernel, by decide +kernel⟩

end ManyAiCli.Hub.VTBuffer
