import ManyAiCli.Hub.RenameRestore

/-! Does every file of a commit get its own numbers? Its line is found by its path, so it does where
the path of the line is read as it is. -/

namespace ManyAiCli.Hub.GitNumstat

open Text Wrapper

/-! ### The lines of a commit -/

def decimal (n : ℕ) : Bytes := (Nat.toDigits 10 n).map fun c => UInt8.ofNat c.toNat

/-- A file of a commit: where it was moved or copied from, and its numbers unless it is binary. -/
structure Change where
  source : Option Bytes
  path : Bytes
  counts : Option (ℕ × ℕ)
  fits : ∀ n ∈ counts, (n.1 : ℤ) ≤ maxInt ∧ (n.2 : ℤ) ≤ maxInt

namespace Change

variable (c : Change)

def name : Bytes :=
  match c.source with
  | some old => (Rename.mk old c.path).line
  | none => c.path

def numbers : Bytes × Bytes :=
  match c.counts with
  | some (added, removed) => (decimal added, decimal removed)
  | none => (ascii "-", ascii "-")

def body : Bytes := c.numbers.1 ++ tab :: (c.numbers.2 ++ tab :: c.name)

def entry : NumstatEntry :=
  match c.counts with
  | some (added, removed) => ⟨added, removed⟩
  | none => ⟨0, 0⟩

/-- Its line is read as its path. -/
def Restored : Prop :=
  IsPath c.path ∧
    match c.source with
    | some old => IsPath old ∧ (Rename.mk old c.path).Decodes
    | none => ¬ LooksRenamed c.path

end Change

/-- What git writes, after some empty lines. -/
def numstat (blank : ℕ) (changes : List Change) : Bytes :=
  List.replicate blank newline ++ changes.flatMap fun c => c.body ++ [newline]

/-! ### A number -/

theorem isDigit_toDigits {n : ℕ} : ∀ c ∈ Nat.toDigits 10 n, 48 ≤ c.toNat ∧ c.toNat ≤ 57 := by
  intro c hc
  have hd := Char.isDigit_iff_toNat.1 (Nat.isDigit_of_mem_toDigits (by decide) (by decide) hc)
  have h0 : '0'.toNat = 48 := rfl
  have h9 : '9'.toNat = 57 := rfl
  omega

theorem chars_decimal (n : ℕ) : (decimal n).map (fun b => Char.ofNat b.toNat) = Nat.toDigits 10 n := by
  rw [decimal, List.map_map]
  conv_rhs => rw [← List.map_id (Nat.toDigits 10 n)]
  refine List.map_congr_left fun c hc => ?_
  have hd := isDigit_toDigits c hc
  rw [Function.comp_apply, UInt8.toNat_ofNat', Nat.mod_eq_of_lt (by omega), Char.ofNat_toNat]
  rfl

theorem mem_decimal {n : ℕ} {b : UInt8} (h : b ∈ decimal n) : 0x30 ≤ b := by
  obtain ⟨c, hc, rfl⟩ := List.mem_map.1 h
  have hd := isDigit_toDigits c hc
  rw [UInt8.le_iff_toNat_le, UInt8.toNat_ofNat', Nat.mod_eq_of_lt (by omega)]
  exact hd.1

theorem foldl_digits_cast (ds : List Char) (m : ℕ) :
    ds.foldl (fun (n : ℤ) c => n * 10 + ((c.toNat - 48 : ℕ) : ℤ)) (m : ℤ) = (Nat.ofDigitChars 10 ds m : ℕ) := by
  induction ds generalizing m with
  | nil => rfl
  | cons c ds ih =>
    rw [List.foldl_cons, Nat.ofDigitChars_cons, ← ih]
    have h0 : '0'.toNat = 48 := rfl
    have hstep : (m : ℤ) * 10 + ((c.toNat - 48 : ℕ) : ℤ) = ((10 * m + (c.toNat - '0'.toNat) : ℕ) : ℤ) := by
      rw [h0]
      omega
    rw [hstep]

theorem digitsValue_toDigits (n : ℕ) : digitsValue (Nat.toDigits 10 n) = some (n : ℤ) := by
  have hall : (Nat.toDigits 10 n).all Char.isDigit = true := by
    rw [List.all_eq_true]
    exact fun c hc => Nat.isDigit_of_mem_toDigits (by decide) (by decide) hc
  have hne : Nat.toDigits 10 n ≠ [] := Nat.toDigits_ne_nil
  rw [digitsValue, if_pos ⟨hne, hall⟩]
  have hfold := foldl_digits_cast (Nat.toDigits 10 n) 0
  rw [Nat.ofDigitChars_ten_toDigits] at hfold
  exact congrArg some hfold

theorem atoiValue_decimal {n : ℕ} (h : (n : ℤ) ≤ maxInt) : atoiValue (decimal n) = n := by
  have hsign : ∀ c ∈ Nat.toDigits 10 n, c ≠ '-' ∧ c ≠ '+' := by
    intro c hc
    have hd := isDigit_toDigits c hc
    constructor
    · rintro rfl
      exact absurd hd.1 (by decide)
    · rintro rfl
      exact absurd hd.1 (by decide)
  have hvalue : atoiValue (decimal n) = max (-maxInt - 1) (min maxInt ((digitsValue (Nat.toDigits 10 n)).getD 0)) := by
    rw [atoiValue, chars_decimal]
    split
    next ds hds => exact absurd rfl (hsign '-' (hds ▸ List.mem_cons_self ..)).1
    next ds hds => exact absurd rfl (hsign '+' (hds ▸ List.mem_cons_self ..)).2
    next => rfl
  have hmax : maxInt = 9223372036854775807 := rfl
  rw [hvalue, digitsValue_toDigits, Option.getD_some]
  omega

/-! ### A line -/

namespace Rename

theorem mem_line {r : Rename} {b : UInt8} (h : b ∈ r.line) :
    b ∈ r.old ∨ b ∈ r.new ∨ b ∈ arrow ∨ b = lBrace ∨ b = rBrace := by
  have hmiddle : ∀ path, r.middle path ⊆ path :=
    fun path => List.Subset.trans (List.take_subset _ _) (List.drop_subset _ _)
  have hpre : r.pre ⊆ r.new := (slashPrefix_right r.old r.new).subset
  have hsuf : r.suf ⊆ r.new := List.Subset.trans (slashSuffix_right _ _).subset (List.drop_subset _ _)
  rw [line] at h
  split_ifs at h
  · rw [List.mem_append, List.mem_append] at h
    rcases h with (h | h) | h
    · exact .inl (hmiddle _ h)
    · exact .inr (.inr (.inl h))
    · exact .inr (.inl (hmiddle _ h))
  · simp only [List.mem_append, List.mem_singleton] at h
    rcases h with (((((h | h) | h) | h) | h) | h) | h
    · exact .inr (.inl (hpre h))
    · exact .inr (.inr (.inr (.inl h)))
    · exact .inl (hmiddle _ h)
    · exact .inr (.inr (.inl h))
    · exact .inr (.inl (hmiddle _ h))
    · exact .inr (.inr (.inr (.inr h)))
    · exact .inr (.inl (hsuf h))

end Rename

namespace Change

variable {c : Change}

/-- No control character is in the name. -/
theorem le_of_mem_name (h : c.Restored) {b : UInt8} (hb : b ∈ c.name) : 0x20 ≤ b := by
  have hpath : ∀ {path : Bytes}, IsPath path → b ∈ path → 0x20 ≤ b := by
    intro path hpath hb
    by_contra hlt
    exact hpath.unquoted b hb (.inl (UInt8.not_le.1 hlt))
  obtain ⟨hnew, hsource⟩ := h
  rw [name] at hb
  cases hold : c.source with
  | none =>
    rw [hold] at hb
    exact hpath hnew hb
  | some old =>
    rw [hold] at hb hsource
    have harrow : ∀ b ∈ arrow, (0x20 : UInt8) ≤ b := by decide +kernel
    rcases Rename.mem_line hb with hb | hb | hb | rfl | rfl
    · exact hpath hsource.1 hb
    · exact hpath hnew hb
    · exact harrow b hb
    · decide
    · decide

theorem restore_name (h : c.Restored) : gitNumstatRestoreRenamePath c.name = c.path := by
  obtain ⟨hnew, hsource⟩ := h
  rw [name]
  cases hold : c.source with
  | none =>
    rw [hold] at hsource
    exact (restore_eq_self_iff c.path).2 hsource
  | some old =>
    rw [hold] at hsource
    exact Rename.restore_line hsource.2 hnew

theorem mem_numbers {b : UInt8} (h : b ∈ c.numbers.1 ∨ b ∈ c.numbers.2) : 0x20 ≤ b := by
  rw [numbers] at h
  cases hcounts : c.counts with
  | none =>
    rw [hcounts] at h
    have hdash : ∀ b ∈ ascii "-", (0x20 : UInt8) ≤ b := by decide +kernel
    exact hdash b (or_self_iff.1 h)
  | some n =>
    rw [hcounts] at h
    have hle : (0x20 : UInt8) ≤ 0x30 := by decide
    rcases h with h | h
    · exact UInt8.le_trans hle (mem_decimal h)
    · exact UInt8.le_trans hle (mem_decimal h)

theorem atoiValue_numbers : (⟨atoiValue c.numbers.1, atoiValue c.numbers.2⟩ : NumstatEntry) = c.entry := by
  rw [numbers, entry]
  cases hcounts : c.counts with
  | none => decide
  | some n =>
    obtain ⟨added, removed⟩ := n
    have hfits := c.fits _ hcounts
    show (⟨atoiValue (decimal added), atoiValue (decimal removed)⟩ : NumstatEntry) = ⟨added, removed⟩
    rw [atoiValue_decimal hfits.1, atoiValue_decimal hfits.2]

theorem mem_body (h : c.Restored) {b : UInt8} (hb : b ∈ c.body) : b = tab ∨ 0x20 ≤ b := by
  rw [body, List.mem_append, List.mem_cons, List.mem_append, List.mem_cons] at hb
  rcases hb with hb | rfl | hb | rfl | hb
  · exact .inr (mem_numbers (.inl hb))
  · exact .inl rfl
  · exact .inr (mem_numbers (.inr hb))
  · exact .inl rfl
  · exact .inr (le_of_mem_name h hb)

theorem dropCarriageReturns_eq {s : Bytes} (h : carriageReturn ∉ s) : dropCarriageReturns s = s := by
  rw [dropCarriageReturns, List.rdropWhile_eq_self_iff]
  intro hne hlast
  exact h (of_decide_eq_true hlast ▸ List.getLast_mem hne)

theorem numstatLine_body (h : c.Restored) : numstatLine c.body = some (c.path, c.entry) := by
  have hcr : carriageReturn ∉ c.body := by
    intro hm
    rcases mem_body h hm with hm | hm
    · exact absurd hm (by decide)
    · exact absurd hm (by decide)
  have hname : carriageReturn ∉ c.name := fun hm => absurd (le_of_mem_name h hm) (by decide)
  have hne : c.body ≠ [] := by
    rw [body]
    exact List.append_ne_nil_of_right_ne_nil _ (List.cons_ne_nil _ _)
  have hfields : tabFields c.body = some (c.numbers.1, c.numbers.2, c.name) := by
    have hfirst : tab ∉ c.numbers.1 := fun hm => absurd (mem_numbers (.inl hm)) (by decide)
    have hsecond : tab ∉ c.numbers.2 := fun hm => absurd (mem_numbers (.inr hm)) (by decide)
    have hthird : tab ∉ c.name := fun hm => absurd (le_of_mem_name h hm) (by decide)
    rw [tabFields, body, List.splitOn_append_cons_self_of_not_mem hfirst,
      List.splitOn_append_cons_self_of_not_mem hsecond, List.splitOn_eq_singleton hthird]
    show some (_, _, [tab].intercalate [c.name]) = _
    rw [List.intercalate_singleton]
  rw [numstatLine, dropCarriageReturns_eq hcr]
  show (if c.body = [] then none else (tabFields c.body).map _) = _
  rw [if_neg hne, hfields, Option.map_some]
  show some (gitNumstatRestoreRenamePath (dropCarriageReturns c.name),
    (⟨atoiValue c.numbers.1, atoiValue c.numbers.2⟩ : NumstatEntry)) = _
  rw [dropCarriageReturns_eq hname, restore_name h, atoiValue_numbers]

end Change

/-! ### The commit -/

theorem parse_numstat {changes : List Change} (h : ∀ c ∈ changes, c.Restored) (blank : ℕ) :
    parseNumstatRaw (numstat blank changes) = (changes.map fun c => (c.path, c.entry)).reverse := by
  have hlines : (((changes.flatMap fun c => c.body ++ [newline]).splitOn newline).filterMap numstatLine) =
      changes.map fun c => (c.path, c.entry) := by
    induction changes with
    | nil => rfl
    | cons c changes ih =>
      rw [List.forall_mem_cons] at h
      have hone : newline ∉ c.body := by
        intro hm
        rcases Change.mem_body h.1 hm with hm | hm
        · exact absurd hm (by decide)
        · exact absurd hm (by decide)
      rw [List.flatMap_cons, List.append_assoc, List.singleton_append,
        List.splitOn_append_cons_self_of_not_mem hone, List.filterMap_cons, Change.numstatLine_body h.1, ih h.2]
      rfl
  rw [parseNumstatRaw, ← hlines, numstat]
  congr 1
  induction blank with
  | zero => rfl
  | succ blank ih =>
    rw [List.replicate_succ, List.cons_append, ← List.nil_append (newline :: _),
      List.splitOn_append_cons_self_of_not_mem List.not_mem_nil, List.filterMap_cons]
    exact ih

theorem lookup_reverse {entries : List (Bytes × NumstatEntry)} (hkeys : (entries.map Prod.fst).Nodup) (path : Bytes) :
    entries.reverse.lookup path = (entries.find? fun e => e.1 = path).map Prod.snd := by
  induction entries with
  | nil => rfl
  | cons e entries ih =>
    rw [List.map_cons, List.nodup_cons] at hkeys
    rw [List.reverse_cons, List.lookup_append, ih hkeys.2, List.find?_cons]
    by_cases hpath : e.1 = path
    · have hnone : entries.find? (fun e => e.1 = path) = none := by
        rw [List.find?_eq_none]
        intro e' he' heq
        exact hkeys.1 (hpath ▸ of_decide_eq_true heq ▸ List.mem_map_of_mem he')
      rw [hnone, decide_eq_true hpath, ← hpath, List.lookup_cons_self]
      rfl
    · have hmiss : [e].lookup path = none := by
        rw [List.lookup_cons, beq_false_of_ne (Ne.symm hpath)]
        rfl
      rw [hmiss, decide_eq_false hpath, Option.or_none]

theorem applyNumstat_numstat {changes : List Change} (hpaths : (changes.map Change.path).Nodup)
    (h : ∀ c ∈ changes, c.Restored) (blank : ℕ) (files : List GitShowFile) :
    applyNumstat files (numstat blank changes) = files.map fun file =>
      match changes.find? (fun c => c.path = file.path) with
      | some c => { file with added := c.entry.added, removed := c.entry.removed }
      | none => file := by
  have hkeys : ((changes.map fun c => (c.path, c.entry)).map Prod.fst).Nodup := by
    rwa [List.map_map]
  have hlookup : ∀ path, (parseNumstatRaw (numstat blank changes)).lookup path =
      (changes.find? fun c => c.path = path).map Change.entry := by
    intro path
    rw [parse_numstat h, lookup_reverse hkeys, List.find?_map, Option.map_map]
    rfl
  rw [applyNumstat]
  apply List.map_congr_left
  intro file _
  rw [hlookup]
  cases changes.find? fun c => c.path = file.path with
  | none => rfl
  | some c => rfl

/-! ### Whether the paths come out -/

/-- A rename comes out if the reader takes the notation's braces and arrow, and without braces in what the paths
share only then; another path stays if it does not look like a rename; and where all paths come out every file
has its own numbers. -/
theorem restored_iff_decodes (r : Rename) (hnew : IsPath r.new) (path : Bytes)
    (changes : List Change) (blank : ℕ) (files : List GitShowFile) :
    (r.Decodes → gitNumstatRestoreRenamePath r.line = r.new) ∧
    (lBrace ∉ r.pre → rBrace ∉ r.pre → (gitNumstatRestoreRenamePath r.line = r.new ↔ r.Decodes)) ∧
    (gitNumstatRestoreRenamePath path = path ↔ ¬ LooksRenamed path) ∧
    ((changes.map Change.path).Nodup → (∀ c ∈ changes, c.Restored) →
      applyNumstat files (numstat blank changes) = files.map fun file =>
        match changes.find? (fun c => c.path = file.path) with
        | some c => { file with added := c.entry.added, removed := c.entry.removed }
        | none => file) := by
  refine ⟨fun h => r.restore_line h hnew, fun hl hr => ⟨?_, fun h => r.restore_line h hnew⟩, ?_, ?_⟩
  · exact r.decodes_of_restore ⟨hl, hr⟩ hnew
  · exact restore_eq_self_iff path
  · intro hpaths h
    exact applyNumstat_numstat hpaths h blank files

/-- A directory between the two. -/
def srcRename : Rename := ⟨ascii "src/old/file.go", ascii "src/file.go"⟩

theorem isPath_of_check {path : Bytes} (hcomponents : (path.splitOn slash).all (· ≠ []) = true)
    (hunquoted : path.all (fun b => ¬ IsQuoted b) = true) : IsPath path where
  components := by simpa using hcomponents
  unquoted := by simpa using hunquoted

theorem srcRename_restored : srcRename.line = ascii "src/{old => }/file.go" ∧
    gitNumstatRestoreRenamePath srcRename.line = ascii "src/file.go" := by
  have hnew : IsPath srcRename.new := isPath_of_check (by decide +kernel) (by decide +kernel)
  refine ⟨by decide +kernel, (restored_iff_decodes srcRename hnew [] [] 0 []).1 ?_⟩
  decide +kernel

/-- A file of a template whose directory has braces in its name. -/
theorem template_rename_lost : ¬ ∀ r : Rename, IsPath r.old → IsPath r.new → r.old ≠ r.new →
    gitNumstatRestoreRenamePath r.line = r.new := by
  intro h
  have hrestore := h ⟨ascii "a{x}/b", ascii "a{x}/c"⟩ (isPath_of_check (by decide +kernel) (by decide +kernel))
    (isPath_of_check (by decide +kernel) (by decide +kernel)) (by decide +kernel)
  exact absurd hrestore (by decide +kernel)

end ManyAiCli.Hub.GitNumstat
