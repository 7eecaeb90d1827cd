import ManyAiCli.Wrapper.ApprovalRules

/-! The Stop hook of Codex in `~/.codex/config.toml`: a block of lines between two markers,
put in for a session and taken out again. A file is its bytes, `none` where there is no
file. -/

namespace ManyAiCli.Wrapper

open Text

def usageHookBlockStart : Bytes := ascii "# many-ai-cli:usage-hook-start"

def usageHookBlockEnd : Bytes := ascii "# many-ai-cli:usage-hook-end"

/-- The markers of older versions. -/
def legacyUsageHookBlockStart : Bytes := ascii "# any-ai-cli:usage-hook-start"

def legacyUsageHookBlockEnd : Bytes := ascii "# any-ai-cli:usage-hook-end"

/-- `%d` of a session ID. -/
def sessionDigits (sessionID : ℕ) : Bytes := ascii sessionID.repr

/-- The line with the command; `head` is what `%q` makes of it up to the session ID: the
token, the executable and the URL of the Hub, which are the same for every session. -/
def hookCommandLine (head : Bytes) (sessionID : ℕ) : Bytes :=
  ascii "command = \"" ++ (head ++ (ascii " --session " ++ (sessionDigits sessionID ++ ascii "\"")))

def codexStopHookBlock (head : Bytes) (sessionID : ℕ) : Bytes :=
  usageHookBlockStart ++ newline :: (ascii "[[hooks.Stop]]" ++ newline ::
    (hookCommandLine head sessionID ++ newline :: (usageHookBlockEnd ++ [newline])))

/-- The length of a match with the line end after it, if there. -/
def withBreakAfter (s : Bytes) (n : ℕ) : ℕ := if [newline] <+: s.drop n then n + 1 else n

/-- The block that is replaced: from the start marker to the end marker and line end. -/
def hookBlockLen (s : Bytes) : Option ℕ :=
  (blockLen usageHookBlockStart usageHookBlockEnd s).map (withBreakAfter s)

/-- A line end, one of the blocks and another line end. -/
def brokenBlockLen (blocks : Bytes → Option ℕ) (s : Bytes) : Option ℕ :=
  let withBreak := match s with
    | b :: rest => if b = newline then (blocks rest).map (· + 1) else none
    | [] => none
  (withBreak.or (blocks s)).map (withBreakAfter s)

def legacyBlockLen (s : Bytes) : Option ℕ := blockLen legacyUsageHookBlockStart legacyUsageHookBlockEnd s

def eitherHookLen (s : Bytes) : Option ℕ :=
  (blockLen usageHookBlockStart usageHookBlockEnd s).or (legacyBlockLen s)

/-- `InjectCodexStopHook`. -/
def injectCodexStopHook (head : Bytes) (sessionID : ℕ) (config : Option Bytes) : Option Bytes :=
  let content := config.getD []
  let content := if (index legacyUsageHookBlockStart content).isSome then
    cutAll (brokenBlockLen legacyBlockLen) 0 content else content
  if (index usageHookBlockStart content).isSome then
    some (replaceAll hookBlockLen (codexStopHookBlock head sessionID) 0 content)
  else
    let content := if content ≠ [] ∧ content.getLast? ≠ some newline then content ++ [newline] else content
    some (content ++ newline :: codexStopHookBlock head sessionID)

/-- `RemoveCodexStopHook`. -/
def removeCodexStopHook (config : Option Bytes) : Option Bytes :=
  match config with
  | none => none
  | some content =>
    if (index usageHookBlockStart content).isNone ∧ (index legacyUsageHookBlockStart content).isNone then
      some content
    else some (cutAll (brokenBlockLen eitherHookLen) 0 content)

/-- The file holds the hook block of the session. -/
def HasHook (head : Bytes) (config : Option Bytes) (sessionID : ℕ) : Prop :=
  ∃ content, config = some content ∧ codexStopHookBlock head sessionID <:+: content

/-- Text without a start marker. -/
def Unmarked (s : Bytes) : Prop := ¬ usageHookBlockStart <:+: s ∧ ¬ legacyUsageHookBlockStart <:+: s

/-- No command line holds a marker. -/
def CleanHead (head : Bytes) : Prop :=
  ∀ id, Unmarked (hookCommandLine head id) ∧ ¬ usageHookBlockEnd <:+: hookCommandLine head id

/-- The file is other text, with the block of the session after it if there is one. -/
def Holds (head : Bytes) (config : Option Bytes) : Option ℕ → Prop
  | none => Unmarked (config.getD [])
  | some id => ∃ u, Unmarked u ∧ config = some (u ++ newline :: codexStopHookBlock head id)

/-! ### Where the markers are -/

theorem index_isNone_iff {sub s : Bytes} : (index sub s).isNone = true ↔ ¬ sub <:+: s := by
  rw [← index_isSome_iff]
  cases index sub s <;> simp

variable {head : Bytes} {id : ℕ} {u t : Bytes}

theorem Unmarked.of_suffix (h : Unmarked t) (hu : u <:+ t) : Unmarked u :=
  ⟨fun hi => h.1 (hi.trans hu.isInfix), fun hi => h.2 (hi.trans hu.isInfix)⟩

/-- No marker begins before the next line. -/
theorem Unmarked.no_marker_at (h : Unmarked u) (t : Bytes) :
    ¬ usageHookBlockStart <+: u ++ newline :: t ∧ ¬ legacyUsageHookBlockStart <+: u ++ newline :: t :=
  ⟨fun hp => h.1 (prefix_of_prefix_append_cons (by decide) hp).isInfix,
    fun hp => h.2 (prefix_of_prefix_append_cons (by decide) hp).isInfix⟩

theorem blockLen_eq_none {start stop s : Bytes} (h : ¬ start <+: s) : blockLen start stop s = none := by
  rw [blockLen, if_neg h]

theorem Unmarked.eitherHookLen (h : Unmarked u) (t : Bytes) : eitherHookLen (u ++ newline :: t) = none := by
  rw [Wrapper.eitherHookLen, legacyBlockLen, blockLen_eq_none (h.no_marker_at t).1,
    blockLen_eq_none (h.no_marker_at t).2]
  rfl

theorem brokenBlockLen_eq_none {blocks : Bytes → Option ℕ} {b : UInt8} {s : Bytes}
    (hb : blocks (b :: s) = none) (hs : blocks s = none) : brokenBlockLen blocks (b :: s) = none := by
  simp [brokenBlockLen, hb, hs]

/-- A block between two line ends. -/
theorem brokenBlockLen_break {blocks : Bytes → Option ℕ} {s : Bytes} {n : ℕ} (hb : blocks s = some n)
    (hd : s.drop n = [newline]) : brokenBlockLen blocks (newline :: s) = some (n + 1 + 1) := by
  simp only [brokenBlockLen, if_true, hb, Option.map_some, Option.some_or, withBreakAfter,
    List.drop_succ_cons, hd, List.prefix_rfl]

/-- The lines of the block after the start marker. -/
theorem not_infix_block_tail {sub : Bytes} (hne : sub ≠ []) (hsep : newline ∉ sub)
    (hstop : ¬ sub <:+: ascii "[[hooks.Stop]]") (hend : ¬ sub <:+: usageHookBlockEnd)
    (hline : ¬ sub <:+: hookCommandLine head id) :
    ¬ sub <:+: ascii "[[hooks.Stop]]" ++ newline ::
      (hookCommandLine head id ++ newline :: (usageHookBlockEnd ++ [newline])) := by
  rw [infix_append_cons_iff hsep hne, infix_append_cons_iff hsep hne, infix_append_cons_iff hsep hne,
    List.infix_nil]
  tauto

theorem not_legacy_within_block (hh : CleanHead head) :
    ¬ legacyUsageHookBlockStart <:+: codexStopHookBlock head id := by
  rw [codexStopHookBlock, infix_append_cons_iff (by decide) (by decide), not_or]
  exact ⟨by decide, not_infix_block_tail (by decide) (by decide) (by decide) (by decide) (hh id).1.2⟩

theorem not_legacy_within (hh : CleanHead head) (hu : Unmarked u) :
    ¬ legacyUsageHookBlockStart <:+: u ++ newline :: codexStopHookBlock head id := by
  rw [infix_append_cons_iff (by decide) (by decide), not_or]
  exact ⟨hu.2, not_legacy_within_block hh⟩

theorem start_prefix_block : usageHookBlockStart <+: codexStopHookBlock head id := List.prefix_append _ _

/-- The end marker is the first one after the start marker. -/
theorem blockLen_block (hh : CleanHead head) :
    blockLen usageHookBlockStart usageHookBlockEnd (codexStopHookBlock head id) =
      some ((codexStopHookBlock head id).length - 1) := by
  have hsplit : newline :: (ascii "[[hooks.Stop]]" ++ newline ::
      (hookCommandLine head id ++ newline :: (usageHookBlockEnd ++ [newline]))) =
      (newline :: (ascii "[[hooks.Stop]]" ++ newline :: hookCommandLine head id) ++ [newline]) ++
        (usageHookBlockEnd ++ [newline]) := by simp
  have hlines : ¬ usageHookBlockEnd <:+: [] ++ newline ::
      (ascii "[[hooks.Stop]]" ++ newline :: hookCommandLine head id) := by
    rw [infix_append_cons_iff (by decide) (by decide), infix_append_cons_iff (by decide) (by decide),
      not_or, not_or]
    exact ⟨by decide, by decide, (hh id).2⟩
  have hfirst : ∀ v, v ≠ [] →
      v <:+ newline :: (ascii "[[hooks.Stop]]" ++ newline :: hookCommandLine head id) ++ [newline] →
      ¬ usageHookBlockEnd <+: v ++ (usageHookBlockEnd ++ [newline]) := by
    intro v hne hv hp
    rcases List.suffix_concat_iff.mp hv with rfl | ⟨w, rfl, hw⟩
    · exact hne rfl
    · rw [List.append_assoc] at hp
      exact hlines ((prefix_of_prefix_append_cons (by decide) hp).isInfix.trans hw.isInfix)
  rw [blockLen, if_pos start_prefix_block, codexStopHookBlock, List.drop_left, hsplit,
    index_append _ (List.prefix_append _ _) hfirst]
  simp only [Option.map_some, List.length_append, List.length_cons, List.length_nil, Option.some.injEq]
  omega

theorem drop_block : (codexStopHookBlock head id).drop ((codexStopHookBlock head id).length - 1) =
    [newline] := by
  have hsplit : codexStopHookBlock head id = (usageHookBlockStart ++ newline :: (ascii "[[hooks.Stop]]" ++
      newline :: (hookCommandLine head id ++ newline :: usageHookBlockEnd))) ++ [newline] := by
    simp [codexStopHookBlock]
  rw [hsplit, List.length_append, List.length_singleton, Nat.add_sub_cancel, List.drop_left]

theorem length_block_pos : 0 < (codexStopHookBlock head id).length := by
  rw [codexStopHookBlock, List.length_append]
  exact Nat.lt_of_lt_of_le (by decide : 0 < usageHookBlockStart.length) (Nat.le_add_right _ _)

theorem withBreakAfter_block : withBreakAfter (codexStopHookBlock head id)
    ((codexStopHookBlock head id).length - 1) = (codexStopHookBlock head id).length := by
  rw [withBreakAfter, drop_block, if_pos List.prefix_rfl]
  exact Nat.sub_add_cancel length_block_pos

/-! ### Putting in and taking out -/

theorem replaceAll_hook (hh : CleanHead head) (hu : Unmarked u) (new : Bytes) :
    replaceAll hookBlockLen new 0 (u ++ newline :: codexStopHookBlock head id) = u ++ newline :: new := by
  have hnone : ∀ v, v ≠ [] → v <:+ u ++ [newline] →
      hookBlockLen (v ++ codexStopHookBlock head id) = none := by
    intro v hne hv
    rcases List.suffix_concat_iff.mp hv with rfl | ⟨w, rfl, hw⟩
    · exact absurd rfl hne
    · rw [List.append_assoc, List.singleton_append, hookBlockLen,
        blockLen_eq_none ((hu.of_suffix hw).no_marker_at (codexStopHookBlock head id)).1]
      rfl
  have hmatch : hookBlockLen (codexStopHookBlock head id) =
      some ((codexStopHookBlock head id).length - 1 + 1) := by
    rw [hookBlockLen, blockLen_block hh, Option.map_some, withBreakAfter_block,
      Nat.sub_add_cancel length_block_pos]
  have hsplit : replaceAll hookBlockLen new 0 (u ++ [newline] ++ codexStopHookBlock head id) = _ :=
    replaceAll_append (u ++ [newline]) (codexStopHookBlock head id) hnone
  rw [List.append_assoc] at hsplit
  refine hsplit.trans ?_
  rw [replaceAll_match (List.ne_nil_of_length_pos length_block_pos) hmatch,
    Nat.sub_add_cancel length_block_pos, List.drop_length, List.append_assoc]
  simp [replaceAll]

theorem cutAll_hook (hh : CleanHead head) (hu : Unmarked u) :
    cutAll (brokenBlockLen eitherHookLen) 0 (u ++ newline :: codexStopHookBlock head id) = u := by
  have hnone : ∀ v, v ≠ [] → v <:+ u →
      brokenBlockLen eitherHookLen (v ++ newline :: codexStopHookBlock head id) = none := by
    intro v hne hv
    cases v with
    | nil => exact absurd rfl hne
    | cons b v =>
      have hv' : v <:+ u := (List.suffix_cons b v).trans hv
      exact brokenBlockLen_eq_none ((hu.of_suffix hv).eitherHookLen _) ((hu.of_suffix hv').eitherHookLen _)
  have hlen : eitherHookLen (codexStopHookBlock head id) = some ((codexStopHookBlock head id).length - 1) := by
    rw [eitherHookLen, blockLen_block hh, Option.some_or]
  have hmatch := brokenBlockLen_break hlen drop_block
  rw [Nat.sub_add_cancel length_block_pos] at hmatch
  rw [cutAll_append u _ hnone, cutAll_match (List.cons_ne_nil _ _) hmatch, ← List.length_cons,
    List.drop_length]
  simp [cutAll]

theorem Unmarked.append_newline (h : Unmarked u) : Unmarked (u ++ [newline]) := by
  rw [Unmarked, infix_append_cons_iff (by decide) (by decide), infix_append_cons_iff (by decide) (by decide),
    List.infix_nil, List.infix_nil]
  exact ⟨not_or.2 ⟨h.1, by decide⟩, not_or.2 ⟨h.2, by decide⟩⟩

variable {config : Option Bytes} {hook : Option ℕ}

/-- Whatever block there was, it is the session's now. -/
theorem injectCodexStopHook_holds (hh : CleanHead head) (hc : Holds head config hook) (id : ℕ) :
    Holds head (injectCodexStopHook head id config) (some id) := by
  cases hook with
  | none =>
    have hstart : ¬ (index usageHookBlockStart (config.getD [])).isSome = true := by
      rw [index_isSome_iff]
      exact hc.1
    have hlegacy : ¬ (index legacyUsageHookBlockStart (config.getD [])).isSome = true := by
      rw [index_isSome_iff]
      exact hc.2
    rw [injectCodexStopHook, if_neg hlegacy, if_neg hstart]
    split_ifs
    · exact ⟨_, hc.append_newline, rfl⟩
    · exact ⟨_, hc, rfl⟩
  | some old =>
    obtain ⟨u, hu, rfl⟩ := hc
    have hlegacy : ¬ (index legacyUsageHookBlockStart (u ++ newline :: codexStopHookBlock head old)).isSome =
        true := by
      rw [index_isSome_iff]
      exact not_legacy_within hh hu
    have hstart : (index usageHookBlockStart (u ++ newline :: codexStopHookBlock head old)).isSome = true := by
      rw [index_isSome_iff, infix_append_cons_iff (by decide) (by decide)]
      exact .inr start_prefix_block.isInfix
    rw [injectCodexStopHook, Option.getD_some, if_neg hlegacy, if_pos hstart, replaceAll_hook hh hu]
    exact ⟨u, hu, rfl⟩

theorem removeCodexStopHook_holds (hh : CleanHead head) (hc : Holds head config hook) :
    Holds head (removeCodexStopHook config) none := by
  cases hook with
  | none =>
    cases config with
    | none => exact hc
    | some content =>
      have hno : (index usageHookBlockStart content).isNone ∧
          (index legacyUsageHookBlockStart content).isNone :=
        ⟨index_isNone_iff.2 hc.1, index_isNone_iff.2 hc.2⟩
      rw [removeCodexStopHook, if_pos hno]
      exact hc
  | some old =>
    obtain ⟨u, hu, rfl⟩ := hc
    have hyes : ¬ ((index usageHookBlockStart (u ++ newline :: codexStopHookBlock head old)).isNone ∧
        (index legacyUsageHookBlockStart (u ++ newline :: codexStopHookBlock head old)).isNone) := by
      refine fun h => index_isNone_iff.1 h.1 ?_
      rw [infix_append_cons_iff (by decide) (by decide)]
      exact .inr start_prefix_block.isInfix
    rw [removeCodexStopHook, if_neg hyes, cutAll_hook hh hu]
    exact hu

/-! ### Whose block it is -/

theorem sessionDigits_isDigit {b : UInt8} (h : b ∈ sessionDigits id) : 48 ≤ b.toNat ∧ b.toNat ≤ 57 := by
  obtain ⟨c, hc, rfl⟩ := List.mem_map.1 h
  rw [Nat.toList_repr] at hc
  have hd := Char.isDigit_iff_toNat.1 (Nat.isDigit_of_mem_toDigits (by decide) (by decide) hc)
  have h0 : '0'.toNat = 48 := rfl
  have h9 : '9'.toNat = 57 := rfl
  rw [UInt8.toNat_ofNat', Nat.mod_eq_of_lt (by omega)]
  omega

theorem sessionDigits_decode (id : ℕ) :
    (sessionDigits id).map (fun b => Char.ofNat b.toNat) = Nat.toDigits 10 id := by
  rw [sessionDigits, ascii, List.map_map, Nat.toList_repr]
  conv_rhs => rw [← List.map_id (Nat.toDigits 10 id)]
  refine List.map_congr_left fun c hc => ?_
  have hd := Char.isDigit_iff_toNat.1 (Nat.isDigit_of_mem_toDigits (by decide) (by decide) hc)
  have h9 : '9'.toNat = 57 := rfl
  rw [Function.comp_apply, UInt8.toNat_ofNat', Nat.mod_eq_of_lt (by omega), Char.ofNat_toNat]
  rfl

/-- The session ID ends where its quote stands. -/
theorem sessionDigits_inj {id' : ℕ} {r r' : Bytes}
    (h : sessionDigits id ++ 0x22 :: r = sessionDigits id' ++ 0x22 :: r') : id = id' := by
  have htake : ∀ (n : ℕ) (r : Bytes),
      (sessionDigits n ++ 0x22 :: r).takeWhile (· ≠ 0x22) = sessionDigits n := by
    intro n r
    rw [List.takeWhile_append_of_pos, List.takeWhile_cons_of_neg (by simp), List.append_nil]
    intro b hb
    have hd := (sessionDigits_isDigit hb).1
    simp only [ne_eq, decide_not, Bool.not_eq_eq_eq_not, Bool.not_true, decide_eq_false_iff_not]
    rintro rfl
    exact absurd hd (by decide)
  have hd := congrArg (List.takeWhile (· ≠ (0x22 : UInt8))) h
  rw [htake, htake] at hd
  have hn := congrArg (fun s => Nat.ofDigitChars 10 (s.map fun b : UInt8 => Char.ofNat b.toNat) 0) hd
  simpa only [sessionDigits_decode, Nat.ofDigitChars_ten_toDigits] using hn

theorem block_inj {id' : ℕ} {t : Bytes} (h : codexStopHookBlock head id ++ t = codexStopHookBlock head id') :
    id = id' := by
  have hblock : ∀ n, codexStopHookBlock head n = (usageHookBlockStart ++ newline :: (ascii "[[hooks.Stop]]" ++
      newline :: (ascii "command = \"" ++ (head ++ ascii " --session ")))) ++ (sessionDigits n ++
        0x22 :: newline :: (usageHookBlockEnd ++ [newline])) := by
    intro n
    have hquote : ascii "\"" = [0x22] := by decide
    simp [codexStopHookBlock, hookCommandLine, hquote]
  rw [hblock, hblock, List.append_assoc] at h
  have h := List.append_cancel_left h
  rw [List.append_assoc] at h
  exact sessionDigits_inj h

/-- The start marker does not begin inside of the block. -/
theorem not_infix_tail_block (hh : CleanHead head) :
    ¬ usageHookBlockStart <:+: (codexStopHookBlock head id).tail := by
  have htail : (codexStopHookBlock head id).tail = usageHookBlockStart.tail ++ newline ::
      (ascii "[[hooks.Stop]]" ++ newline :: (hookCommandLine head id ++ newline ::
        (usageHookBlockEnd ++ [newline]))) := rfl
  rw [htail, infix_append_cons_iff (by decide) (by decide), not_or]
  exact ⟨by decide, not_infix_block_tail (by decide) (by decide) (by decide) (by decide) (hh id).1.1⟩

theorem hasHook_iff (hh : CleanHead head) (hc : Holds head config hook) :
    HasHook head config id ↔ hook = some id := by
  constructor
  · rintro ⟨content, rfl, a, b, hab⟩
    cases hook with
    | none =>
      refine absurd ?_ hc.1
      rw [Option.getD_some, ← hab]
      exact (start_prefix_block.isInfix.trans (List.suffix_append a _).isInfix).trans
        (List.prefix_append _ b).isInfix
    | some old =>
      obtain ⟨u, hu, hcontent⟩ := hc
      have heq : a ++ (codexStopHookBlock head id ++ b) = (u ++ [newline]) ++ codexStopHookBlock head old := by
        rw [← List.append_assoc, hab, List.append_assoc]
        exact Option.some.inj hcontent
      have hpre : usageHookBlockStart <+: codexStopHookBlock head id ++ b :=
        start_prefix_block.trans (List.prefix_append _ b)
      rcases List.append_eq_append_iff.1 heq with ⟨c, hc, hb⟩ | ⟨c, rfl, hb⟩
      · -- it begins before the block of the file
        rcases List.suffix_concat_iff.1 (⟨a, hc.symm⟩ : c <:+ u ++ [newline]) with rfl | ⟨w, rfl, hw⟩
        · rw [block_inj hb]
        · rw [hb, List.append_assoc] at hpre
          exact absurd hpre ((hu.of_suffix hw).no_marker_at _).1
      · cases c with
        | nil => rw [block_inj hb.symm]
        | cons x c =>
          refine absurd ?_ (@not_infix_tail_block head old hh)
          rw [hb, List.cons_append, List.tail_cons]
          exact hpre.isInfix.trans (List.suffix_append c _).isInfix
  · rintro rfl
    obtain ⟨u, -, rfl⟩ := hc
    exact ⟨_, rfl, ((List.suffix_cons newline _).trans (List.suffix_append u _)).isInfix⟩

/-- The markers begin with a hash sign. -/
theorem not_infix_line (h : (0x23 : UInt8) ∉ head) (id : ℕ) {sub : Bytes} (hsub : (0x23 : UInt8) ∈ sub) :
    ¬ sub <:+: hookCommandLine head id := by
  have hline : (0x23 : UInt8) ∉ hookCommandLine head id := by
    simp only [hookCommandLine, List.mem_append, not_or]
    refine ⟨by decide, h, by decide, fun hd => ?_, by decide⟩
    exact absurd (sessionDigits_isDigit hd).1 (by decide)
  exact fun hi => hline (hi.subset hsub)

end ManyAiCli.Wrapper
