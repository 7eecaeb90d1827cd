import ManyAiCli.Wrapper.UsageHooks
import ManyAiCli.Text.Blocks

/-! Any `config.toml` and the Stop hook: what is left of the text around the blocks when a
hook is put in, put in again and taken out. The patterns look for a start marker with an
end marker somewhere after it, and the ones that take out also take the line ends on both
sides. -/

namespace ManyAiCli.Wrapper

open Text

/-! ### Files and blocks -/

/-- What the block of a session is made of. -/
structure HookParams where
  head : Bytes
  sessionID : ℕ
  deriving DecidableEq, Repr

def HookParams.block (p : HookParams) : Bytes := codexStopHookBlock p.head p.sessionID

def HookParams.inject (p : HookParams) (config : Option Bytes) : Option Bytes :=
  injectCodexStopHook p.head p.sessionID config

def hookMarks : BlockMarks UInt8 where
  first := 0x23
  openRest := usageHookBlockStart.tail
  closeRest := usageHookBlockEnd.tail
  first_notMem_open := by decide
  first_notMem_close := by decide
  open_not_starts := by decide
  close_not_starts := by decide

def legacyHookMarks : BlockMarks UInt8 where
  first := 0x23
  openRest := legacyUsageHookBlockStart.tail
  closeRest := legacyUsageHookBlockEnd.tail
  first_notMem_open := by decide
  first_notMem_close := by decide
  open_not_starts := by decide
  close_not_starts := by decide

def hookMarkers : List Bytes :=
  [usageHookBlockStart, usageHookBlockEnd, legacyUsageHookBlockStart, legacyUsageHookBlockEnd]

/-- The block has no marker besides its own. -/
def HookParams.Clean (p : HookParams) : Prop :=
  ∀ marker ∈ hookMarkers, ¬ marker <:+: hookCommandLine p.head p.sessionID

/-- A block and the line end after it. -/
def trailedBlockLen (blocks : Bytes → Option ℕ) (s : Bytes) : Option ℕ := (blocks s).map (withBreakAfter s)

/-- The complete blocks of a text, new and old, from the left. -/
def markedBlocks (s : Bytes) : List Bytes := taken (trailedBlockLen eitherHookLen) 0 s

/-- The text without them. -/
def unblocked (s : Bytes) : Bytes := cutAll (trailedBlockLen eitherHookLen) 0 s

/-- The two texts are the same but for a line end that one has after the other. -/
def UpToLineEnd (s t : Bytes) : Prop := s = t ∨ s = t ++ [newline] ∨ t = s ++ [newline]

/-- The hook of the last session is the one in the file, and it stands and goes without
harm to the text around it. -/
structure LastWriter (p q : HookParams) (config : Option Bytes) : Prop where
  last : q.inject (p.inject config) = q.inject config
  one : markedBlocks ((q.inject config).getD []) = [q.block]
  kept : ∃ pad, (∀ b ∈ pad, b = newline) ∧
    unblocked ((q.inject config).getD []) = unblocked (config.getD []) ++ pad
  removed : UpToLineEnd ((removeCodexStopHook (q.inject config)).getD []) (unblocked (config.getD []))

/-! ### Where it works -/

/-- No complete block of an older version. -/
def NoLegacy (s : Bytes) : Prop := legacyHookMarks.cutBlock s = none

/-- There is no start marker, or there is one complete block, and it has no line end before
it or only line ends after it. -/
def OneHook (s : Bytes) : Prop :=
  ¬ usageHookBlockStart <:+: s ∨
    ∃ u x after, s = u ++ hookMarks.block x after ∧ ¬ usageHookBlockStart <:+: u ∧
      ¬ usageHookBlockEnd <:+: x ∧ hookMarks.cutBlock after = none ∧
      (u.getLast? ≠ some newline ∨ ∀ b ∈ after, b = newline)

def dropBreak (s : Bytes) : Bytes := if [newline] <+: s then s.tail else s

/-- Blocks of older versions stand before all other text, or one stands after it, where
there is no other block. -/
inductive Tidy : Bytes → Prop
  | plain {s : Bytes} (legacy : NoLegacy s) (one : OneHook s) : Tidy s
  | first {x after : Bytes} (stop : ¬ legacyUsageHookBlockEnd <:+: x) (rest : Tidy (dropBreak after)) :
      Tidy (legacyHookMarks.block x after)
  | last {u x after : Bytes} (text : Unmarked u) (stop : ¬ legacyUsageHookBlockEnd <:+: x)
      (rest : after = [] ∨ after = [newline]) : Tidy (u ++ legacyHookMarks.block x after)

/-- No older block stands after other text. -/
inductive OldFirst : Bytes → Prop
  | none {s : Bytes} (legacy : NoLegacy s) : OldFirst s
  | block {x after : Bytes} (stop : ¬ legacyUsageHookBlockEnd <:+: x) (rest : OldFirst (dropBreak after)) :
      OldFirst (legacyHookMarks.block x after)

/-! ### The matchers -/

/-- A text without the line end at its end. -/
def trimBreak (s : Bytes) : Bytes := if s.getLast? = some newline then s.dropLast else s

section Matchers

variable {blocks : Bytes → Option ℕ} {u s new : Bytes} {n : ℕ}

theorem drop_withBreakAfter (s : Bytes) (n : ℕ) : s.drop (withBreakAfter s n) = dropBreak (s.drop n) := by
  rw [withBreakAfter, dropBreak]
  split_ifs with h
  · rw [List.tail_drop]
  · rfl

theorem withBreakAfter_pos (s : Bytes) (hn : 0 < n) : ∃ k, withBreakAfter s n = k + 1 := by
  refine Nat.exists_eq_succ_of_ne_zero ?_
  rw [withBreakAfter]
  split_ifs <;> omega

theorem trailed_none (hu : ∀ v, v ≠ [] → v <:+ u → blocks (v ++ s) = none) :
    ∀ v, v ≠ [] → v <:+ u → trailedBlockLen blocks (v ++ s) = none := by
  intro v hne hv
  rw [trailedBlockLen, hu v hne hv, Option.map_none]

theorem ne_nil_of_blocks (hs : blocks s = some n) (hnil : blocks [] = none) : s ≠ [] := by
  rintro rfl
  rw [hnil] at hs
  cases hs

theorem replaceAll_trailed (hnil : blocks [] = none) (hu : ∀ v, v ≠ [] → v <:+ u → blocks (v ++ s) = none)
    (hs : blocks s = some n) (hn : 0 < n) : replaceAll (trailedBlockLen blocks) new 0 (u ++ s) =
      u ++ (new ++ replaceAll (trailedBlockLen blocks) new 0 (dropBreak (s.drop n))) := by
  obtain ⟨k, hk⟩ := withBreakAfter_pos s hn
  have hmatch : trailedBlockLen blocks s = some (k + 1) := by rw [trailedBlockLen, hs, Option.map_some, hk]
  rw [replaceAll_append u s (trailed_none hu), replaceAll_match (ne_nil_of_blocks hs hnil) hmatch, ← hk,
    drop_withBreakAfter]

theorem cutAll_trailed (hnil : blocks [] = none) (hu : ∀ v, v ≠ [] → v <:+ u → blocks (v ++ s) = none)
    (hs : blocks s = some n) (hn : 0 < n) : cutAll (trailedBlockLen blocks) 0 (u ++ s) =
      u ++ cutAll (trailedBlockLen blocks) 0 (dropBreak (s.drop n)) := by
  rw [cutAll_eq_replaceAll, cutAll_eq_replaceAll, replaceAll_trailed hnil hu hs hn, List.nil_append]

theorem taken_trailed (hnil : blocks [] = none) (hu : ∀ v, v ≠ [] → v <:+ u → blocks (v ++ s) = none)
    (hs : blocks s = some n) (hn : 0 < n) : taken (trailedBlockLen blocks) 0 (u ++ s) =
      s.take (withBreakAfter s n) :: taken (trailedBlockLen blocks) 0 (dropBreak (s.drop n)) := by
  obtain ⟨k, hk⟩ := withBreakAfter_pos s hn
  have hmatch : trailedBlockLen blocks s = some (k + 1) := by rw [trailedBlockLen, hs, Option.map_some, hk]
  rw [taken_append u s (trailed_none hu), taken_match (ne_nil_of_blocks hs hnil) hmatch, ← hk,
    drop_withBreakAfter]

theorem brokenBlockLen_of_ne {b : UInt8} (hb : b ≠ newline) (t : Bytes) :
    brokenBlockLen blocks (b :: t) = trailedBlockLen blocks (b :: t) := by
  simp only [brokenBlockLen, if_neg hb, Option.none_or, trailedBlockLen]

theorem brokenBlockLen_of_break (hs : blocks s = some n) :
    brokenBlockLen blocks (newline :: s) = some (withBreakAfter (newline :: s) (n + 1)) := by
  simp only [brokenBlockLen, if_true, hs, Option.map_some, Option.some_or]

/-- The line end before a block goes too. -/
theorem cutAll_broken (hnil : blocks [] = none) (hu : ∀ v, v ≠ [] → v <:+ u → blocks (v ++ s) = none)
    (hs : blocks s = some n) (hn : 0 < n) (hhead : s.head? ≠ some newline) :
    cutAll (brokenBlockLen blocks) 0 (u ++ s) =
      trimBreak u ++ cutAll (brokenBlockLen blocks) 0 (dropBreak (s.drop n)) := by
  rw [trimBreak]
  split_ifs with hlast
  · obtain ⟨w, rfl⟩ := List.getLast?_eq_some_iff.1 hlast
    have hnone : ∀ v, v ≠ [] → v <:+ w → brokenBlockLen blocks (v ++ newline :: s) = none := by
      intro v hne hv
      have hin : ∀ t, t <:+ w → blocks (t ++ newline :: s) = none := by
        intro t ht
        have hmore := hu (t ++ [newline]) (by simp) (List.suffix_append_self_iff.2 ht)
        rwa [List.append_assoc] at hmore
      cases v with
      | nil => exact absurd rfl hne
      | cons b v => exact brokenBlockLen_eq_none (hin _ hv) (hin v ((List.suffix_cons b v).trans hv))
    obtain ⟨k, hk⟩ := withBreakAfter_pos (newline :: s) (Nat.succ_pos n)
    have hmatch := brokenBlockLen_of_break hs
    rw [hk] at hmatch
    rw [List.append_assoc, List.singleton_append, cutAll_append w _ hnone,
      cutAll_match (List.cons_ne_nil _ _) hmatch, ← hk, drop_withBreakAfter, List.drop_succ_cons,
      List.dropLast_concat]
  · have hnone : ∀ v, v ≠ [] → v <:+ u → brokenBlockLen blocks (v ++ s) = none := by
      intro v hne hv
      cases v with
      | nil => exact absurd rfl hne
      | cons b v =>
        by_cases hv' : v = []
        · subst hv'
          have hb : b ≠ newline := by
            rintro rfl
            obtain ⟨w, rfl⟩ := hv
            exact hlast List.getLast?_concat
          rw [List.cons_append, brokenBlockLen_of_ne hb]
          exact trailed_none hu [b] hne hv
        · exact brokenBlockLen_eq_none (hu _ hne hv) (hu v hv' ((List.suffix_cons b v).trans hv))
    cases s with
    | nil => rw [hnil] at hs; cases hs
    | cons c t =>
      have hc : c ≠ newline := fun hc => hhead (by rw [hc]; rfl)
      obtain ⟨k, hk⟩ := withBreakAfter_pos (c :: t) hn
      have hmatch : brokenBlockLen blocks (c :: t) = some (k + 1) := by
        rw [brokenBlockLen_of_ne hc, trailedBlockLen, hs, Option.map_some, hk]
      rw [cutAll_append u _ hnone, cutAll_match (List.cons_ne_nil _ _) hmatch, ← hk, drop_withBreakAfter]

/-- Without blocks nothing is taken out. -/
theorem cutAll_broken_of_none (hs : ∀ v, v <:+ s → blocks v = none) :
    cutAll (brokenBlockLen blocks) 0 s = s := by
  rw [cutAll_eq_replaceAll]
  refine replaceAll_of_none fun v hne hv => ?_
  cases v with
  | nil => exact absurd rfl hne
  | cons b v => exact brokenBlockLen_eq_none (hs _ hv) (hs v ((List.suffix_cons b v).trans hv))

theorem trailedBlockLen_of_none (hs : ∀ v, v <:+ s → blocks v = none) :
    ∀ v, v ≠ [] → v <:+ s → trailedBlockLen blocks v = none := by
  intro v _ hv
  rw [trailedBlockLen, hs v hv, Option.map_none]

end Matchers

/-! ### Blocks between their markers -/

section Blocks

variable {m : BlockMarks UInt8} {u x after s v : Bytes}

theorem blockLen_of_block (hx : ¬ m.stop <:+: x) :
    blockLen m.start m.stop (m.block x after) = some (m.block x []).length := by
  have hindex : index m.stop (x ++ (m.stop ++ after)) = some x.length :=
    index_append x (List.prefix_append _ _) (m.noneIn_stop_iff.2 hx)
  rw [blockLen, BlockMarks.block, if_pos (List.prefix_append _ _), List.drop_left, hindex, Option.map_some,
    BlockMarks.block, List.append_nil, List.length_append, List.length_append, Nat.add_assoc]

theorem blockLen_of_cutBlock (hs : m.cutBlock s = none) (hv : v <:+ s) : blockLen m.start m.stop v = none :=
    by
  rw [blockLen]
  split_ifs with hp
  · obtain ⟨t, rfl⟩ := hp
    obtain ⟨l, rfl⟩ := hv
    have hstop := m.cutBlock_eq_none_iff.1 hs l t rfl
    rw [List.drop_left, Option.map_eq_none_iff, ← Option.isNone_iff_eq_none]
    exact index_isNone_iff.2 hstop
  · rfl

theorem drop_length_block : (m.block x after).drop (m.block x []).length = after := by
  have hsplit : m.block x after = m.block x [] ++ after := by simp [BlockMarks.block]
  rw [hsplit, List.drop_left]

theorem length_block_ne_zero : 0 < (m.block x []).length := by
  rw [BlockMarks.block, BlockMarks.start, List.cons_append, List.length_cons]
  exact Nat.succ_pos _

theorem eitherHookLen_nil : eitherHookLen [] = none := by decide

/-- Where no hook begins and no older block is complete, nothing matches. -/
theorem eitherHookLen_before (hleg : NoLegacy (u ++ hookMarks.block x after))
    (hu : ¬ usageHookBlockStart <:+: u) :
    ∀ v, v ≠ [] → v <:+ u → eitherHookLen (v ++ hookMarks.block x after) = none := by
  intro v hne hv
  have hstart : ¬ usageHookBlockStart <+: v ++ hookMarks.block x after :=
    hookMarks.noneIn_start_iff.2 hu v hne hv
  have hold : legacyBlockLen (v ++ hookMarks.block x after) = none :=
    blockLen_of_cutBlock hleg (List.suffix_append_self_iff.2 hv)
  rw [eitherHookLen, blockLen_eq_none hstart, hold, Option.or_none]

theorem eitherHookLen_hook (hx : ¬ usageHookBlockEnd <:+: x) :
    eitherHookLen (hookMarks.block x after) = some (hookMarks.block x []).length := by
  have hlen : blockLen usageHookBlockStart usageHookBlockEnd (hookMarks.block x after) =
      some (hookMarks.block x []).length := blockLen_of_block (m := hookMarks) hx
  rw [eitherHookLen, hlen, Option.some_or]

theorem eitherHookLen_of_none (hleg : NoLegacy s) (hs : hookMarks.cutBlock s = none) :
    ∀ v, v <:+ s → eitherHookLen v = none := by
  intro v hv
  have hnew : blockLen usageHookBlockStart usageHookBlockEnd v = none := blockLen_of_cutBlock hs hv
  have hold : legacyBlockLen v = none := blockLen_of_cutBlock hleg hv
  rw [eitherHookLen, hnew, hold, Option.or_none]

theorem eitherHookLen_before_legacy (hu : Unmarked u) :
    ∀ v, v ≠ [] → v <:+ u → eitherHookLen (v ++ legacyHookMarks.block x after) = none := by
  intro v hne hv
  have hnew : ¬ usageHookBlockStart <+: v ++ legacyHookMarks.block x after :=
    hookMarks.noneIn_start_iff.2 hu.1 v hne hv
  have hold : ¬ legacyUsageHookBlockStart <+: v ++ legacyHookMarks.block x after :=
    legacyHookMarks.noneIn_start_iff.2 hu.2 v hne hv
  rw [eitherHookLen, legacyBlockLen, blockLen_eq_none hnew, blockLen_eq_none hold, Option.or_none]

theorem legacyBlockLen_block (hx : ¬ legacyUsageHookBlockEnd <:+: x) :
    legacyBlockLen (legacyHookMarks.block x after) = some (legacyHookMarks.block x []).length :=
  blockLen_of_block (m := legacyHookMarks) hx

theorem eitherHookLen_legacy (hx : ¬ legacyUsageHookBlockEnd <:+: x) :
    eitherHookLen (legacyHookMarks.block x after) = some (legacyHookMarks.block x []).length := by
  have hnew : ¬ usageHookBlockStart <+: legacyHookMarks.block x after := by
    intro hp
    rcases List.prefix_or_prefix_of_prefix hp (List.prefix_append legacyUsageHookBlockStart _) with h | h
    · exact absurd h (by decide)
    · exact absurd h (by decide)
  rw [eitherHookLen, blockLen_eq_none hnew, legacyBlockLen_block hx, Option.none_or]

end Blocks

/-! ### A text with one block -/

section One

variable {u x after new t : Bytes} {p q : HookParams}

theorem dropBreak_suffix (s : Bytes) : dropBreak s <:+ s := by
  rw [dropBreak]
  split_ifs
  · exact List.tail_suffix s
  · exact List.suffix_rfl

theorem dropBreak_newline (s : Bytes) : dropBreak (newline :: s) = s := by
  have hp : [newline] <+: newline :: s := List.prefix_append [newline] s
  rw [dropBreak, if_pos hp, List.tail_cons]

theorem replaceAll_hook_block (hu : ¬ usageHookBlockStart <:+: u) (hx : ¬ usageHookBlockEnd <:+: x) :
    replaceAll hookBlockLen new 0 (u ++ hookMarks.block x after) =
      u ++ (new ++ replaceAll hookBlockLen new 0 (dropBreak after)) := by
  have hbefore : ∀ v, v ≠ [] → v <:+ u →
      blockLen usageHookBlockStart usageHookBlockEnd (v ++ hookMarks.block x after) = none :=
    fun v hne hv => blockLen_eq_none (hookMarks.noneIn_start_iff.2 hu v hne hv)
  have hlen : blockLen usageHookBlockStart usageHookBlockEnd (hookMarks.block x after) =
      some (hookMarks.block x []).length := blockLen_of_block (m := hookMarks) hx
  have hall := @replaceAll_trailed _ _ _ new _ (by decide) hbefore hlen length_block_ne_zero
  rwa [drop_length_block] at hall

theorem replaceAll_hook_none (ht : hookMarks.cutBlock t = none) : replaceAll hookBlockLen new 0 t = t :=
  replaceAll_of_none (trailedBlockLen_of_none fun _ hv => blockLen_of_cutBlock ht hv)

variable (hleg : NoLegacy (u ++ hookMarks.block x after)) (hu : ¬ usageHookBlockStart <:+: u)
  (hx : ¬ usageHookBlockEnd <:+: x)

include hleg in
theorem noLegacy_dropBreak : NoLegacy (dropBreak after) := by
  have hsuffix : after <:+ u ++ hookMarks.block x after :=
    ⟨u ++ hookMarks.block x [], by simp [BlockMarks.block]⟩
  exact legacyHookMarks.cutBlock_of_suffix hleg ((dropBreak_suffix after).trans hsuffix)

include hleg hu hx in
theorem markedBlocks_cons : markedBlocks (u ++ hookMarks.block x after) =
    (hookMarks.block x after).take (withBreakAfter (hookMarks.block x after) (hookMarks.block x []).length) ::
      markedBlocks (dropBreak after) := by
  have hall := taken_trailed eitherHookLen_nil (eitherHookLen_before hleg hu) (eitherHookLen_hook hx)
    length_block_ne_zero
  rwa [drop_length_block] at hall

variable (hafter : hookMarks.cutBlock after = none)

include hleg hafter in
theorem eitherHookLen_after : ∀ v, v <:+ dropBreak after → eitherHookLen v = none :=
  eitherHookLen_of_none (noLegacy_dropBreak hleg)
    (hookMarks.cutBlock_of_suffix hafter (dropBreak_suffix after))

include hleg hu hx hafter in
theorem unblocked_one : unblocked (u ++ hookMarks.block x after) = u ++ dropBreak after := by
  have hall := cutAll_trailed eitherHookLen_nil (eitherHookLen_before hleg hu) (eitherHookLen_hook hx)
    length_block_ne_zero
  rw [drop_length_block] at hall
  rw [unblocked, hall, cutAll_eq_replaceAll,
    replaceAll_of_none (trailedBlockLen_of_none (eitherHookLen_after hleg hafter))]

include hleg hu hx hafter in
theorem cutAll_one : cutAll (brokenBlockLen eitherHookLen) 0 (u ++ hookMarks.block x after) =
    trimBreak u ++ dropBreak after := by
  have hhead : (hookMarks.block x after).head? ≠ some newline := by
    rw [BlockMarks.block, BlockMarks.start, List.cons_append, List.head?_cons]
    decide
  have hall := cutAll_broken eitherHookLen_nil (eitherHookLen_before hleg hu) (eitherHookLen_hook hx)
    length_block_ne_zero hhead
  rw [drop_length_block] at hall
  rw [hall, cutAll_broken_of_none (eitherHookLen_after hleg hafter)]

end One

/-! ### The block of a session -/

section Session

variable {u v : Bytes} {p q : HookParams}

/-- What is between the markers. -/
def HookParams.body (p : HookParams) : Bytes :=
  newline :: (ascii "[[hooks.Stop]]" ++ newline :: (hookCommandLine p.head p.sessionID ++ [newline]))

theorem block_append (p : HookParams) (t : Bytes) : p.block ++ t = hookMarks.block p.body (newline :: t) := by
  have hstart : hookMarks.start = usageHookBlockStart := by decide
  have hstop : hookMarks.stop = usageHookBlockEnd := by decide
  simp [HookParams.block, codexStopHookBlock, HookParams.body, BlockMarks.block, hstart, hstop]

theorem stop_not_in_body (hp : p.Clean) : ¬ usageHookBlockEnd <:+: p.body := by
  have hsplit : p.body = [] ++ newline :: (ascii "[[hooks.Stop]]" ++ newline ::
      (hookCommandLine p.head p.sessionID ++ newline :: [])) := rfl
  rw [hsplit, infix_append_cons_iff (by decide) (by decide), infix_append_cons_iff (by decide) (by decide),
    infix_append_cons_iff (by decide) (by decide), not_or, not_or, not_or]
  exact ⟨by decide, by decide, hp _ (by decide), by decide⟩

theorem legacy_not_in_block (hp : p.Clean) :
    ¬ legacyUsageHookBlockStart <:+: p.block ∧ ¬ legacyUsageHookBlockEnd <:+: p.block := by
  have hno : ∀ sub ∈ hookMarkers, ¬ sub <:+: usageHookBlockStart → ¬ sub <:+: ascii "[[hooks.Stop]]" →
      ¬ sub <:+: usageHookBlockEnd → newline ∉ sub → sub ≠ [] → ¬ sub <:+: p.block := by
    intro sub hmem hstart hhook hend hsep hne
    rw [HookParams.block, codexStopHookBlock, infix_append_cons_iff hsep hne, not_or]
    exact ⟨hstart, not_infix_block_tail hne hsep hhook hend (hp sub hmem)⟩
  exact ⟨hno _ (by decide) (by decide) (by decide) (by decide) (by decide) (by decide),
    hno _ (by decide) (by decide) (by decide) (by decide) (by decide) (by decide)⟩

theorem start_infix_append (u v : Bytes) (p : HookParams) : usageHookBlockStart <:+: u ++ (p.block ++ v) := by
  have hp : usageHookBlockStart <+: p.block ++ v := start_prefix_block.trans (List.prefix_append _ _)
  exact hp.isInfix.trans (List.suffix_append u _).isInfix

theorem ends_newline (p : HookParams) : ∃ b, p.block = b ++ [newline] :=
  ⟨usageHookBlockStart ++ newline :: (ascii "[[hooks.Stop]]" ++
    newline :: (hookCommandLine p.head p.sessionID ++ newline :: usageHookBlockEnd)), by
      simp [HookParams.block, codexStopHookBlock]⟩

/-- No marker goes over the ends of the block. -/
theorem apart_block {sub : Bytes} (hsub : sub = 0x23 :: sub.tail ∧ 0x23 ∉ sub.tail ∧ newline ∉ sub)
    (p : HookParams) (u v : Bytes) : Apart sub u (p.block ++ v) ∧ Apart sub p.block v := by
  constructor
  · rw [hsub.1]
    exact apart_first hsub.2.1
  · obtain ⟨b, hb⟩ := ends_newline p
    rw [hb]
    exact apart_after_sep hsub.2.2

theorem apart_block_start (p : HookParams) (u v : Bytes) :
    Apart legacyUsageHookBlockStart u (p.block ++ v) ∧ Apart legacyUsageHookBlockStart p.block v :=
  apart_block (by decide) p u v

theorem apart_block_stop (p : HookParams) (u v : Bytes) :
    Apart legacyUsageHookBlockEnd u (p.block ++ v) ∧ Apart legacyUsageHookBlockEnd p.block v :=
  apart_block (by decide) p u v

/-- The block does not complete an older one. -/
theorem noLegacy_around (hp : p.Clean) (hu : NoLegacy u) (hv : NoLegacy v)
    (hcross : legacyUsageHookBlockStart <:+: u → ¬ legacyUsageHookBlockEnd <:+: v) :
    NoLegacy (u ++ (p.block ++ v)) := by
  obtain ⟨hstart, hstop⟩ := legacy_not_in_block hp
  have hlast : NoLegacy (p.block ++ v) :=
    legacyHookMarks.cutBlock_append_of_apart (legacyHookMarks.cutBlock_of_no_start hstart) hv
      (apart_block_start p u v).2 (apart_block_stop p u v).2 fun h => absurd h hstart
  refine legacyHookMarks.cutBlock_append_of_apart hu hlast (apart_block_start p u v).1
    (apart_block_stop p u v).1 fun h hin => ?_
  exact ((apart_block_stop p u v).2.infix_iff.1 hin).elim hstop (hcross h)

theorem start_infix_block (p : HookParams) (u v : Bytes) :
    (index usageHookBlockStart (u ++ (p.block ++ v))).isSome = true :=
  index_isSome_iff.2 (start_infix_append u v p)

end Session

/-! ### Putting in -/

section Inject

variable {u v c x after : Bytes} {p q : HookParams} {config : Option Bytes}

/-- The text without the blocks of older versions, as they are taken out. -/
def legacyFree (c : Bytes) : Bytes := cutAll (brokenBlockLen legacyBlockLen) 0 c

def endLine (c : Bytes) : Bytes := if c ≠ [] ∧ c.getLast? ≠ some newline then c ++ [newline] else c

/-- What is written where there are no older blocks. -/
def HookParams.write (p : HookParams) (c : Bytes) : Bytes :=
  if (index usageHookBlockStart c).isSome then replaceAll hookBlockLen p.block 0 c
  else endLine c ++ newline :: p.block

theorem legacyFree_of_noLegacy (h : NoLegacy c) : legacyFree c = c :=
  cutAll_broken_of_none fun _ hv => blockLen_of_cutBlock (m := legacyHookMarks) h hv

theorem inject_eq (p : HookParams) (config : Option Bytes) :
    p.inject config = some (p.write (legacyFree (config.getD []))) := by
  have hsame : (if (index legacyUsageHookBlockStart (config.getD [])).isSome then
      legacyFree (config.getD []) else config.getD []) = legacyFree (config.getD []) := by
    split_ifs with h
    · rfl
    · rw [index_isSome_iff] at h
      exact (legacyFree_of_noLegacy (legacyHookMarks.cutBlock_of_no_start h)).symm
  rw [← hsame, legacyFree, HookParams.inject, injectCodexStopHook]
  generalize (if (index legacyUsageHookBlockStart (config.getD [])).isSome then
    cutAll (brokenBlockLen legacyBlockLen) 0 (config.getD []) else config.getD []) = c
  rw [HookParams.write, endLine, apply_ite some, HookParams.block]

theorem legacyFree_append (hu : ¬ legacyUsageHookBlockStart <:+: u) (hx : ¬ legacyUsageHookBlockEnd <:+: x) :
    legacyFree (u ++ legacyHookMarks.block x after) = trimBreak u ++ legacyFree (dropBreak after) := by
  have hbefore : ∀ v, v ≠ [] → v <:+ u → legacyBlockLen (v ++ legacyHookMarks.block x after) = none :=
    fun v hne hv => blockLen_eq_none (legacyHookMarks.noneIn_start_iff.2 hu v hne hv)
  have hhead : (legacyHookMarks.block x after).head? ≠ some newline := by
    rw [BlockMarks.block, BlockMarks.start, List.cons_append, List.head?_cons]
    decide
  have hall := cutAll_broken (by decide) hbefore (legacyBlockLen_block hx) length_block_ne_zero hhead
  rwa [drop_length_block] at hall

/-- A file with the block of a session. -/
structure Hooked (u : Bytes) (p : HookParams) (v : Bytes) : Prop where
  clean : p.Clean
  legacy : NoLegacy (u ++ (p.block ++ v))
  before : ¬ usageHookBlockStart <:+: u
  after : hookMarks.cutBlock v = none

theorem cutBlock_newline_cons (h : hookMarks.cutBlock v = none) : hookMarks.cutBlock (newline :: v) = none :=
  hookMarks.cutBlock_append_of_apart (s := [newline]) (by decide) h (apart_after_sep (a := []) (by decide))
    (apart_after_sep (a := []) (by decide)) fun h => absurd h (by decide)

theorem markedBlocks_block (hp : p.Clean) (hleg : NoLegacy (u ++ (p.block ++ v)))
    (hu : ¬ usageHookBlockStart <:+: u) : markedBlocks (u ++ (p.block ++ v)) = p.block :: markedBlocks v := by
  have hwidth : withBreakAfter (hookMarks.block p.body (newline :: v)) (hookMarks.block p.body []).length =
      p.block.length := by
    have hbreak : [newline] <+: newline :: v := List.prefix_append [newline] v
    have hblock : p.block = hookMarks.block p.body [] ++ [newline] := by
      rw [hookMarks.block_append, List.nil_append, ← block_append, List.append_nil]
    rw [withBreakAfter, drop_length_block, if_pos hbreak, hblock, List.length_append, List.length_singleton]
  rw [block_append] at hleg ⊢
  rw [markedBlocks_cons hleg hu (stop_not_in_body hp), dropBreak_newline, hwidth, ← block_append,
    List.take_left]

variable (h : Hooked u p v)

include h in
theorem Hooked.markedBlocks : markedBlocks (u ++ (p.block ++ v)) = [p.block] := by
  have hlast : Wrapper.markedBlocks v = [] := by
    have hleg := h.legacy
    rw [block_append] at hleg
    have hnone := eitherHookLen_after hleg (cutBlock_newline_cons h.after)
    rw [dropBreak_newline] at hnone
    exact taken_of_none (trailedBlockLen_of_none hnone)
  rw [markedBlocks_block h.clean h.legacy h.before, hlast]

include h in
theorem Hooked.unblocked : unblocked (u ++ (p.block ++ v)) = u ++ v := by
  have hleg := h.legacy
  rw [block_append] at hleg ⊢
  rw [unblocked_one hleg h.before (stop_not_in_body h.clean) (cutBlock_newline_cons h.after),
    dropBreak_newline]

include h in
theorem Hooked.remove : removeCodexStopHook (some (u ++ (p.block ++ v))) = some (trimBreak u ++ v) := by
  have hsome : ¬ ((index usageHookBlockStart (u ++ (p.block ++ v))).isNone = true ∧
      (index legacyUsageHookBlockStart (u ++ (p.block ++ v))).isNone = true) :=
    fun hnone => index_isNone_iff.1 hnone.1 (start_infix_append u v p)
  have hleg := h.legacy
  rw [removeCodexStopHook, if_neg hsome, block_append]
  rw [block_append] at hleg
  rw [cutAll_one hleg h.before (stop_not_in_body h.clean) (cutBlock_newline_cons h.after), dropBreak_newline]

include h in
theorem Hooked.inject (q : HookParams) : q.inject (some (u ++ (p.block ++ v))) = some (u ++ (q.block ++ v))
    := by
  rw [inject_eq, Option.getD_some, legacyFree_of_noLegacy h.legacy, HookParams.write,
    if_pos (start_infix_block p u v), block_append, replaceAll_hook_block h.before (stop_not_in_body h.clean),
    dropBreak_newline, replaceAll_hook_none h.after]

theorem noLegacy_newline (hc : NoLegacy c) : NoLegacy (c ++ [newline]) :=
  legacyHookMarks.cutBlock_append_of_apart hc (by decide) (apart_sep (by decide)) (apart_sep (by decide))
    fun _ => by decide

/-- The block at the end of a text without one. -/
theorem hooked_append (hp : p.Clean) (hleg : NoLegacy c) (hc : ¬ usageHookBlockStart <:+: c) :
    Hooked (endLine c ++ [newline]) p [] := by
  have hnew : ∀ t, ¬ usageHookBlockStart <:+: t → ¬ usageHookBlockStart <:+: t ++ [newline] := by
    intro t ht
    rw [infix_append_cons_iff (by decide) (by decide), not_or]
    exact ⟨ht, by decide⟩
  have hends : NoLegacy (endLine c) ∧ ¬ usageHookBlockStart <:+: endLine c := by
    rw [endLine]
    split_ifs
    · exact ⟨noLegacy_newline hleg, hnew c hc⟩
    · exact ⟨hleg, hc⟩
  have hnil : NoLegacy [] := legacyHookMarks.cutBlock_of_no_start (by decide)
  exact ⟨hp, noLegacy_around hp (noLegacy_newline hends.1) hnil fun _ => by decide, hnew _ hends.2, by decide⟩

theorem inject_append (p : HookParams) (hfree : ¬ usageHookBlockStart <:+: legacyFree (config.getD [])) :
    p.inject config = some (endLine (legacyFree (config.getD [])) ++ [newline] ++ (p.block ++ [])) := by
  have hno : ¬ (index usageHookBlockStart (legacyFree (config.getD []))).isSome = true := by
    rwa [index_isSome_iff]
  rw [inject_eq, HookParams.write, if_neg hno, List.append_nil, List.append_assoc, List.singleton_append]

end Inject

/-! ### One hook -/

section Cases

variable {u v c x after : Bytes} {p q : HookParams} {config : Option Bytes}

theorem all_newline_iff (v : Bytes) : newline :: v = v ++ [newline] ↔ ∀ b ∈ v, b = newline := by
  induction v with
  | nil => simp
  | cons b v ih =>
    rw [List.cons_append, List.cons.injEq, List.forall_mem_cons, ← ih]
    constructor
    · rintro ⟨rfl, h⟩
      exact ⟨rfl, h⟩
    · rintro ⟨rfl, h⟩
      exact ⟨rfl, h⟩

/-- The line end before a block may go where there are only line ends after it. -/
theorem upToLineEnd_iff (u v : Bytes) : UpToLineEnd (trimBreak u ++ v) (u ++ v) ↔
    u.getLast? ≠ some newline ∨ ∀ b ∈ v, b = newline := by
  rw [trimBreak]
  split_ifs with hlast
  · obtain ⟨w, rfl⟩ := List.getLast?_eq_some_iff.1 hlast
    have hlonger : w ++ [newline] ++ v = w ++ v ++ [newline] ↔ ∀ b ∈ v, b = newline := by
      rw [List.append_assoc, List.append_assoc, List.append_cancel_left_eq, List.singleton_append]
      exact all_newline_iff v
    rw [List.dropLast_concat, UpToLineEnd, hlonger]
    constructor
    · rintro (h | h | h)
      · exact absurd (congrArg List.length h) (by simp)
      · exact absurd (congrArg List.length h) (by simp; omega)
      · exact .inr h
    · rintro (h | h)
      · exact absurd hlast h
      · exact .inr (.inr h)
  · exact ⟨fun _ => .inl hlast, fun _ => .inl rfl⟩

theorem forall_dropBreak (s : Bytes) : (∀ b ∈ dropBreak s, b = newline) ↔ ∀ b ∈ s, b = newline := by
  rw [dropBreak]
  split_ifs with h
  · obtain ⟨t, rfl⟩ := h
    simp
  · rfl

theorem upToLineEnd_endLine (c : Bytes) : UpToLineEnd (endLine c) c := by
  rw [endLine]
  split_ifs
  · exact .inr (.inl rfl)
  · exact .inl rfl

/-- A text with line ends after it is that of its blocks. -/
theorem exists_pad {s t : Bytes} (h : UpToLineEnd s t) :
    ∃ pad, (∀ b ∈ pad, b = newline) ∧ s ++ [newline] = t ++ pad := by
  rcases h with rfl | rfl | rfl
  · exact ⟨[newline], by simp, rfl⟩
  · exact ⟨[newline, newline], by simp, by simp⟩
  · exact ⟨[], by simp, by simp⟩

theorem unblocked_of_none (hleg : NoLegacy c) (hc : hookMarks.cutBlock c = none) : unblocked c = c := by
  rw [unblocked, cutAll_eq_replaceAll]
  exact replaceAll_of_none (trailedBlockLen_of_none (eitherHookLen_of_none hleg hc))

/-- A file whose text without older blocks has no start marker. -/
theorem lastWriter_append (hp : p.Clean) (hq : q.Clean) (hleg : NoLegacy (legacyFree (config.getD [])))
    (hfree : ¬ usageHookBlockStart <:+: legacyFree (config.getD []))
    (hsame : UpToLineEnd (endLine (legacyFree (config.getD []))) (unblocked (config.getD []))) :
    LastWriter p q config := by
  have hput := inject_append q hfree
  have hq' := hooked_append hq hleg hfree
  refine ⟨?_, ?_, ?_, ?_⟩
  · rw [inject_append p hfree, (hooked_append hp hleg hfree).inject q, hput]
  · rw [hput, Option.getD_some, hq'.markedBlocks]
  · rw [hput, Option.getD_some, hq'.unblocked, List.append_nil]
    exact exists_pad hsame
  · rw [hput, hq'.remove, Option.getD_some, List.append_nil, trimBreak, if_pos List.getLast?_concat,
      List.dropLast_concat]
    exact hsame

theorem not_stop_after (hleg : NoLegacy (u ++ hookMarks.block x after))
    (hstart : legacyUsageHookBlockStart <:+: u) : ¬ legacyUsageHookBlockEnd <:+: dropBreak after := by
  obtain ⟨a, b, hab⟩ := hstart
  intro hstop
  have hsplit : u ++ hookMarks.block x after =
      a ++ (legacyUsageHookBlockStart ++ (b ++ hookMarks.block x after)) := by
    rw [← hab]
    simp
  have hin : dropBreak after <:+ b ++ hookMarks.block x after :=
    (dropBreak_suffix after).trans ⟨b ++ hookMarks.block x [], by simp [BlockMarks.block]⟩
  exact legacyHookMarks.cutBlock_eq_none_iff.1 hleg a _ hsplit (hstop.trans hin.isInfix)

theorem hooked_of_block (hp : p.Clean) (hleg : NoLegacy (u ++ hookMarks.block x after))
    (hu : ¬ usageHookBlockStart <:+: u) (hafter : hookMarks.cutBlock after = none) :
    Hooked u p (dropBreak after) := by
  exact ⟨hp, noLegacy_around hp (legacyHookMarks.cutBlock_of_prefix hleg (List.prefix_append u _))
    (noLegacy_dropBreak hleg) (not_stop_after hleg), hu, hookMarks.cutBlock_of_suffix hafter
      (dropBreak_suffix after)⟩

theorem inject_block (hleg : NoLegacy (u ++ hookMarks.block x after)) (hu : ¬ usageHookBlockStart <:+: u)
    (hx : ¬ usageHookBlockEnd <:+: x) (hc : config.getD [] = u ++ hookMarks.block x after) (p : HookParams) :
    p.inject config = some (u ++ (p.block ++ replaceAll hookBlockLen p.block 0 (dropBreak after))) := by
  have hin : (index usageHookBlockStart (u ++ hookMarks.block x after)).isSome = true :=
    index_isSome_iff.2 (hookMarks.start_infix_block.trans (List.suffix_append u _).isInfix)
  rw [inject_eq, hc, legacyFree_of_noLegacy hleg, HookParams.write, if_pos hin, replaceAll_hook_block hu hx]

/-- A file with one block. -/
theorem lastWriter_block_iff (hp : p.Clean) (hq : q.Clean) (hleg : NoLegacy (u ++ hookMarks.block x after))
    (hu : ¬ usageHookBlockStart <:+: u) (hx : ¬ usageHookBlockEnd <:+: x)
    (hafter : hookMarks.cutBlock after = none) (hc : config.getD [] = u ++ hookMarks.block x after) :
    LastWriter p q config ↔ (u.getLast? ≠ some newline ∨ ∀ b ∈ after, b = newline) := by
  have hput : ∀ p : HookParams, p.inject config = some (u ++ (p.block ++ dropBreak after)) := fun p => by
    rw [inject_block hleg hu hx hc p,
      replaceAll_hook_none (hookMarks.cutBlock_of_suffix hafter (dropBreak_suffix after))]
  have hold := unblocked_one hleg hu hx hafter
  have hq' := hooked_of_block hq hleg hu hafter
  have hremoved : UpToLineEnd ((removeCodexStopHook (q.inject config)).getD []) (unblocked (config.getD [])) ↔
      (u.getLast? ≠ some newline ∨ ∀ b ∈ after, b = newline) := by
    rw [hput q, hq'.remove, hc, hold, Option.getD_some, upToLineEnd_iff, forall_dropBreak]
  refine ⟨fun h => hremoved.1 h.removed, fun h => ⟨?_, ?_, ⟨[], by simp, ?_⟩, hremoved.2 h⟩⟩
  · rw [hput p, hput q, (hooked_of_block hp hleg hu hafter).inject q]
  · rw [hput q, Option.getD_some, hq'.markedBlocks]
  · rw [hput q, Option.getD_some, hq'.unblocked, hc, hold, List.append_nil]

theorem stop_infix_of_replaced (hq : q.Clean) (c : Bytes)
    (h : legacyUsageHookBlockEnd <:+: replaceAll hookBlockLen q.block 0 c) : legacyUsageHookBlockEnd <:+: c
      := by
  induction hlen : c.length using Nat.strongRecOn generalizing c with
  | _ n ih =>
    cases hcut : hookMarks.cutBlock c with
    | none => rwa [replaceAll_hook_none hcut] at h
    | some cut =>
      obtain ⟨x, after⟩ := cut
      obtain ⟨u, rfl, hu, hx⟩ := hookMarks.cutBlock_eq_some_iff.1 hcut
      have hshort := hookMarks.length_of_cutBlock hcut
      have hle := (dropBreak_suffix after).length_le
      have hin : dropBreak after <:+ u ++ hookMarks.block x after :=
        (dropBreak_suffix after).trans ⟨u ++ hookMarks.block x [], by simp [BlockMarks.block]⟩
      rw [replaceAll_hook_block hu hx, (apart_block_stop q u _).1.infix_iff,
        (apart_block_stop q u _).2.infix_iff] at h
      rcases h with h | h | h
      · exact h.trans (List.prefix_append u _).isInfix
      · exact absurd h (legacy_not_in_block hq).2
      · exact (ih _ (by omega) (dropBreak after) h rfl).trans hin.isInfix

theorem noLegacy_replaced (hq : q.Clean) (hleg : NoLegacy c) : NoLegacy (replaceAll hookBlockLen q.block 0 c)
    := by
  induction hlen : c.length using Nat.strongRecOn generalizing c with
  | _ n ih =>
    cases hcut : hookMarks.cutBlock c with
    | none => rwa [replaceAll_hook_none hcut]
    | some cut =>
      obtain ⟨x, after⟩ := cut
      obtain ⟨u, rfl, hu, hx⟩ := hookMarks.cutBlock_eq_some_iff.1 hcut
      have hshort := hookMarks.length_of_cutBlock hcut
      have hle := (dropBreak_suffix after).length_le
      rw [replaceAll_hook_block hu hx]
      refine noLegacy_around hq (legacyHookMarks.cutBlock_of_prefix hleg (List.prefix_append u _))
        (ih _ (by omega) (noLegacy_dropBreak hleg) rfl) fun hstart hstop => ?_
      exact not_stop_after hleg hstart (stop_infix_of_replaced hq _ hstop)

/-- Of two blocks each is written. -/
theorem not_one_of_more (hq : q.Clean) (hleg : NoLegacy (u ++ hookMarks.block x after))
    (hu : ¬ usageHookBlockStart <:+: u) (hx : ¬ usageHookBlockEnd <:+: x)
    (hafter : hookMarks.cutBlock after ≠ none) (hc : config.getD [] = u ++ hookMarks.block x after) :
    markedBlocks ((q.inject config).getD []) ≠ [q.block] := by
  have hwhole := noLegacy_replaced hq hleg
  rw [replaceAll_hook_block hu hx] at hwhole
  have hmore : hookMarks.cutBlock (dropBreak after) ≠ none := by
    intro hnone
    refine hafter ?_
    rw [dropBreak] at hnone
    split_ifs at hnone with hbreak
    · obtain ⟨t, rfl⟩ := hbreak
      exact cutBlock_newline_cons hnone
    · exact hnone
  obtain ⟨⟨x', after'⟩, hcut⟩ := Option.ne_none_iff_exists'.1 hmore
  obtain ⟨u', hsplit, hu', hx'⟩ := hookMarks.cutBlock_eq_some_iff.1 hcut
  have hlast : NoLegacy (replaceAll hookBlockLen q.block 0 (dropBreak after)) :=
    noLegacy_replaced hq (noLegacy_dropBreak hleg)
  rw [inject_block hleg hu hx hc q, Option.getD_some, markedBlocks_block hq hwhole hu, hsplit] at *
  rw [replaceAll_hook_block hu' hx'] at hlast ⊢
  rw [markedBlocks_block hq hlast hu']
  simp

/-- Without older blocks, the hook is written and taken out well exactly where there is no
start marker or one block, before or after which no text can lose its line end. -/
theorem lastWriter_iff_oneHook (hp : p.Clean) (hq : q.Clean) (hleg : NoLegacy (config.getD [])) :
    LastWriter p q config ↔ OneHook (config.getD []) := by
  have hfree := legacyFree_of_noLegacy hleg
  by_cases hstart : usageHookBlockStart <:+: config.getD []
  · cases hcut : hookMarks.cutBlock (config.getD []) with
    | none =>
      have hsome : (index usageHookBlockStart (config.getD [])).isSome = true := index_isSome_iff.2 hstart
      have hput : q.inject config = some (config.getD []) := by
        rw [inject_eq, hfree, HookParams.write, if_pos hsome, replaceAll_hook_none hcut]
      constructor
      · intro h
        have hone := h.one
        rw [hput, Option.getD_some, markedBlocks,
          taken_of_none (trailedBlockLen_of_none (eitherHookLen_of_none hleg hcut))] at hone
        cases hone
      · rintro (h | ⟨u, x, after, hc, hu, hx, -⟩)
        · exact absurd hstart h
        · rw [hc, hookMarks.cutBlock_eq_some_iff.2 ⟨u, rfl, hu, hx⟩] at hcut
          cases hcut
    | some cut =>
      obtain ⟨x, after⟩ := cut
      obtain ⟨u, hc, hu, hx⟩ := hookMarks.cutBlock_eq_some_iff.1 hcut
      rw [hc] at hleg
      constructor
      · intro h
        by_cases hafter : hookMarks.cutBlock after = none
        · exact .inr ⟨u, x, after, hc, hu, hx, hafter, (lastWriter_block_iff hp hq hleg hu hx hafter hc).1 h⟩
        · exact absurd h.one (not_one_of_more hq hleg hu hx hafter hc)
      · rintro (h | ⟨u', x', after', hc', hu', hx', hafter, hbreak⟩)
        · exact absurd hstart h
        · rw [← hc, hc'] at hleg
          exact (lastWriter_block_iff hp hq hleg hu' hx' hafter hc').2 hbreak
  · have hnone : hookMarks.cutBlock (config.getD []) = none := hookMarks.cutBlock_of_no_start hstart
    refine ⟨fun _ => .inl hstart, fun _ => lastWriter_append hp hq ?_ ?_ ?_⟩
    · rwa [hfree]
    · rwa [hfree]
    · rw [hfree, unblocked_of_none hleg hnone]
      exact upToLineEnd_endLine _

theorem trimBreak_isPrefix_of (s : Bytes) : trimBreak s <+: s := by
  rw [trimBreak]
  split_ifs
  · exact List.dropLast_prefix s
  · exact List.prefix_rfl

theorem upToLineEnd_trimBreak (u : Bytes) : UpToLineEnd (endLine (trimBreak u)) u := by
  by_cases hlast : u.getLast? = some newline
  · obtain ⟨w, rfl⟩ := List.getLast?_eq_some_iff.1 hlast
    rw [trimBreak, if_pos hlast, List.dropLast_concat, endLine]
    split_ifs
    · exact .inl rfl
    · exact .inr (.inr rfl)
  · rw [trimBreak, if_neg hlast]
    exact upToLineEnd_endLine u

theorem unblocked_legacy (hu : Unmarked u) (hx : ¬ legacyUsageHookBlockEnd <:+: x) :
    unblocked (u ++ legacyHookMarks.block x after) = u ++ unblocked (dropBreak after) := by
  have hlen : eitherHookLen (legacyHookMarks.block x after) = some (legacyHookMarks.block x []).length :=
    eitherHookLen_legacy hx
  have hall := cutAll_trailed eitherHookLen_nil (eitherHookLen_before_legacy hu) hlen length_block_ne_zero
  rwa [drop_length_block] at hall

/-- An older block at the front makes no difference. -/
theorem lastWriter_first_iff (hx : ¬ legacyUsageHookBlockEnd <:+: x)
    (hc : config.getD [] = legacyHookMarks.block x after) :
    LastWriter p q config ↔ LastWriter p q (some (dropBreak after)) := by
  have hempty : Unmarked [] := ⟨by decide, by decide⟩
  have hfree : legacyFree (config.getD []) = legacyFree (dropBreak after) := by
    rw [hc]
    exact legacyFree_append hempty.2 hx
  have hsame : unblocked (config.getD []) = unblocked (dropBreak after) := by
    rw [hc]
    exact unblocked_legacy hempty hx
  have hput : ∀ p : HookParams, p.inject config = p.inject (some (dropBreak after)) := fun p => by
    rw [inject_eq, inject_eq, hfree, Option.getD_some]
  constructor
  · rintro ⟨hlast, hone, hkept, hremoved⟩
    rw [hput p, hput q] at *
    rw [hsame] at *
    exact ⟨hlast, hone, hkept, hremoved⟩
  · rintro ⟨hlast, hone, hkept, hremoved⟩
    rw [← hput p, ← hput q] at *
    rw [Option.getD_some, ← hsame] at *
    exact ⟨hlast, hone, hkept, hremoved⟩

theorem lastWriter_of_tidy (hp : p.Clean) (hq : q.Clean) (h : Tidy (config.getD [])) : LastWriter p q config
    := by
  generalize hc : config.getD [] = s at h
  induction h generalizing config with
  | plain legacy one =>
    subst hc
    exact (lastWriter_iff_oneHook hp hq legacy).2 one
  | first stop _ ih => exact (lastWriter_first_iff stop hc).2 (ih rfl)
  | last text stop rest =>
    rename_i u x after
    have hafter : dropBreak after = [] := by
      rcases rest with rfl | rfl
      · rfl
      · exact dropBreak_newline []
    have hfree : legacyFree (config.getD []) = trimBreak u := by
      rw [hc, legacyFree_append text.2 stop, hafter, legacyFree, cutAll, List.append_nil]
    have hold : unblocked (config.getD []) = u := by
      rw [hc, unblocked_legacy text stop, hafter, unblocked, cutAll, List.append_nil]
    have hin := (trimBreak_isPrefix_of u).isInfix
    refine lastWriter_append hp hq ?_ ?_ ?_
    · rw [hfree]
      exact legacyHookMarks.cutBlock_of_no_start fun h => text.2 (h.trans hin)
    · rw [hfree]
      exact fun h => text.1 (h.trans hin)
    · rw [hfree, hold]
      exact upToLineEnd_trimBreak u

theorem tidy_of_lastWriter (hp : p.Clean) (hq : q.Clean) (h : OldFirst (config.getD []))
    (hlast : LastWriter p q config) : Tidy (config.getD []) := by
  generalize hc : config.getD [] = s at h
  induction h generalizing config with
  | none legacy =>
    subst hc
    exact .plain legacy ((lastWriter_iff_oneHook hp hq legacy).1 hlast)
  | block stop _ ih => exact .first stop (ih ((lastWriter_first_iff stop hc).1 hlast) rfl)

/-- In a tidy file the last hook wins and the text stays; in one where no older block stands
after other text, only in a tidy one. -/
theorem lastWriter_tidy (hp : p.Clean) (hq : q.Clean) : (Tidy (config.getD []) → LastWriter p q config) ∧
    (OldFirst (config.getD []) → (LastWriter p q config ↔ Tidy (config.getD []))) :=
  ⟨lastWriter_of_tidy hp hq, fun hold => ⟨tidy_of_lastWriter hp hq hold, lastWriter_of_tidy hp hq⟩⟩

theorem clean_of_not_mem (h : (0x23 : UInt8) ∉ p.head) : p.Clean := by
  have hhash : ∀ marker ∈ hookMarkers, (0x23 : UInt8) ∈ marker := by decide
  exact fun marker hmem => not_infix_line h p.sessionID (hhash marker hmem)

theorem lastWriter_model_line : LastWriter ⟨[], 1⟩ ⟨[], 2⟩ (some (ascii "model = 1")) := by
  have hclean : ∀ id, HookParams.Clean ⟨[], id⟩ := fun _ => clean_of_not_mem List.not_mem_nil
  have hleg : NoLegacy (ascii "model = 1") := legacyHookMarks.cutBlock_of_no_start (by decide)
  exact (lastWriter_tidy (hclean 1) (hclean 2)).1 (.plain hleg (.inl (by decide)))

/-- The lines "x" and "y" with a block between them. -/
def linesAroundBlock : Bytes :=
  0x78 :: newline :: (usageHookBlockStart ++ newline :: (usageHookBlockEnd ++ [newline, 0x79]))

theorem removal_joins_lines : ¬ ∀ p q config, p.Clean → q.Clean → LastWriter p q config := by
  intro h
  have hclean : ∀ id, HookParams.Clean ⟨[], id⟩ := fun _ => clean_of_not_mem List.not_mem_nil
  have hremoved := (h ⟨[], 1⟩ ⟨[], 2⟩ (some linesAroundBlock) (hclean 1) (hclean 2)).removed
  have hjoined : (removeCodexStopHook (HookParams.inject ⟨[], 2⟩ (some linesAroundBlock))).getD [] =
      [0x78, 0x79] := by decide +kernel
  have hold : unblocked linesAroundBlock = [0x78, newline, 0x79] := by decide +kernel
  rw [hjoined, Option.getD_some, hold, UpToLineEnd] at hremoved
  exact absurd hremoved (by decide)

end Cases

end ManyAiCli.Wrapper
