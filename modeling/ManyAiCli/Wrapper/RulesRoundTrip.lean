import ManyAiCli.Wrapper.ApprovalRules
import Mathlib.Logic.Function.Iterate

/-! Sessions and the instruction files. A shared block goes without a trace. The import
line of Claude leaves the line end that was put before it, so its file grows with every
session, other than when the scan of the file fails. -/

namespace ManyAiCli.Wrapper

open Text

/-! ### Lines -/

theorem dropEncoded_suffix (encodings : List Bytes) (skip : ℕ) (s : Bytes) :
    dropEncoded encodings skip s <:+ s := by
  induction s generalizing skip with
  | nil => cases skip <;> exact List.suffix_rfl
  | cons b s ih =>
    cases skip with
    | succ skip => exact (ih skip).trans (List.suffix_cons b s)
    | zero =>
      rw [dropEncoded]
      split
      · exact (ih _).trans (List.suffix_cons b s)
      · exact List.suffix_rfl

theorem infix_trimSpaceBytes (s : Bytes) : trimSpaceBytes s <:+: s := by
  have hright := dropEncoded_suffix (spaces.map List.reverse) 0 (dropEncoded spaces 0 s).reverse
  have hleft : trimSpaceBytes s <+: dropEncoded spaces 0 s := by
    rw [← List.reverse_suffix, trimSpaceBytes, List.reverse_reverse]
    exact hright
  exact hleft.isInfix.trans (dropEncoded_suffix spaces 0 s).isInfix

/-- What the result of a scan says about the lines. -/
theorem scanLines_cases (isMarker : Bytes → Bool) (lines : List Bytes) :
    match scanLines isMarker lines with
    | .ok true => ∃ line ∈ lines, isMarker (trimSpaceBytes line) = true
    | .ok false => ∀ line ∈ lines, line.length < maxLineBytes ∧ isMarker (trimSpaceBytes line) = false
    | .error e => e = .other "bufio.Scanner: token too long" ∧ ∃ line ∈ lines, maxLineBytes ≤ line.length := by
  induction lines with
  | nil => simp [scanLines]
  | cons line lines ih =>
    rw [scanLines]
    split_ifs with hlong hmark
    · exact ⟨rfl, line, List.mem_cons_self, hlong⟩
    · exact ⟨line, List.mem_cons_self, hmark⟩
    · generalize scanLines isMarker lines = result at ih
      cases result with
      | error e =>
        obtain ⟨he, l, hl, hlen⟩ := ih
        exact ⟨he, l, List.mem_cons_of_mem line hl, hlen⟩
      | ok found =>
        cases found with
        | true =>
          obtain ⟨l, hl, hm⟩ := ih
          exact ⟨l, List.mem_cons_of_mem line hl, hm⟩
        | false =>
          intro l hl
          rcases List.mem_cons.mp hl with rfl | hl
          · exact ⟨by omega, by simpa using hmark⟩
          · exact ih l hl

/-! ### The import line -/

theorem dropImportLines_of_none {c : Bytes}
    (h : ∀ line ∈ c.splitOn newline, trimSpaceBytes line ≠ claudeImportLine) : dropImportLines c = c := by
  have hall : (c.splitOn newline).filter (fun line => trimSpaceBytes line ≠ claudeImportLine) =
      c.splitOn newline := List.filter_eq_self.mpr fun line hl => by simpa using h line hl
  rw [dropImportLines, hall, List.intercalate_splitOn]

theorem dropImportLines_ne {c line : Bytes} (hl : line ∈ c.splitOn newline)
    (h : trimSpaceBytes line = claudeImportLine) : dropImportLines c ≠ c :=
  intercalate_filter_ne (by decide) ⟨line, hl, by simp [h]⟩

theorem splitOn_injected (c : Bytes) :
    (c ++ newline :: (claudeImportLine ++ [newline])).splitOn newline =
      c.splitOn newline ++ [claudeImportLine, []] := by
  rw [List.splitOn_append_cons_self,
    List.splitOn_append_cons_self_of_not_mem (by decide : newline ∉ claudeImportLine), List.splitOn_nil]

theorem intercalate_append_nil {ls : List Bytes} (h : ls ≠ []) :
    [newline].intercalate (ls ++ [[]]) = [newline].intercalate ls ++ [newline] := by
  induction ls with
  | nil => exact absurd rfl h
  | cons l ls ih =>
    cases ls with
    | nil => simp [List.intercalate_cons_cons, List.intercalate_singleton]
    | cons m ls =>
      rw [List.cons_append, List.intercalate_cons_of_ne_nil (by simp), ih (by simp),
        List.intercalate_cons_cons]
      simp only [List.append_assoc]

/-- The line end before the import line stays. -/
theorem dropImportLines_injected {c : Bytes}
    (h : ∀ line ∈ c.splitOn newline, trimSpaceBytes line ≠ claudeImportLine) :
    dropImportLines (c ++ newline :: (claudeImportLine ++ [newline])) = c ++ [newline] := by
  have hkept : (c.splitOn newline).filter (fun line => trimSpaceBytes line ≠ claudeImportLine) =
      c.splitOn newline := List.filter_eq_self.mpr fun line hl => by simpa using h line hl
  have hrest : [claudeImportLine, []].filter (fun line => trimSpaceBytes line ≠ claudeImportLine) =
      [[]] := by decide
  rw [dropImportLines, splitOn_injected, List.filter_append, hkept, hrest,
    intercalate_append_nil (List.splitOn_ne_nil newline c), List.intercalate_splitOn]

/-! ### The shared block -/

theorem eitherBlockLen_eq_none {s : Bytes} (hs : ¬ sharedBlockStart <+: s)
    (hl : ¬ legacySharedBlockStart <+: s) : eitherBlockLen s = none := by
  simp [eitherBlockLen, blockLen, hs, hl]

theorem blockReLen_eq_none {b : UInt8} {s : Bytes} (hb : eitherBlockLen (b :: s) = none)
    (hs : eitherBlockLen s = none) : blockReLen (b :: s) = none := by
  simp [blockReLen, hb, hs]

/-- No match begins in a text without start markers, also where a block follows it in
the next line. -/
theorem eitherBlockLen_append {u : Bytes} (t : Bytes) (hs : ¬ sharedBlockStart <:+: u)
    (hl : ¬ legacySharedBlockStart <:+: u) : eitherBlockLen (u ++ newline :: t) = none :=
  eitherBlockLen_eq_none
    (fun h => hs (prefix_of_prefix_append_cons (by decide) h).isInfix)
    (fun h => hl (prefix_of_prefix_append_cons (by decide) h).isInfix)

theorem dropBlocks_append {c : Bytes} (t : Bytes) (hs : ¬ sharedBlockStart <:+: c)
    (hl : ¬ legacySharedBlockStart <:+: c) :
    dropBlocks (c ++ newline :: t) = c ++ dropBlocks (newline :: t) := by
  refine cutAll_append c (newline :: t) fun u hne hu => ?_
  cases u with
  | nil => exact absurd rfl hne
  | cons b u =>
    have hu' : u <:+ c := (List.suffix_cons b u).trans hu
    exact blockReLen_eq_none
      (eitherBlockLen_append t (fun h => hs (h.trans hu.isInfix)) fun h => hl (h.trans hu.isInfix))
      (eitherBlockLen_append t (fun h => hs (h.trans hu'.isInfix)) fun h => hl (h.trans hu'.isInfix))

theorem dropBlocks_of_none {c : Bytes} (hs : ¬ sharedBlockStart <:+: c)
    (hl : ¬ legacySharedBlockStart <:+: c) : dropBlocks c = c := by
  have hnone : ∀ u, u <:+ c → eitherBlockLen u = none := fun u hu =>
    eitherBlockLen_eq_none (fun h => hs (h.isInfix.trans hu.isInfix)) fun h => hl (h.isInfix.trans hu.isInfix)
  have : cutAll blockReLen 0 (c ++ []) = c ++ cutAll blockReLen 0 [] := cutAll_append c [] fun u hne hu => by
    cases u with
    | nil => exact absurd rfl hne
    | cons b u =>
      rw [List.append_nil]
      exact blockReLen_eq_none (hnone _ hu) (hnone u ((List.suffix_cons b u).trans hu))
  simpa [dropBlocks, cutAll] using this

/-- The end marker after the rules is the first one. -/
theorem index_sharedBlockEnd {body : Bytes} (h : ¬ sharedBlockEnd <:+: body) :
    index sharedBlockEnd (newline :: (body ++ newline :: (sharedBlockEnd ++ [newline]))) =
      some (body.length + 2) := by
  have hsplit : newline :: (body ++ newline :: (sharedBlockEnd ++ [newline])) =
      (newline :: body ++ [newline]) ++ (sharedBlockEnd ++ [newline]) := by simp
  have hfirst : ∀ u, u ≠ [] → u <:+ newline :: body ++ [newline] →
      ¬ sharedBlockEnd <+: u ++ (sharedBlockEnd ++ [newline]) := by
    intro u hne hu hp
    rcases List.suffix_concat_iff.mp hu with rfl | ⟨v, rfl, hv⟩
    · exact hne rfl
    · rw [List.append_assoc] at hp
      have hin : sharedBlockEnd <:+: newline :: body :=
        (prefix_of_prefix_append_cons (by decide) hp).isInfix.trans hv.isInfix
      rcases List.infix_cons_iff.mp hin with hstart | hin
      · have hnil : sharedBlockEnd <+: [] := prefix_of_prefix_append_cons (by decide) hstart
        exact absurd (List.prefix_nil.mp hnil) (by decide)
      · exact h hin
  rw [hsplit, index_append _ (List.prefix_append _ _) hfirst]
  simp

theorem eitherBlockLen_sharedBlock {central : Bytes} (h : ¬ sharedBlockEnd <:+: central) :
    eitherBlockLen (sharedBlock central) =
      some (sharedBlockStart.length + ((trimSpaceBytes central).length + 2) + sharedBlockEnd.length) := by
  have hbody : ¬ sharedBlockEnd <:+: trimSpaceBytes central := fun hi => h (hi.trans (infix_trimSpaceBytes central))
  have hpre : sharedBlockStart <+: sharedBlock central := List.prefix_append _ _
  rw [eitherBlockLen, blockLen, if_pos hpre, sharedBlock, List.drop_left, index_sharedBlockEnd hbody]
  rfl

theorem dropBlocks_sharedBlock {central : Bytes} (h : ¬ sharedBlockEnd <:+: central) :
    dropBlocks (newline :: sharedBlock central) = [] := by
  have hdrop : (newline :: sharedBlock central).drop
      (sharedBlockStart.length + ((trimSpaceBytes central).length + 2) + sharedBlockEnd.length + 1) =
        [newline] := by
    have hsplit : sharedBlock central = (sharedBlockStart ++ newline :: (trimSpaceBytes central ++
        newline :: sharedBlockEnd)) ++ [newline] := by simp [sharedBlock]
    rw [List.drop_succ_cons, hsplit, List.drop_left']
    simp only [List.length_append, List.length_cons]
    omega
  have hlen := congrArg List.length hdrop
  rw [List.length_drop, List.length_singleton] at hlen
  have hmatch : blockReLen (newline :: sharedBlock central) = some (newline :: sharedBlock central).length := by
    rw [blockReLen]
    simp only [if_true, eitherBlockLen_sharedBlock h, Option.map_some, Option.some_or, hdrop,
      List.prefix_rfl]
    exact congrArg some (by omega)
  rw [dropBlocks, cutAll_match (List.cons_ne_nil _ _) hmatch, ← List.length_cons, List.drop_length]
  rfl

/-! ### Sessions -/

variable {rules : Bytes} {provider path centralPath : String} {central : Option Bytes} {c : Bytes}

theorem syncRulesFile_idem (rules : Bytes) (central : Option Bytes) :
    syncRulesFile rules (some (syncRulesFile rules central)) = syncRulesFile rules central := by
  cases central with
  | none => simp [syncRulesFile]
  | some data =>
    by_cases h : trimSpaceBytes (data.takeWhile (· ≠ newline)) = versionComment
    · simp only [syncRulesFile, h, if_true]
    · simp only [syncRulesFile, h, if_false, ite_self]

theorem ne_claude_of_shared (h : providerUsesSharedBlock provider = true) : provider ≠ "claude" := by
  rintro rfl
  simp [providerUsesSharedBlock] at h

/-- A shared block is put in where no start marker is, and taken out again. -/
theorem session_shared (hp : providerUsesSharedBlock provider = true)
    (hs : ¬ sharedBlockStart <:+: c) (hl : ¬ legacySharedBlockStart <:+: c)
    (hrules : ¬ sharedBlockEnd <:+: syncRulesFile rules central) :
    session rules provider path centralPath ⟨central, some c⟩ =
      ⟨some (syncRulesFile rules central), some c⟩ := by
  have hne := ne_claude_of_shared hp
  have hkeep : dropBlocks c = c := dropBlocks_of_none hs hl
  have hcut : dropBlocks (c ++ newline :: sharedBlock (syncRulesFile rules central)) = c := by
    rw [dropBlocks_append _ hs hl, dropBlocks_sharedBlock hrules, List.append_nil]
  have hscan := scanLines_cases (fun line => line = sharedBlockStart || line = legacySharedBlockStart)
    (c.splitOn newline)
  rw [session, injectRules]
  simp only [scanRulesConfigured, if_neg hne, if_pos hp, scanSharedBlockConfigured, scanFile]
  generalize scanLines _ (c.splitOn newline) = result at hscan
  cases result with
  | error e =>
    obtain ⟨rfl, -⟩ := hscan
    simp [scanError, removeRules, hne, hp, hkeep]
  | ok found =>
    cases found with
    | false => simp [scanError, Except.toOption, appendSharedBlock, appendToFile, removeRules, hne, hp, hcut]
    | true =>
      obtain ⟨line, hline, hmark⟩ := hscan
      have hin : trimSpaceBytes line <:+: c := (infix_trimSpaceBytes line).trans (infix_of_mem_splitOn hline)
      simp only [Bool.or_eq_true, decide_eq_true_eq] at hmark
      rcases hmark with hm | hm
      · exact absurd (hm ▸ hin) hs
      · exact absurd (hm ▸ hin) hl

/-- A line is too long for the scan of Claude's file, and none is the import line, also
with white space around it. -/
def ScanFails (c : Bytes) : Prop :=
  (∃ line ∈ c.splitOn newline, maxLineBytes ≤ line.length) ∧
    ∀ line ∈ c.splitOn newline, trimSpaceBytes line ≠ claudeImportLine

theorem session_claude_of_scanFails (h : ScanFails c) :
    session rules "claude" path centralPath ⟨central, some c⟩ =
      ⟨some (syncRulesFile rules central), some c⟩ := by
  obtain ⟨⟨long, hlong, hlen⟩, hnone⟩ := h
  have hscan := scanLines_cases (fun line => line = claudeImportLine) (c.splitOn newline)
  have hkeep := dropImportLines_of_none hnone
  rw [session, injectRules]
  simp only [scanRulesConfigured, if_true, scanClaudeConfigured, scanFile]
  generalize scanLines _ (c.splitOn newline) = result at hscan
  cases result with
  | error e =>
    obtain ⟨rfl, -⟩ := hscan
    simp [scanError, removeRules, hkeep]
  | ok found =>
    cases found with
    | false => exact absurd (hscan long hlong).1 (by omega)
    | true =>
      obtain ⟨line, hline, hmark⟩ := hscan
      exact absurd (by simpa using hmark) (hnone line hline)

/-- Each session leaves a line end behind. -/
theorem session_claude_grows
    (h : ∀ line ∈ c.splitOn newline, line.length < maxLineBytes ∧ trimSpaceBytes line ≠ claudeImportLine) :
    session rules "claude" path centralPath ⟨central, some c⟩ =
      ⟨some (syncRulesFile rules central), some (c ++ [newline])⟩ := by
  have hscan := scanLines_cases (fun line => line = claudeImportLine) (c.splitOn newline)
  have hgrow := dropImportLines_injected fun line hline => (h line hline).2
  rw [session, injectRules]
  simp only [scanRulesConfigured, if_true, scanClaudeConfigured, scanFile]
  generalize scanLines _ (c.splitOn newline) = result at hscan
  cases result with
  | error e =>
    obtain ⟨-, line, hline, hlong⟩ := hscan
    exact absurd (h line hline).1 (by omega)
  | ok found =>
    cases found with
    | false => simp [scanError, Except.toOption, appendClaudeImport, appendToFile, removeRules, hgrow]
    | true =>
      obtain ⟨line, hline, hmark⟩ := hscan
      exact absurd (by simpa using hmark) (h line hline).2

/-- A line that is the import line with white space goes at the end of a session. -/
theorem session_claude_of_padded {line : Bytes} (hline : line ∈ c.splitOn newline)
    (htrim : trimSpaceBytes line = claudeImportLine) :
    session rules "claude" path centralPath ⟨central, some c⟩ =
      ⟨some (syncRulesFile rules central), some (dropImportLines c)⟩ := by
  have hscan := scanLines_cases (fun line => line = claudeImportLine) (c.splitOn newline)
  rw [session, injectRules]
  simp only [scanRulesConfigured, if_true, scanClaudeConfigured, scanFile]
  generalize scanLines _ (c.splitOn newline) = result at hscan
  cases result with
  | error e =>
    obtain ⟨rfl, -⟩ := hscan
    simp [scanError, removeRules]
  | ok found =>
    cases found with
    | false => exact absurd htrim (by simpa using (hscan line hline).2)
    | true => simp [scanError, Except.toOption, removeRules]

theorem session_claude_restores_iff :
    (session rules "claude" path centralPath ⟨central, some c⟩).target = some c ↔ ScanFails c := by
  constructor
  · intro hsame
    by_contra hno
    by_cases hpadded : ∃ line ∈ c.splitOn newline, trimSpaceBytes line = claudeImportLine
    · obtain ⟨line, hline, htrim⟩ := hpadded
      rw [session_claude_of_padded hline htrim, Option.some_inj] at hsame
      exact dropImportLines_ne hline htrim hsame
    · push Not at hpadded
      have hshort : ∀ line ∈ c.splitOn newline, line.length < maxLineBytes := by
        by_contra hlong
        push Not at hlong
        exact hno ⟨hlong, hpadded⟩
      rw [session_claude_grows fun line hline => ⟨hshort line hline, hpadded line hline⟩,
        Option.some_inj] at hsame
      simpa using congrArg List.length hsame
  · intro h
    rw [session_claude_of_scanFails h]

/-- What a session leaves as it is, any number of sessions does. -/
theorem iterate_session (h : session rules provider path centralPath ⟨central, some c⟩ =
      ⟨some (syncRulesFile rules central), some c⟩)
    (h' : session rules provider path centralPath ⟨some (syncRulesFile rules central), some c⟩ =
      ⟨some (syncRulesFile rules central), some c⟩) (n : ℕ) :
    ((session rules provider path centralPath)^[n] ⟨central, some c⟩).target = some c := by
  cases n with
  | zero => rfl
  | succ n => rw [Function.iterate_succ_apply, h, Function.iterate_fixed h']

/-- The start and end markers of both names. -/
def markers : List Bytes := [sharedBlockStart, sharedBlockEnd, legacySharedBlockStart, legacySharedBlockEnd]

/-- Sessions give the file back exactly when the provider has a shared block or the
scan for Claude's import line fails. -/
theorem session_restores_iff (rules : Bytes) (provider path centralPath : String) (central : Option Bytes)
    (c : Bytes) (hprovider : provider = "claude" ∨ providerUsesSharedBlock provider = true)
    (hmarkers : ∀ marker ∈ markers, ¬ marker <:+: c)
    (hrules : ¬ sharedBlockEnd <:+: syncRulesFile rules central) :
    ((session rules provider path centralPath ⟨central, some c⟩).target = some c ↔
      providerUsesSharedBlock provider = true ∨ ScanFails c) ∧
    ((∀ n, ((session rules provider path centralPath)^[n] ⟨central, some c⟩).target = some c) ↔
      providerUsesSharedBlock provider = true ∨ ScanFails c) := by
  have hrules' : ¬ sharedBlockEnd <:+: syncRulesFile rules (some (syncRulesFile rules central)) := by
    rwa [syncRulesFile_idem]
  have hone : (session rules provider path centralPath ⟨central, some c⟩).target = some c ↔
      providerUsesSharedBlock provider = true ∨ ScanFails c := by
    rcases hprovider with rfl | hp
    · rw [session_claude_restores_iff]
      exact ⟨.inr, fun h => h.resolve_left (by decide)⟩
    · rw [session_shared hp (hmarkers _ (by simp [markers])) (hmarkers _ (by simp [markers])) hrules]
      exact ⟨fun _ => .inl hp, fun _ => rfl⟩
  refine ⟨hone, fun hall => hone.mp (hall 1), fun h n => ?_⟩
  rcases hprovider with rfl | hp
  · have hfails := h.resolve_left (by decide)
    refine iterate_session (session_claude_of_scanFails hfails) ?_ n
    rw [session_claude_of_scanFails hfails, syncRulesFile_idem]
  · have hs := hmarkers sharedBlockStart (by simp [markers])
    have hl := hmarkers legacySharedBlockStart (by simp [markers])
    refine iterate_session (session_shared hp hs hl hrules) ?_ n
    rw [session_shared hp hs hl hrules', syncRulesFile_idem]

theorem session_restores_agents_md :
    let rules := ascii "<!-- version: 18 -->\n## many-ai-cli Approval Format\n"
    let c := ascii "before\n"
    (session rules "copilot" "AGENTS.md" "approval-rules.md" ⟨none, some c⟩).target = some c :=
  (session_restores_iff _ _ _ _ _ _ (.inr (by decide)) (by decide) (by decide)).1.mpr (.inl (by decide))

/-- One session with Claude adds an empty line. -/
theorem session_adds_line_to_claude_md : ¬ ∀ (rules : Bytes) (provider path centralPath : String)
    (central : Option Bytes) (c : Bytes), (provider = "claude" ∨ providerUsesSharedBlock provider = true) →
    claudeImportLine ∉ c.splitOn newline → (∀ marker ∈ markers, ¬ marker <:+: c) →
    ¬ sharedBlockEnd <:+: syncRulesFile rules central →
    (session rules provider path centralPath ⟨central, some c⟩).target = some c := by
  intro h
  have hsame := h (ascii "<!-- version: 18 -->\n") "claude" "CLAUDE.md" "approval-rules.md" none
    (ascii "before\n") (.inl rfl) (by decide) (by decide) (by decide)
  exact absurd hsame (by decide)

end ManyAiCli.Wrapper
