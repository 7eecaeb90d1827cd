import ManyAiCli.AutoApproval.Policy

/-! What a rule made from one approval authorises: the command is quoted, so the rule is
for that command alone, but its directory is an expression, which may match any others. -/

namespace ManyAiCli.AutoApproval

open Text Approval

variable {Data : Type*} {lib : Library Data} {data data' : Option Data} {seen : List (List Char)}
  {rule : Rule} {rules : List Rule} {command cwd c d : List Char} {risk : ApprovalRiskTier} {i : ℕ}

/-! ### The rules of a policy -/

theorem evaluate_allowed {p : Policy} : (p.evaluate lib c d risk).allowed = true ↔
    trimSpace c ≠ [] ∧ matchesHardBlock lib (trimSpace c) = false ∧ risk = .low ∧
      ∃ r ∈ p.rules, r.applies (trimSpace c) d = true := by
  unfold Policy.evaluate
  by_cases hc : trimSpace c = []
  · simp [hc]
  by_cases hblock : matchesHardBlock lib (trimSpace c) = true
  · simp [hc, hblock]
  by_cases hrisk : risk = .low
  · cases hfind : p.rules.find? (·.applies (trimSpace c) d) with
    | some r =>
      have happlies : r.applies (trimSpace c) d = true := by simpa using List.find?_some hfind
      simpa [hc, hblock, hrisk, hfind] using ⟨r, List.mem_of_find?_eq_some hfind, happlies⟩
    | none =>
      have hnone := List.find?_eq_none.mp hfind
      simpa [hc, hblock, hrisk, hfind] using hnone
  · simp [hc, hblock, hrisk]

theorem mem_see : c ∈ see seen rule ↔ c ∈ seen ∨ (c ≠ [] ∧ c = rule.id) := by
  unfold see
  split_ifs with hid
  · rw [hid]
    exact ⟨.inl, fun h => h.elim id fun h => absurd h.2 h.1⟩
  · rw [List.mem_cons]
    constructor
    · rintro (rfl | h)
      · exact .inr ⟨hid, rfl⟩
      · exact .inl h
    · rintro (h | ⟨-, rfl⟩)
      · exact .inr h
      · exact .inl rfl

theorem mem_foldl_see : c ∈ rules.foldl see seen ↔ c ∈ seen ∨ (c ≠ [] ∧ ∃ r ∈ rules, c = r.id) := by
  induction rules generalizing seen with
  | nil => simp
  | cons r rules ih =>
    rw [List.foldl_cons, ih, mem_see]
    simp only [List.mem_cons, exists_eq_or_imp]
    tauto

/-- The checks on a rule depend on the rules before it, not on the ones behind it. -/
theorem rules_loadRules_concat : (loadRules lib seen i (rules ++ [rule])).rules =
    (loadRules lib seen i rules).rules ++
      (loadRule lib (rules.foldl see seen) (i + rules.length) rule).toOption.toList := by
  induction rules generalizing seen i with
  | nil =>
    simp only [List.nil_append, loadRules, List.foldl_nil, List.length_nil, Nat.add_zero]
    cases loadRule lib seen i rule <;> rfl
  | cons r rules ih =>
    rw [List.cons_append, loadRules, loadRules, List.foldl_cons, List.length_cons,
      show i + (rules.length + 1) = i + 1 + rules.length by omega]
    cases loadRule lib seen i r with
    | ok r' => rw [List.cons_append, ih]
    | error w => exact ih

/-! ### The file -/

/-- The rules in the file. -/
def fileRules (lib : Library Data) (data : Option Data) : List Rule :=
  match readFile lib data with
  | .ok f => f.rules
  | .error _ => []

theorem rules_load : (load lib data).rules = (loadRules lib [] 0 (fileRules lib data)).rules := by
  cases data with
  | none => rfl
  | some data =>
    cases hf : lib.unmarshal data with
    | error err =>
      simp only [load, fileRules, readFile, hf]
      rfl
    | ok f =>
      simp only [load, fileRules, readFile, hf]
      split_ifs <;> rfl

/-- Either an equal rule is there already, or the new one is behind the others. -/
theorem addRule_cases (hyaml : ∀ f, lib.unmarshal (lib.marshal f) = .ok f)
    (h : addRule lib data command cwd = .ok (rule, data')) :
    trimSpace command ≠ [] ∧ matchesHardBlock lib (trimSpace command) = false ∧
      (((∃ e ∈ fileRules lib data,
            e.command = (newRule lib (trimSpace command) cwd).command ∧ e.workingDir = cwd) ∧ data' = data) ∨
        ((∀ e ∈ fileRules lib data,
            ¬ (e.command = (newRule lib (trimSpace command) cwd).command ∧ e.workingDir = cwd)) ∧
          fileRules lib data' = fileRules lib data ++ [newRule lib (trimSpace command) cwd])) := by
  unfold addRule at h
  simp only at h
  split at h
  · cases h
  · next hsafe =>
    obtain ⟨hne, hblock⟩ := not_or.mp hsafe
    refine ⟨hne, Bool.not_eq_true _ ▸ hblock, ?_⟩
    have hrules : ∀ f, readFile lib data = .ok f → fileRules lib data = f.rules := fun f hf => by
      rw [fileRules, hf]
    split at h
    · cases h
    · next f hf =>
      rw [hrules f hf]
      split at h
      · next existing hfind =>
        obtain ⟨-, rfl⟩ := Prod.mk.inj (Except.ok.inj h)
        have heq := List.find?_some hfind
        exact .inl ⟨⟨existing, List.mem_of_find?_eq_some hfind, of_decide_eq_true heq⟩, rfl⟩
      · next hfind =>
        obtain ⟨-, rfl⟩ := Prod.mk.inj (Except.ok.inj h)
        refine .inr ⟨fun e he => by simpa using List.find?_eq_none.mp hfind e he, ?_⟩
        rw [fileRules, readFile, hyaml]

/-! ### What the new rule adds -/

/-- The directories that a rule made for `cwd` is for. -/
def matchesDir (lib : Library Data) (cwd d : List Char) : Bool :=
  cwd = [] || (lib.compile cwd).any (· d)

/-- The new rule comes into the file and passes the checks of `Load` there: no rule for
the same has been in it, none with its ID, and its directory is an expression. -/
def takesEffect (lib : Library Data) (data : Option Data) (command cwd : List Char) : Prop :=
  (∀ e ∈ fileRules lib data, ¬ (e.command = (newRule lib command cwd).command ∧ e.workingDir = cwd) ∧
      e.id ≠ (newRule lib command cwd).id) ∧
    (cwd = [] ∨ (lib.compile cwd).isSome = true) ∧
      ruleMatchesHardBlock (fun s => decide (s = command)) = false

instance : Decidable (takesEffect lib data command cwd) :=
  inferInstanceAs (Decidable ((∀ e ∈ fileRules lib data, _) ∧ _ ∧ _))

/-- The new rule when it is loaded. -/
def compiledNew (lib : Library Data) (command cwd : List Char) : CompiledRule :=
  ⟨newRule lib command cwd, fun s => decide (s = command), if cwd = [] then none else lib.compile cwd⟩

theorem newRule_id_ne_nil : (newRule lib command cwd).id ≠ [] := by simp [newRule]

theorem loadRule_newRule
    (hquote : lib.compile ('^' :: quoteMeta command ++ ['$']) = some fun s => decide (s = command)) :
    (loadRule lib seen i (newRule lib command cwd)).toOption =
      if (newRule lib command cwd).id ∉ seen ∧ (cwd = [] ∨ (lib.compile cwd).isSome = true) ∧
        ruleMatchesHardBlock (fun s => decide (s = command)) = false then
          some (compiledNew lib command cwd)
        else none := by
  have hcommand : (newRule lib command cwd).command ≠ [] := by simp [newRule]
  have hcompile : lib.compile (newRule lib command cwd).command = some fun s => decide (s = command) := hquote
  have hrisk : ¬ (newRule lib command cwd).risk.any (· ≠ "low".toList) = true := by simp [newRule]
  have hdir : (newRule lib command cwd).workingDir = cwd := rfl
  simp only [loadRule, if_neg newRule_id_ne_nil, if_neg hcommand, hcompile, List.contains_iff_mem,
    if_neg hrisk, hdir]
  by_cases hseen : (newRule lib command cwd).id ∈ seen
  · rw [if_pos hseen, if_neg fun h => h.1 hseen]
    rfl
  rw [if_neg hseen]
  by_cases hblock : (ruleMatchesHardBlock fun s => decide (s = command)) = true
  · rw [if_pos hblock, if_neg fun h => Bool.false_ne_true (h.2.2.symm.trans hblock)]
    rfl
  rw [if_neg hblock]
  by_cases hbad : cwd ≠ [] ∧ (lib.compile cwd).isNone = true
  · rw [if_pos hbad, if_neg fun h => ?_]
    · rfl
    · obtain hnil | hsome := h.2.1
      · exact hbad.1 hnil
      · rw [Option.isNone_iff_eq_none.mp hbad.2] at hsome
        cases hsome
  · have hgood : cwd = [] ∨ (lib.compile cwd).isSome = true := by
      rw [not_and_or, not_not, Bool.not_eq_true, Option.isNone_eq_false_iff] at hbad
      exact hbad
    have hpasses : (newRule lib command cwd).id ∉ seen ∧ (cwd = [] ∨ (lib.compile cwd).isSome = true) ∧
        ruleMatchesHardBlock (fun s => decide (s = command)) = false :=
      ⟨hseen, hgood, Bool.not_eq_true _ ▸ hblock⟩
    rw [if_neg hbad, if_pos hpasses]
    rfl

theorem applies_compiledNew (h : cwd = [] ∨ (lib.compile cwd).isSome = true) :
    (compiledNew lib command cwd).applies c d = true ↔ c = command ∧ matchesDir lib cwd d = true := by
  simp only [compiledNew, CompiledRule.applies, matchesDir, Bool.and_eq_true, decide_eq_true_eq]
  by_cases hcwd : cwd = []
  · simp [hcwd]
  · obtain ⟨re, hre⟩ := Option.isSome_iff_exists.mp (h.resolve_left hcwd)
    simp [hcwd, hre]

section Added

variable (hquote : ∀ s, lib.compile ('^' :: quoteMeta s ++ ['$']) = some fun t => decide (t = s))
  (hyaml : ∀ f, lib.unmarshal (lib.marshal f) = .ok f)
  (h : addRule lib data command cwd = .ok (rule, data'))

include hquote hyaml h

theorem rules_load_addRule : (load lib data').rules =
    (load lib data).rules ++
      if takesEffect lib data (trimSpace command) cwd then [compiledNew lib (trimSpace command) cwd]
      else [] := by
  obtain ⟨-, -, ⟨⟨e, he, heq⟩, rfl⟩ | ⟨hnone, hrules⟩⟩ := addRule_cases hyaml h
  · have hold : ¬ takesEffect lib data' (trimSpace command) cwd := fun ht => (ht.1 e he).1 heq
    rw [if_neg hold, List.append_nil]
  · rw [rules_load, rules_load, hrules, rules_loadRules_concat, loadRule_newRule (hquote _)]
    have hseen : (newRule lib (trimSpace command) cwd).id ∉ (fileRules lib data).foldl see [] ↔
        ∀ e ∈ fileRules lib data, e.id ≠ (newRule lib (trimSpace command) cwd).id := by
      rw [mem_foldl_see]
      simp only [List.not_mem_nil, false_or, not_and, not_exists]
      constructor
      · exact fun hall e he heq => hall newRule_id_ne_nil e he heq.symm
      · exact fun hall _ e he heq => hall e he heq.symm
    have heffect : takesEffect lib data (trimSpace command) cwd ↔
        (newRule lib (trimSpace command) cwd).id ∉ (fileRules lib data).foldl see [] ∧
          (cwd = [] ∨ (lib.compile cwd).isSome = true) ∧
            ruleMatchesHardBlock (fun s => decide (s = trimSpace command)) = false := by
      rw [hseen, takesEffect]
      exact and_congr_left fun _ => ⟨fun hall e he => (hall e he).2, fun hall e he => ⟨hnone e he, hall e he⟩⟩
    simp only [heffect]
    split_ifs <;> rfl

/-- The new rule is for its command in all directories that match its own. -/
theorem evaluate_addRule :
    ((load lib data').evaluate lib c d risk).allowed = true ↔
      ((load lib data).evaluate lib c d risk).allowed = true ∨
        (takesEffect lib data (trimSpace command) cwd ∧ risk = .low ∧ trimSpace c = trimSpace command ∧
          matchesDir lib cwd d = true) := by
  obtain ⟨hne, hblock, -⟩ := addRule_cases hyaml h
  rw [evaluate_allowed, evaluate_allowed, rules_load_addRule hquote hyaml h]
  by_cases ht : takesEffect lib data (trimSpace command) cwd
  · simp only [if_pos ht, List.mem_append, List.mem_singleton, or_and_right, exists_or, exists_eq_left,
      applies_compiledNew ht.2.1, and_or_left]
    refine or_congr_right ⟨?_, ?_⟩
    · rintro ⟨-, -, hrisk, hc, hd⟩
      exact ⟨ht, hrisk, hc, hd⟩
    · rintro ⟨-, hrisk, hc, hd⟩
      rw [hc]
      exact ⟨hne, hblock, hrisk, rfl, hd⟩
  · rw [if_neg ht, List.append_nil]
    simp only [ht, false_and, or_false]

end Added

/-! ### Plain expressions -/

/-- The text of an expression of plain and escaped characters, and whether a `$` ends it. -/
def literals : List Char → Option (List Char × Bool)
  | [] => some ([], false)
  | ['$'] => some ([], true)
  | '\\' :: c :: re =>
    if quoteMeta [c] = ['\\', c] then (literals re).map (Prod.map (c :: ·) id) else none
  | c :: re => if quoteMeta [c] = [c] then (literals re).map (Prod.map (c :: ·) id) else none

/-- `regexp.Compile` on such expressions, behind a `^` or not. -/
def literalCompile : List Char → Option Matcher
  | '^' :: re => (literals re).map fun l s => if l.2 then s = l.1 else hasPrefix s l.1
  | re => (literals re).map fun l s => if l.2 then hasSuffix s l.1 else contains s l.1

/-- Policy files as they are, and the hash for `ls` in `/home/x`. -/
def literalLibrary : Library File where
  compile := literalCompile
  quote s := "\"" ++ String.ofList s ++ "\""
  sha256Hex _ := "6f0a9a89f9ee49567ed10c744f038858f74273f44b0118944eacf2f01c8dc346".toList
  unmarshal f := .ok f
  marshal f := f

theorem literals_quoteMeta (s : List Char) : literals (quoteMeta s ++ ['$']) = some (s, true) := by
  induction s with
  | nil => rfl
  | cons c s ih =>
    by_cases hc : c ∈ r"\.+*?()|[]{}^$".toList
    · have hone : quoteMeta [c] = ['\\', c] := by rw [quoteMeta, List.flatMap_singleton, if_pos hc]
      have hcons : quoteMeta (c :: s) = '\\' :: c :: quoteMeta s := by
        rw [quoteMeta, List.flatMap_cons, if_pos hc]
        rfl
      rw [hcons, List.cons_append, List.cons_append, literals, if_pos hone, ih]
      rfl
    · have hone : quoteMeta [c] = [c] := by rw [quoteMeta, List.flatMap_singleton, if_neg hc]
      have hcons : quoteMeta (c :: s) = c :: quoteMeta s := by
        rw [quoteMeta, List.flatMap_cons, if_neg hc]
        rfl
      rw [hcons, List.cons_append, literals, if_pos hone, ih]
      · rfl
      · simp
      · rintro c' re rfl
        exact absurd (by decide) hc

theorem literalLibrary_quotes (s : List Char) :
    literalLibrary.compile ('^' :: quoteMeta s ++ ['$']) = some fun t => decide (t = s) := by
  simp only [literalLibrary, List.cons_append, literalCompile, literals_quoteMeta]
  rfl

/-- The dangerous patterns are not such expressions. -/
theorem matchesHardBlock_literalLibrary : matchesHardBlock literalLibrary c = false := by
  have hnone : (hardBlocks.all fun pattern => (literalCompile pattern).isNone) = true := by decide +kernel
  rw [matchesHardBlock, List.any_eq_false]
  intro pattern hp
  have hpattern : literalLibrary.compile pattern = none :=
    Option.isNone_iff_eq_none.mp (List.all_eq_true.mp hnone pattern hp)
  rw [hpattern]
  exact Bool.false_ne_true

/-! ### The approval and no other -/

/-- Adding a rule for the command in the directory allows just that: a command is compared
without white space around it, as `Evaluate` does. -/
def AuthorisesOnly (lib : Library Data) (data data' : Option Data) (command cwd : List Char) : Prop :=
  ((load lib data').evaluate lib command cwd .low).allowed = true ∧
    ∀ c d risk, ((load lib data').evaluate lib c d risk).allowed = true →
      ((load lib data).evaluate lib c d risk).allowed = false → trimSpace c = trimSpace command ∧ d = cwd

/-- The condition for it, on the file before: either the new rule has no effect, and the
command was allowed already; or its directory, as an expression, matches itself, and it
matches no other directory in which the command was not allowed already. -/
def Narrow (lib : Library Data) (data : Option Data) (command cwd : List Char) : Prop :=
  let allowed := fun d => ((load lib data).evaluate lib command d .low).allowed
  if takesEffect lib data (trimSpace command) cwd then
    (matchesDir lib cwd cwd = true ∨ allowed cwd = true) ∧
      ∀ d, matchesDir lib cwd d = true → d = cwd ∨ allowed d = true
  else allowed cwd = true

theorem evaluate_trimSpace {p : Policy} (h : trimSpace c = trimSpace command) :
    p.evaluate lib c d risk = p.evaluate lib command d risk := by
  simp only [Policy.evaluate, h]

/-- A rule added from one approval authorises only that approval exactly when its
directory, taken as an expression, matches no other directory. -/
theorem authorisesOnly_iff_narrow
    (hquote : ∀ s, lib.compile ('^' :: quoteMeta s ++ ['$']) = some fun t => decide (t = s))
    (hyaml : ∀ f, lib.unmarshal (lib.marshal f) = .ok f)
    (h : addRule lib data command cwd = .ok (rule, data')) :
    AuthorisesOnly lib data data' command cwd ↔ Narrow lib data command cwd := by
  unfold AuthorisesOnly Narrow
  simp only [evaluate_addRule hquote hyaml h, true_and]
  split_ifs with ht
  · simp only [ht, true_and]
    refine and_congr or_comm ⟨fun hnew d hd => ?_, fun hdirs c d risk hafter hbefore => ?_⟩
    · by_cases hallowed : ((load lib data).evaluate lib command d .low).allowed = true
      · exact .inr hallowed
      · exact .inl (hnew command d .low (.inr ⟨rfl, rfl, hd⟩) (Bool.not_eq_true _ ▸ hallowed)).2
    · rw [hbefore] at hafter
      obtain ⟨rfl, hc, hd⟩ := hafter.resolve_left Bool.false_ne_true
      refine ⟨hc, (hdirs d hd).resolve_right ?_⟩
      rw [← evaluate_trimSpace hc, hbefore]
      exact Bool.false_ne_true
  · simp only [ht, false_and, or_false, and_iff_left_iff_imp]
    intro _ c d risk hafter hbefore
    rw [hafter] at hbefore
    cases hbefore

/-- The rule for `ls` in `/home/x`, and the file with it alone. -/
def lsRule : Rule := newRule literalLibrary "ls".toList "/home/x".toList

def lsFile : File := ⟨1, [lsRule]⟩

theorem takesEffect_ls : takesEffect literalLibrary none (trimSpace "ls".toList) "/home/x".toList := by
  refine ⟨fun e he => ?_, .inr (by decide), by decide⟩
  cases he

theorem addRule_ls :
    addRule literalLibrary none "ls".toList "/home/x".toList = .ok (lsRule, some lsFile) := by
  rw [addRule, matchesHardBlock_literalLibrary]
  rfl

/-- The rule is for every path with that of the directory in it. -/
theorem evaluate_lsFile {d : List Char} (hd : matchesDir literalLibrary "/home/x".toList d = true) :
    ((load literalLibrary (some lsFile)).evaluate literalLibrary "ls".toList d .low).allowed = true :=
  (evaluate_addRule literalLibrary_quotes (fun _ => rfl) addRule_ls).mpr (.inr ⟨takesEffect_ls, rfl, rfl, hd⟩)

/-- Adding the rule a second time changes nothing. -/
theorem ls_again_authorisesOnly :
    addRule literalLibrary (some lsFile) "ls".toList "/home/x".toList = .ok (lsRule, some lsFile) ∧
      AuthorisesOnly literalLibrary (some lsFile) (some lsFile) "ls".toList "/home/x".toList := by
  have h : addRule literalLibrary (some lsFile) "ls".toList "/home/x".toList = .ok (lsRule, some lsFile) := by
    rw [addRule, matchesHardBlock_literalLibrary]
    rfl
  refine ⟨h, (authorisesOnly_iff_narrow literalLibrary_quotes (fun _ => rfl) h).mpr ?_⟩
  have hno : ¬ takesEffect literalLibrary (some lsFile) (trimSpace "ls".toList) "/home/x".toList := fun ht =>
    (ht.1 lsRule List.mem_cons_self).1 ⟨rfl, rfl⟩
  rw [Narrow, if_neg hno]
  exact evaluate_lsFile (by decide)

/-- The rule for `ls` in `/home/x` allows it in `/home/xy` too. -/
theorem ls_in_longer_path :
    addRule literalLibrary none "ls".toList "/home/x".toList = .ok (lsRule, some lsFile) ∧
      ¬ AuthorisesOnly literalLibrary none (some lsFile) "ls".toList "/home/x".toList := by
  refine ⟨addRule_ls, fun h => ?_⟩
  have hbefore : ((load literalLibrary none).evaluate literalLibrary "ls".toList "/home/xy".toList
      .low).allowed = false := by
    rw [Bool.eq_false_iff, Ne, evaluate_allowed]
    rintro ⟨-, -, -, r, hr, -⟩
    cases hr
  have hdir := (h.2 "ls".toList "/home/xy".toList .low (evaluate_lsFile (by decide)) hbefore).2
  exact absurd hdir (by decide)

end ManyAiCli.AutoApproval
