import Mathlib.Logic.Function.Basic
import ManyAiCli.Text.Json

/-! The directory of approval patterns (`approval_patterns.go`): for each provider an official
profile, a custom one, and `<provider>.json`, which is what an old version left there and also where
the active profile is mirrored to. A first sync settles the directory when nothing it writes there
is taken for a user's file by the next one. -/

namespace ManyAiCli.Hub.ApprovalPatterns

open ManyAiCli.Text

abbrev Text := List Char

/-- `[]string`. -/
abbrev Patterns := List Text

/-! ### Providers and profiles -/

def defaultTexts : List (String × List String) :=
  [("claude", ["do you want to", "esc to cancel", "press enter to confirm or esc to go back"]),
   ("codex", ["approve?", "continue?", "proceed?", "requires approval", "do you want to proceed?",
      "would you like to run the following command", "would you like to run", "permission"]),
   ("copilot", ["permission required", "permissions required", "requires permission", "requires confirmation",
      "prompts for user confirmation", "allow all similar", "deny all similar"]),
   ("cursor-agent", ["run this command?", "not in allowlist", "allowlist", "auto-run everything",
      "skip (esc or n)", "permission required", "requires permission", "requires confirmation"]),
   ("opencode", ["permission required", "allow once", "allow always", "reject"]),
   ("grok", ["do you want to", "esc to cancel", "press enter to confirm", "allow this command",
      "permission required", "approve?", "proceed?"]),
   ("common", ["would you like to", "この操作を許可", "続行しますか", "承認しますか", "実行しますか"])]

/-- What the map has for a provider; nothing for one it does not know. -/
def defaultApprovalPatterns (provider : String) : Patterns :=
  ((defaultTexts.lookup provider).getD []).map String.toList

def knownApprovalProviders : List String :=
  ["claude", "codex", "copilot", "cursor-agent", "opencode", "grok", "common"]

def isKnownApprovalProvider (provider : String) : Bool := (defaultTexts.lookup provider).isSome

/-- A name out of a config file: any text. -/
abbrev ApprovalProfileName := String

def approvalProfileOfficial : ApprovalProfileName := "official"

def approvalProfileCustom : ApprovalProfileName := "custom"

def isValidApprovalProfile (profile : ApprovalProfileName) : Bool :=
  profile = approvalProfileOfficial || profile = approvalProfileCustom

structure ApprovalProfiles where
  claude : ApprovalProfileName
  codex : ApprovalProfileName
  copilot : ApprovalProfileName
  cursorAgent : ApprovalProfileName
  opencode : ApprovalProfileName
  grok : ApprovalProfileName
  common : ApprovalProfileName

def officialIfEmpty (name : ApprovalProfileName) : ApprovalProfileName :=
  if name = "" then approvalProfileOfficial else name

def effectiveApprovalProfiles (p : ApprovalProfiles) : ApprovalProfiles :=
  { claude := officialIfEmpty p.claude
    codex := officialIfEmpty p.codex
    copilot := officialIfEmpty p.copilot
    cursorAgent := officialIfEmpty p.cursorAgent
    opencode := officialIfEmpty p.opencode
    grok := officialIfEmpty p.grok
    common := officialIfEmpty p.common }

/-- `For`. -/
def ApprovalProfiles.forProvider (p : ApprovalProfiles) (provider : String) : ApprovalProfileName :=
  if provider = "claude" then officialIfEmpty p.claude
  else if provider = "codex" then officialIfEmpty p.codex
  else if provider = "copilot" then officialIfEmpty p.copilot
  else if provider = "cursor-agent" then officialIfEmpty p.cursorAgent
  else if provider = "opencode" then officialIfEmpty p.opencode
  else if provider = "grok" then officialIfEmpty p.grok
  else if provider = "common" then officialIfEmpty p.common
  else approvalProfileOfficial

def ApprovalProfiles.withProvider (p : ApprovalProfiles) (provider : String) (name : ApprovalProfileName) :
    ApprovalProfiles :=
  if provider = "claude" then { p with claude := name }
  else if provider = "codex" then { p with codex := name }
  else if provider = "copilot" then { p with copilot := name }
  else if provider = "cursor-agent" then { p with cursorAgent := name }
  else if provider = "opencode" then { p with opencode := name }
  else if provider = "grok" then { p with grok := name }
  else if provider = "common" then { p with common := name }
  else p

/-! ### Files -/

/-- A provider's files: `<provider>.json`, `<provider>.official.json` and `<provider>.custom.json`. -/
structure Files where
  legacy : Option Text
  official : Option Text
  custom : Option Text

/-- The directory. No two names of files are the same for two providers. -/
abbrev Dir := String → Files

inductive PatternError
  | unknownProvider (provider : String)
  | parse (provider : String) (profile : ApprovalProfileName)
deriving DecidableEq

/-- The file of `approvalProfilePath`. -/
def Files.profile (f : Files) (profile : ApprovalProfileName) : Option Text :=
  if profile = approvalProfileCustom then f.custom else f.official

/-- The content of a pattern file; an empty one has no patterns. -/
def readText (data : Text) : Option Patterns := if data = [] then some [] else Json.unmarshalTexts data

def Files.read (f : Files) (provider : String) (profile : ApprovalProfileName) : Except PatternError Patterns :=
  match f.profile profile with
  | none => .ok (if profile = approvalProfileOfficial then defaultApprovalPatterns provider else [])
  | some data =>
    match readText data with
    | none => .error (.parse provider profile)
    | some list => .ok list

def readApprovalPatternsByProfile (d : Dir) (provider : String) (profile : ApprovalProfileName) :
    Except PatternError Patterns :=
  if isKnownApprovalProvider provider then (d provider).read provider profile
  else .error (.unknownProvider provider)

/-- What `writePatternFile` writes. -/
def patternFile (patterns : Patterns) : Text := Json.marshalTexts patterns ++ ['\n']

def writeActiveMirror (provider : String) (profile : ApprovalProfileName) (f : Files) :
    Files × Option PatternError :=
  match f.read provider profile with
  | .error e => (f, some e)
  | .ok patterns => ({ f with legacy := some (patternFile patterns) }, none)

/-- A provider's turn in `SyncApprovalPatterns`. -/
def syncProvider (provider : String) (profile : ApprovalProfileName) (f : Files) :
    Files × Option PatternError :=
  let officialExists := f.official.isSome
  let f := if f.legacy.isSome && f.custom.isNone then { f with legacy := none, custom := f.legacy } else f
  let f := if f.legacy.isSome && f.custom.isSome then { f with legacy := none } else f
  let f :=
    if officialExists then f
    else { f with official := some (patternFile (defaultApprovalPatterns provider)) }
  writeActiveMirror provider profile f

/-- The loop over providers, left at the first error. -/
def forProviders (turn : String → Files → Files × Option PatternError) :
    List String → Dir → Dir × Option PatternError
  | [], d => (d, none)
  | p :: ps, d =>
    match turn p (d p) with
    | (f, some e) => (Function.update d p f, some e)
    | (f, none) => forProviders turn ps (Function.update d p f)

def syncApprovalPatterns (profiles : ApprovalProfiles) (d : Dir) : Dir × Option PatternError :=
  forProviders (fun p => syncProvider p ((effectiveApprovalProfiles profiles).forProvider p))
    knownApprovalProviders d

def refreshActiveMirrors (profiles : ApprovalProfiles) (d : Dir) : Dir × Option PatternError :=
  forProviders (fun p => writeActiveMirror p ((effectiveApprovalProfiles profiles).forProvider p))
    knownApprovalProviders d

structure State where
  profiles : ApprovalProfiles
  dir : Dir

inductive Op
  | sync
  | refresh
  /-- The request that switches a provider's profile. -/
  | switch (provider : String) (profile : ApprovalProfileName)

/-- An error is logged, what was done before it stays. -/
def State.step (s : State) : Op → State
  | .sync => { s with dir := (syncApprovalPatterns s.profiles s.dir).1 }
  | .refresh => { s with dir := (refreshActiveMirrors s.profiles s.dir).1 }
  | .switch provider profile =>
    if isKnownApprovalProvider provider && isValidApprovalProfile profile then
      let profiles := (effectiveApprovalProfiles s.profiles).withProvider provider profile
      { profiles, dir := (refreshActiveMirrors profiles s.dir).1 }
    else s

def State.run (s : State) (ops : List Op) : State := ops.foldl State.step s

/-! ### One provider -/

/-- The default of a profile without a file. -/
theorem Files.read_eq {f g : Files} (ho : f.official = g.official) (hc : f.custom = g.custom)
    (provider : String)
    (profile : ApprovalProfileName) : f.read provider profile = g.read provider profile := by
  simp only [Files.read, Files.profile, ho, hc]

theorem readText_patternFile (patterns : Patterns) : readText (patternFile patterns) = some patterns := by
  rw [readText, if_neg (by simp [patternFile]), patternFile, Json.unmarshalTexts_marshalTexts]

theorem Files.read_of_file {f : Files} {profile : ApprovalProfileName} {patterns : Patterns} (provider : String)
    (h : f.profile profile = some (patternFile patterns)) : f.read provider profile = .ok patterns := by
  simp only [Files.read, h, readText_patternFile]

theorem writeActiveMirror_official (provider : String) (profile : ApprovalProfileName) (f : Files) :
    (writeActiveMirror provider profile f).1.official = f.official := by
  rw [writeActiveMirror]
  split <;> rfl

theorem writeActiveMirror_custom (provider : String) (profile : ApprovalProfileName) (f : Files) :
    (writeActiveMirror provider profile f).1.custom = f.custom := by
  rw [writeActiveMirror]
  split <;> rfl

/-- Either nothing is written and there is an error, or what was read is. -/
theorem writeActiveMirror_cases (provider : String) (profile : ApprovalProfileName) (f : Files) :
    (∃ e, f.read provider profile = .error e ∧ writeActiveMirror provider profile f = (f, some e)) ∨
      ∃ patterns, f.read provider profile = .ok patterns ∧
        writeActiveMirror provider profile f = ({ f with legacy := some (patternFile patterns) }, none) := by
  cases h : f.read provider profile with
  | error e => exact .inl ⟨e, rfl, by rw [writeActiveMirror, h]⟩
  | ok patterns => exact .inr ⟨patterns, rfl, by rw [writeActiveMirror, h]⟩

/-- The official profile of a sync. -/
def officialOrDefault (provider : String) (f : Files) : Text :=
  f.official.getD (patternFile (defaultApprovalPatterns provider))

/-- The files before the mirror is written. -/
def migrated (provider : String) (f : Files) : Files :=
  { legacy := none, official := some (officialOrDefault provider f), custom := f.custom.or f.legacy }

/-- What was left by an old version is the custom profile unless there is one, and it is gone. -/
theorem syncProvider_eq (provider : String) (profile : ApprovalProfileName) (f : Files) :
    syncProvider provider profile f = writeActiveMirror provider profile (migrated provider f) := by
  rcases f with ⟨_ | legacy, _ | official, _ | custom⟩ <;> rfl

theorem syncProvider_official (provider : String) (profile : ApprovalProfileName) (f : Files) :
    (syncProvider provider profile f).1.official = some (officialOrDefault provider f) := by
  rw [syncProvider_eq, writeActiveMirror_official]
  rfl

theorem syncProvider_custom (provider : String) (profile : ApprovalProfileName) (f : Files) :
    (syncProvider provider profile f).1.custom = f.custom.or f.legacy := by
  rw [syncProvider_eq, writeActiveMirror_custom]
  rfl

/-- A missing official file reads as what a sync writes there. -/
theorem read_official_migrated (provider : String) (f : Files) :
    (migrated provider f).read provider approvalProfileOfficial = f.read provider approvalProfileOfficial := by
  have hne : approvalProfileOfficial ≠ approvalProfileCustom := by decide
  cases h : f.official with
  | none => simp [Files.read, Files.profile, hne, migrated, officialOrDefault, h, readText_patternFile]
  | some data => simp [Files.read, Files.profile, hne, migrated, officialOrDefault, h]

/-! ### All providers -/

variable {turn : String → Files → Files × Option PatternError} {ps : List String} {q : String}

theorem forProviders_cons_ok {p : String} {d : Dir} (h : (turn p (d p)).2 = none) :
    forProviders turn (p :: ps) d = forProviders turn ps (Function.update d p (turn p (d p)).1) := by
  rw [forProviders]
  split
  · rename_i heq
    exact absurd (heq ▸ h) (Option.some_ne_none _)
  · rename_i heq
    rw [heq]

theorem forProviders_cons_error {p : String} {d : Dir} {e : PatternError} (h : (turn p (d p)).2 = some e) :
    forProviders turn (p :: ps) d = (Function.update d p (turn p (d p)).1, some e) := by
  rw [forProviders]
  split
  · rename_i heq
    rw [heq] at h ⊢
    rw [← h]
  · rename_i heq
    exact absurd (heq ▸ h).symm (Option.some_ne_none _)

theorem forProviders_of_not_mem (hq : q ∉ ps) (d : Dir) : (forProviders turn ps d).1 q = d q := by
  induction ps generalizing d with
  | nil => rfl
  | cons p ps ih =>
    obtain ⟨hne, hq⟩ := List.ne_and_not_mem_of_not_mem_cons hq
    cases h : (turn p (d p)).2 with
    | none => rw [forProviders_cons_ok h, ih hq, Function.update_of_ne hne]
    | some e => rw [forProviders_cons_error h]; exact Function.update_of_ne hne ..

/-- A provider has its turn once at most. -/
theorem forProviders_cases (hps : ps.Nodup) (d : Dir) :
    (forProviders turn ps d).1 q = d q ∨ (forProviders turn ps d).1 q = (turn q (d q)).1 := by
  induction ps generalizing d with
  | nil => exact .inl rfl
  | cons p ps ih =>
    obtain ⟨hp, hps⟩ := List.nodup_cons.1 hps
    by_cases hq : q = p
    · subst hq
      right
      cases h : (turn q (d q)).2 with
      | none => rw [forProviders_cons_ok h, forProviders_of_not_mem hp, Function.update_self]
      | some e => rw [forProviders_cons_error h]; exact Function.update_self ..
    · cases h : (turn p (d p)).2 with
      | none =>
        have hRest := ih hps (Function.update d p (turn p (d p)).1)
        rwa [Function.update_of_ne hq, ← forProviders_cons_ok h] at hRest
      | some e =>
        left
        rw [forProviders_cons_error h]
        exact Function.update_of_ne hq ..

/-- Without an error each provider has had its turn. -/
theorem forProviders_ok_iff (hps : ps.Nodup) (d : Dir) :
    (forProviders turn ps d).2 = none ↔ ∀ p ∈ ps, (turn p (d p)).2 = none := by
  induction ps generalizing d with
  | nil => simp [forProviders]
  | cons p ps ih =>
    obtain ⟨hp, hps⟩ := List.nodup_cons.1 hps
    have hOthers : ∀ f, ∀ q ∈ ps, Function.update d p f q = d q := fun f q hq =>
      Function.update_of_ne (ne_of_mem_of_not_mem hq hp) ..
    cases h : (turn p (d p)).2 with
    | none =>
      rw [forProviders_cons_ok h, ih hps, List.forall_mem_cons]
      simp only [h, true_and]
      exact forall₂_congr fun q hq => by rw [hOthers _ q hq]
    | some e => simp [forProviders_cons_error h, h]

theorem forProviders_of_ok (hps : ps.Nodup) {d : Dir} (h : (forProviders turn ps d).2 = none) (hq : q ∈ ps) :
    (forProviders turn ps d).1 q = (turn q (d q)).1 := by
  induction ps generalizing d with
  | nil => exact absurd hq List.not_mem_nil
  | cons p ps ih =>
    have hTurn := (forProviders_ok_iff hps d).1 h p List.mem_cons_self
    obtain ⟨hp, hps⟩ := List.nodup_cons.1 hps
    rw [forProviders_cons_ok hTurn] at h ⊢
    rcases List.mem_cons.1 hq with rfl | hq
    · rw [forProviders_of_not_mem hp, Function.update_self]
    · rw [ih hps h hq, Function.update_of_ne (ne_of_mem_of_not_mem hq hp)]

theorem nodup_knownApprovalProviders : knownApprovalProviders.Nodup := by decide

theorem mem_knownApprovalProviders {p : String} : p ∈ knownApprovalProviders ↔ 
    isKnownApprovalProvider p = true := by
  have hNames : knownApprovalProviders = defaultTexts.map Prod.fst := rfl
  rw [hNames, isKnownApprovalProvider, List.lookup_isSome_iff, List.mem_map]
  exact exists_congr fun a => and_congr_right fun _ => by rw [beq_iff_eq, eq_comm]

theorem forProvider_effective (p : ApprovalProfiles) (q : String) :
    (effectiveApprovalProfiles p).forProvider q = p.forProvider q := by
  have hTwice (name : ApprovalProfileName) : officialIfEmpty (officialIfEmpty name) = officialIfEmpty name := by
    unfold officialIfEmpty
    split_ifs <;> rfl
  simp only [ApprovalProfiles.forProvider, effectiveApprovalProfiles, hTwice]

theorem forProvider_withProvider_self (p : ApprovalProfiles) {q : String} (hq : q ∈ knownApprovalProviders)
    (name : ApprovalProfileName) : (p.withProvider q name).forProvider q = officialIfEmpty name := by
  simp only [knownApprovalProviders, List.mem_cons, List.not_mem_nil, or_false] at hq
  rcases hq with rfl | rfl | rfl | rfl | rfl | rfl | rfl <;> rfl

theorem forProvider_withProvider_of_ne (p : ApprovalProfiles) {q r : String} (hne : r ≠ q)
    (name : ApprovalProfileName) :
    (p.withProvider q name).forProvider r = p.forProvider r := by
  unfold ApprovalProfiles.withProvider
  split_ifs with h h h h h h h <;> first | rfl |
    (subst h; simp only [ApprovalProfiles.forProvider, hne, if_false])

/-! ### What later runs keep -/

/-- A provider's files when no later run changes what its profiles read: `g` is what the first sync
made of them. -/
structure Settled (provider : String) (g f : Files) : Prop where
  official : f.official = g.official
  written : g.official ≠ none
  kept : ∀ t, g.custom = some t → f.custom = some t
  /-- Neither file can be taken for a custom profile that reads as anything but an empty one. -/
  empty : g.custom = none → ∀ t, f.legacy = some t ∨ f.custom = some t → readText t = some []
  /-- Nor can what the official profile puts in the mirror. -/
  noOfficial : g.custom = none → ∀ x xs, g.read provider approvalProfileOfficial ≠ .ok (x :: xs)

variable {provider : String} {profile : ApprovalProfileName} {f g : Files}

theorem Settled.read_official (h : Settled provider g f) :
    f.read provider approvalProfileOfficial = g.read provider approvalProfileOfficial := by
  have hne : approvalProfileOfficial ≠ approvalProfileCustom := by decide
  simp only [Files.read, Files.profile, if_neg hne, h.official]

theorem Settled.read_custom (h : Settled provider g f) :
    f.read provider approvalProfileCustom = g.read provider approvalProfileCustom := by
  have hne : approvalProfileCustom ≠ approvalProfileOfficial := by decide
  cases hg : g.custom with
  | some t => simp only [Files.read, Files.profile, if_pos, hg, h.kept t hg]
  | none =>
    cases hf : f.custom with
    | none => simp only [Files.read, Files.profile, if_pos, hf, hg]
    | some t => simp only [Files.read, Files.profile, if_pos, hf, hg, h.empty hg t (.inr hf), if_neg hne]

/-- Any name but the custom profile's is of the official file. -/
theorem read_ok_of_ne {data : Text} {patterns : Patterns} (h : f.official = some data)
    (hne : profile ≠ approvalProfileCustom) (hRead : f.read provider profile = .ok patterns) :
    f.read provider approvalProfileOfficial = .ok patterns := by
  have hne' : approvalProfileOfficial ≠ approvalProfileCustom := by decide
  simp only [Files.read, Files.profile, if_neg hne, if_neg hne', h] at hRead ⊢
  cases hData : readText data with
  | none => simp [hData] at hRead
  | some list => simpa [hData] using hRead

/-- Without a custom profile the mirror is empty. -/
theorem Settled.mirrored_empty (h : Settled provider g f) (hg : g.custom = none) {patterns : Patterns}
    (hRead : f.read provider profile = .ok patterns) : patterns = [] := by
  by_cases hc : profile = approvalProfileCustom
  · subst hc
    rw [h.read_custom] at hRead
    have hne : approvalProfileCustom ≠ approvalProfileOfficial := by decide
    simpa [Files.read, Files.profile, hg, hne] using hRead.symm
  · obtain ⟨data, hData⟩ := Option.ne_none_iff_exists'.1 h.written
    have hOfficial := read_ok_of_ne (h.official.trans hData) hc hRead
    rw [h.read_official] at hOfficial
    cases patterns with
    | nil => rfl
    | cons x xs => exact absurd hOfficial (h.noOfficial hg x xs)

theorem Settled.writeActiveMirror (h : Settled provider g f) (profile : ApprovalProfileName) :
    Settled provider g (writeActiveMirror provider profile f).1 := by
  obtain ⟨e, -, heq⟩ | ⟨patterns, hRead, heq⟩ := writeActiveMirror_cases provider profile f
  · rwa [heq]
  · rw [heq]
    refine ⟨h.official, h.written, h.kept, fun hg t ht => ?_, h.noOfficial⟩
    rcases ht with ht | ht
    · rw [← Option.some.inj ht, readText_patternFile, h.mirrored_empty hg hRead]
    · exact h.empty hg t (.inr ht)

theorem Settled.migrated (h : Settled provider g f) : Settled provider g (migrated provider f) where
  official := by
    obtain ⟨data, hData⟩ := Option.ne_none_iff_exists'.1 h.written
    have hOfficial : f.official = some data := h.official.trans hData
    simp [ApprovalPatterns.migrated, officialOrDefault, hOfficial, hData]
  written := h.written
  kept t ht := by simp [ApprovalPatterns.migrated, h.kept t ht]
  empty hg t ht := by
    rcases ht with ht | ht
    · exact absurd ht.symm (Option.some_ne_none t)
    · rcases Option.or_eq_some_iff.1 ht with hc | ⟨-, hl⟩
      · exact h.empty hg t (.inr hc)
      · exact h.empty hg t (.inl hl)
  noOfficial := h.noOfficial

theorem Settled.syncProvider (h : Settled provider g f) (profile : ApprovalProfileName) :
    Settled provider g (syncProvider provider profile f).1 := by
  rw [syncProvider_eq]
  exact h.migrated.writeActiveMirror profile

/-- What the first sync needs to find. -/
def Unmixed (provider : String) (f : Files) : Prop :=
  f.custom ≠ none ∨ f.legacy ≠ none ∨ ∀ x xs, f.read provider approvalProfileOfficial ≠ .ok (x :: xs)

theorem settled_migrated (h : Unmixed provider f) :
    Settled provider (migrated provider f) (migrated provider f) where
  official := rfl
  written := Option.some_ne_none _
  kept _ ht := ht
  empty hg t ht := by
    rcases ht with ht | ht
    · exact absurd ht.symm (Option.some_ne_none t)
    · exact absurd (hg.symm.trans ht).symm (Option.some_ne_none t)
  noOfficial hg x xs hRead := by
    obtain ⟨hc, hl⟩ := Option.or_eq_none_iff.1 hg
    rcases h with h | h | h
    · exact h hc
    · exact h hl
    · exact h x xs ((read_official_migrated provider f).symm.trans hRead)

/-! ### Runs -/

variable {profiles : ApprovalProfiles} {d₀ d : Dir}

/-- The provider's files as the first sync leaves them, but for the mirror. -/
def AllSettled (d₀ d : Dir) : Prop := ∀ p ∈ knownApprovalProviders, Settled p (migrated p (d₀ p)) (d p)

theorem AllSettled.forProviders {turn : String → Files → Files × Option PatternError}
    (hTurn : ∀ p g f, Settled p g f → Settled p g (turn p f).1) (h : AllSettled d₀ d) :
    AllSettled d₀ (forProviders turn knownApprovalProviders d).1 := by
  intro p hp
  rcases forProviders_cases nodup_knownApprovalProviders d with heq | heq
  · rw [heq]
    exact h p hp
  · rw [heq]
    exact hTurn p _ _ (h p hp)

theorem AllSettled.refresh (h : AllSettled d₀ d) (profiles : ApprovalProfiles) :
    AllSettled d₀ (refreshActiveMirrors profiles d).1 :=
  h.forProviders fun _ _ _ hf => hf.writeActiveMirror _

theorem AllSettled.sync (h : AllSettled d₀ d) (profiles : ApprovalProfiles) :
    AllSettled d₀ (syncApprovalPatterns profiles d).1 :=
  h.forProviders fun _ _ _ hf => hf.syncProvider _

theorem AllSettled.step {s : State} (h : AllSettled d₀ s.dir) (op : Op) : AllSettled d₀ (s.step op).dir := by
  cases op with
  | sync => exact h.sync _
  | refresh => exact h.refresh _
  | switch p profile =>
    rw [State.step]
    split
    · exact h.refresh _
    · exact h

theorem AllSettled.run {s : State} (h : AllSettled d₀ s.dir) (ops : List Op) :
    AllSettled d₀ (s.run ops).dir := by
  induction ops generalizing s with
  | nil => exact h
  | cons op ops ih => exact ih (h.step op)

theorem AllSettled.read_eq (h : AllSettled d₀ d) {profile : ApprovalProfileName}
    (hValid : isValidApprovalProfile profile = true) (p : String) :
    readApprovalPatternsByProfile d p profile =
      readApprovalPatternsByProfile (fun p => migrated p (d₀ p)) p profile := by
  unfold readApprovalPatternsByProfile
  split
  · rename_i hp
    have hSettled := h p (mem_knownApprovalProviders.2 hp)
    simp only [isValidApprovalProfile, Bool.or_eq_true, decide_eq_true_eq] at hValid
    rcases hValid with rfl | rfl
    · exact hSettled.read_official
    · exact hSettled.read_custom
  · rfl

/-- A sync that returns no error gives each provider its turn. -/
theorem sync_apply (h : (syncApprovalPatterns profiles d).2 = none) {p : String}
    (hp : p ∈ knownApprovalProviders) :
    (syncApprovalPatterns profiles d).1 p = (syncProvider p (profiles.forProvider p) (d p)).1 ∧
      (syncProvider p (profiles.forProvider p) (d p)).2 = none := by
  have hTurn := (forProviders_ok_iff nodup_knownApprovalProviders d).1 h p hp
  have hApply := forProviders_of_ok nodup_knownApprovalProviders h hp
  rw [forProvider_effective] at hTurn hApply
  exact ⟨hApply, hTurn⟩

theorem allSettled_of_first (h : (syncApprovalPatterns profiles d₀).2 = none)
    (hUnmixed : ∀ p ∈ knownApprovalProviders, Unmixed p (d₀ p)) : AllSettled d₀
      (syncApprovalPatterns profiles d₀).1 := by
  intro p hp
  rw [(sync_apply h hp).1, syncProvider_eq]
  exact (settled_migrated (hUnmixed p hp)).writeActiveMirror _

/-! ### A mirror taken for a user's file -/

/-- What was mirrored without an error can be synced without one. -/
theorem syncProvider_after_mirror (hOfficial : f.official ≠ none)
    (h : (writeActiveMirror provider profile f).2 = none) :
    (syncProvider provider profile (writeActiveMirror provider profile f).1).2 = none := by
  obtain ⟨e, -, heq⟩ | ⟨patterns, hRead, heq⟩ := writeActiveMirror_cases provider profile f
  · rw [heq] at h
    exact absurd h (Option.some_ne_none e)
  · obtain ⟨data, hData⟩ := Option.ne_none_iff_exists'.1 hOfficial
    have hAgain : (migrated provider (writeActiveMirror provider profile f).1).read provider profile =
      .ok patterns := by
      rw [heq]
      by_cases hc : profile = approvalProfileCustom
      · subst hc
        cases hCustom : f.custom with
        | none => exact Files.read_of_file provider (by simp [Files.profile, migrated])
        | some t =>
          rw [← hRead]
          simp [Files.read, Files.profile, migrated, hCustom]
      · rw [← hRead]
        simp [Files.read, Files.profile, hc, migrated, officialOrDefault, hData]
    rw [syncProvider_eq, writeActiveMirror, hAgain]

theorem refresh_ok
    (h : ∀ p ∈ knownApprovalProviders, (writeActiveMirror p (profiles.forProvider p) (d p)).2 = none) :
    (refreshActiveMirrors profiles d).2 = none := by
  refine (forProviders_ok_iff nodup_knownApprovalProviders d).2 fun p hp => ?_
  rw [forProvider_effective]
  exact h p hp

theorem refresh_apply (h : (refreshActiveMirrors profiles d).2 = none) {p : String}
    (hp : p ∈ knownApprovalProviders) :
    (refreshActiveMirrors profiles d).1 p = (writeActiveMirror p (profiles.forProvider p) (d p)).1 := by
  have hApply := forProviders_of_ok nodup_knownApprovalProviders h hp
  rwa [forProvider_effective] at hApply

theorem sync_ok (h : ∀ p ∈ knownApprovalProviders, (syncProvider p (profiles.forProvider p) (d p)).2 = none) :
    (syncApprovalPatterns profiles d).2 = none := by
  refine (forProviders_ok_iff nodup_knownApprovalProviders d).2 fun p hp => ?_
  rw [forProvider_effective]
  exact h p hp

/-- Mirrors of profiles that read without an error, and then a sync: a provider without a custom
profile has the mirror for one. -/
theorem custom_of_refresh_sync (hOfficial : ∀ p ∈ knownApprovalProviders, (d p).official ≠ none)
    (h : ∀ p ∈ knownApprovalProviders, (writeActiveMirror p (profiles.forProvider p) (d p)).2 = none)
      {p : String}
    (hp : p ∈ knownApprovalProviders) {patterns : Patterns} (hCustom : (d p).custom = none)
    (hRead : (d p).read p (profiles.forProvider p) = .ok patterns) :
    ((syncApprovalPatterns profiles (refreshActiveMirrors profiles d).1).1 p).custom =
      some (patternFile patterns) := by
  have hRefresh := refresh_ok h
  have hSync : (syncApprovalPatterns profiles (refreshActiveMirrors profiles d).1).2 = none :=
    sync_ok fun q hq => by
    rw [refresh_apply hRefresh hq]
    exact syncProvider_after_mirror (hOfficial q hq) (h q hq)
  rw [(sync_apply hSync hp).1, refresh_apply hRefresh hp, syncProvider_custom, writeActiveMirror, hRead]
  simp [hCustom]

theorem writeActiveMirror_ok_iff {provider : String} {profile : ApprovalProfileName} {f : Files} :
    (writeActiveMirror provider profile f).2 = none ↔ ∃ patterns, f.read provider profile = .ok patterns := by
  obtain ⟨e, hRead, heq⟩ | ⟨patterns, hRead, heq⟩ :=
    writeActiveMirror_cases provider profile f <;> simp [hRead, heq]

/-- The profiles in use can be read after a sync without an error. -/
theorem mirror_after_sync (h : (syncApprovalPatterns profiles d₀).2 = none) {p : String}
    (hp : p ∈ knownApprovalProviders) :
    (writeActiveMirror p (profiles.forProvider p) ((syncApprovalPatterns profiles d₀).1 p)).2 = none := by
  obtain ⟨hApply, hTurn⟩ := sync_apply h hp
  rw [syncProvider_eq] at hApply hTurn
  obtain ⟨patterns, hRead⟩ := writeActiveMirror_ok_iff.1 hTurn
  rw [writeActiveMirror_ok_iff, hApply]
  refine ⟨patterns, Eq.trans ?_ hRead⟩
  exact Files.read_eq (writeActiveMirror_official ..) (writeActiveMirror_custom ..) ..

/-- A switch to the official profile, and the next sync takes its mirror for the user's own. -/
theorem custom_of_switch_sync (h : (syncApprovalPatterns profiles d₀).2 = none) {p : String}
    (hp : p ∈ knownApprovalProviders) {x : Text} {xs : Patterns} (hCustom : (d₀ p).custom = none)
    (hLegacy : (d₀ p).legacy = none) (hRead : (d₀ p).read p approvalProfileOfficial = .ok (x :: xs)) :
    readApprovalPatternsByProfile
      ((State.mk profiles (syncApprovalPatterns profiles d₀).1).run
        [.switch p approvalProfileOfficial, .sync]).dir p
      approvalProfileCustom = .ok (x :: xs) := by
  have hKnown := mem_knownApprovalProviders.1 hp
  have hValid : isValidApprovalProfile approvalProfileOfficial = true := by decide
  set d₁ := (syncApprovalPatterns profiles d₀).1 with hd₁
  set switched := (effectiveApprovalProfiles profiles).withProvider p approvalProfileOfficial with hSwitched
  have hSelf : switched.forProvider p = approvalProfileOfficial :=
    forProvider_withProvider_self (effectiveApprovalProfiles profiles) hp _
  have hFirst : d₁ p = (writeActiveMirror p (profiles.forProvider p) (migrated p (d₀ p))).1 := by
    rw [hd₁, (sync_apply h hp).1, syncProvider_eq]
  have hOfficial (q : String) (hq : q ∈ knownApprovalProviders) : (d₁ q).official ≠ none := by
    rw [hd₁, (sync_apply h hq).1, syncProvider_official]
    exact Option.some_ne_none _
  have hRead₁ : (d₁ p).read p (switched.forProvider p) = .ok (x :: xs) := by
    rw [hSelf, hFirst, Files.read_eq (writeActiveMirror_official ..) (writeActiveMirror_custom ..),
      read_official_migrated,
      hRead]
  have hMirrors (q : String) (hq : q ∈ knownApprovalProviders) :
      (writeActiveMirror q (switched.forProvider q) (d₁ q)).2 = none := by
    by_cases hpq : q = p
    · subst hpq
      exact writeActiveMirror_ok_iff.2 ⟨_, hRead₁⟩
    · rw [hSwitched, forProvider_withProvider_of_ne _ hpq, forProvider_effective]
      exact mirror_after_sync h hq
  have hNone : (d₁ p).custom = none := by
    rw [hFirst, writeActiveMirror_custom, migrated, hCustom, hLegacy]
    rfl
  have hRun : ((State.mk profiles d₁).run [.switch p approvalProfileOfficial, .sync]).dir =
      (syncApprovalPatterns switched (refreshActiveMirrors switched d₁).1).1 := by
    simp [State.run, State.step, hKnown, hValid, hSwitched]
  rw [hRun, readApprovalPatternsByProfile, if_pos hKnown]
  exact Files.read_of_file p (custom_of_refresh_sync hOfficial hMirrors hp hNone hRead₁)

/-- `DefaultApprovalProfiles`. -/
def defaultApprovalProfiles : ApprovalProfiles :=
  ⟨approvalProfileOfficial, approvalProfileOfficial, approvalProfileOfficial, approvalProfileOfficial,
    approvalProfileOfficial, approvalProfileOfficial, approvalProfileOfficial⟩

theorem forProvider_default (p : String) : defaultApprovalProfiles.forProvider p = approvalProfileOfficial := by
  unfold ApprovalProfiles.forProvider
  split_ifs <;> rfl

/-- Nothing stops a sync that finds no official file. -/
theorem sync_default_ok (h : ∀ p ∈ knownApprovalProviders, (d p).official = none) :
    (syncApprovalPatterns defaultApprovalProfiles d).2 = none := by
  refine sync_ok fun p hp => ?_
  have hne : approvalProfileOfficial ≠ approvalProfileCustom := by decide
  rw [forProvider_default, syncProvider_eq, writeActiveMirror_ok_iff, read_official_migrated]
  exact ⟨defaultApprovalPatterns p, by simp [Files.read, Files.profile, hne, h p hp]⟩

/-- The second sync takes the mirror of the first one for the user's own patterns. -/
theorem custom_of_second_sync (h : (syncApprovalPatterns profiles d₀).2 = none) {p : String}
    (hp : p ∈ knownApprovalProviders) (hCustom : (d₀ p).custom = none) (hLegacy : (d₀ p).legacy = none)
    {patterns : Patterns} (hRead : (migrated p (d₀ p)).read p (profiles.forProvider p) = .ok patterns) :
    readApprovalPatternsByProfile ((State.mk profiles (syncApprovalPatterns profiles d₀).1).run [.sync]).dir p
      approvalProfileCustom = .ok patterns := by
  have hFirst {q : String} (hq : q ∈ knownApprovalProviders) :
      (syncApprovalPatterns profiles d₀).1 q =
        (writeActiveMirror q (profiles.forProvider q) (migrated q (d₀ q))).1 ∧
        (writeActiveMirror q (profiles.forProvider q) (migrated q (d₀ q))).2 = none := by
    rw [(sync_apply h hq).1, ← syncProvider_eq]
    exact ⟨rfl, (sync_apply h hq).2⟩
  have hSecond : (syncApprovalPatterns profiles (syncApprovalPatterns profiles d₀).1).2 = none :=
    sync_ok fun q hq => by
    rw [(hFirst hq).1]
    exact syncProvider_after_mirror (Option.some_ne_none _) (hFirst hq).2
  have hRun : ((State.mk profiles (syncApprovalPatterns profiles d₀).1).run [.sync]).dir =
      (syncApprovalPatterns profiles (syncApprovalPatterns profiles d₀).1).1 := rfl
  rw [hRun, readApprovalPatternsByProfile, if_pos (mem_knownApprovalProviders.1 hp)]
  refine Files.read_of_file p ?_
  rw [Files.profile, if_pos rfl, (sync_apply hSecond hp).1, syncProvider_custom, (hFirst hp).1,
    writeActiveMirror, hRead]
  simp [migrated, hCustom, hLegacy]

/-! ### What is kept -/

/-- Whether all later runs leave what the profiles read, and what an old version left as the custom
profile. -/
def KeptForever (profiles : ApprovalProfiles) (d₀ : Dir) : Prop :=
  ∀ ops : List Op,
    (∀ provider profile, isValidApprovalProfile profile = true →
      readApprovalPatternsByProfile
        ((State.mk profiles (syncApprovalPatterns profiles d₀).1).run ops).dir provider profile =
        readApprovalPatternsByProfile (syncApprovalPatterns profiles d₀).1 provider profile) ∧
    ∀ provider ∈ knownApprovalProviders, ∀ t, (d₀ provider).legacy = some t → (d₀ provider).custom = none →
      (((State.mk profiles (syncApprovalPatterns profiles d₀).1).run ops).dir provider).custom = some t

/-- After a sync without an error everything is kept if each provider had a file of the user's, or an
official profile with nothing to mirror. -/
theorem keptForever_iff (h : (syncApprovalPatterns profiles d₀).2 = none) :
    KeptForever profiles d₀ ↔ ∀ provider ∈ knownApprovalProviders, Unmixed provider (d₀ provider) := by
  constructor
  · intro hKept p hp
    by_contra hMixed
    simp only [Unmixed, not_or, not_not, not_forall] at hMixed
    obtain ⟨hCustom, hLegacy, x, xs, hRead⟩ := hMixed
    have hAfter := (hKept [.switch p approvalProfileOfficial, .sync]).1 p approvalProfileCustom (by decide)
    rw [custom_of_switch_sync h hp hCustom hLegacy hRead, readApprovalPatternsByProfile,
      if_pos (mem_knownApprovalProviders.1 hp), (sync_apply h hp).1, syncProvider_eq,
      Files.read_eq (writeActiveMirror_official ..) (writeActiveMirror_custom ..)] at hAfter
    simp [Files.read, Files.profile, migrated, hCustom, hLegacy, approvalProfileCustom,
      approvalProfileOfficial] at hAfter
  · intro hUnmixed ops
    have hFirst := allSettled_of_first h hUnmixed
    have hRun : AllSettled d₀ ((State.mk profiles (syncApprovalPatterns profiles d₀).1).run ops).dir :=
      AllSettled.run (s := State.mk profiles _) hFirst ops
    constructor
    · intro provider profile hValid
      rw [hRun.read_eq hValid, hFirst.read_eq hValid]
    · intro provider hp t hLegacy hCustom
      refine (hRun provider hp).kept t ?_
      simp [migrated, hLegacy, hCustom]

/-- Each provider with a custom profile of the user's. -/
def ownDir : Dir := fun _ => ⟨none, none, some "[\"yes?\"]".toList⟩

theorem keptForever_own : KeptForever defaultApprovalProfiles ownDir :=
  (keptForever_iff (sync_default_ok (d := ownDir) fun _ _ => rfl)).2 fun _ _ => .inl (Option.some_ne_none _)

def newDir : Dir := fun _ => ⟨none, none, none⟩

/-- Two starts on a new machine: the custom profile was empty after the first. -/
theorem official_as_custom :
    (syncApprovalPatterns defaultApprovalProfiles newDir).2 = none ∧
      readApprovalPatternsByProfile
        (syncApprovalPatterns defaultApprovalProfiles newDir).1 "claude" approvalProfileCustom = .ok [] ∧
      readApprovalPatternsByProfile
        (State.run ⟨defaultApprovalProfiles, (syncApprovalPatterns defaultApprovalProfiles newDir).1⟩
          [.sync]).dir
        "claude" approvalProfileCustom =
        .ok ["do you want to".toList, "esc to cancel".toList,
          "press enter to confirm or esc to go back".toList] := by
  have hFirst := sync_default_ok (d := newDir) fun _ _ => rfl
  refine ⟨hFirst, ?_, ?_⟩
  · rw [readApprovalPatternsByProfile, if_pos (by decide), (sync_apply hFirst (by decide)).1, syncProvider_eq,
      Files.read_eq (writeActiveMirror_official ..) (writeActiveMirror_custom ..)]
    rfl
  · refine custom_of_second_sync hFirst (by decide) rfl rfl ?_
    rw [forProvider_default, read_official_migrated]
    rfl

end ManyAiCli.Hub.ApprovalPatterns
