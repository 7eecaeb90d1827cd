import ManyAiCli.ConfigFile.LoadOrCreate

/-! Whether a saved configuration comes back. A field left out of the file has to be one that
loading fills in as it was: the zero of a field without a default, a source or profile that is
effective already, a setting `applyDefaults` has filled in. The empty list of hallucination
phrases is the exception. It is left out as an unset list is, and comes back as the default. -/

namespace ManyAiCli.ConfigFile

open Yaml Yaml.Fields

/-! ### Sections with defaults -/

theorem omitempty_string_recovers {key init a : String} (ha : a ≠ "") :
    (omitempty key string).Recovers init a :=
  (omitempty_recovers (decide_eq_false ha)).mpr (Codec.Overwrites.recovers init a)

theorem omitempty_int_recovers {key : String} {init a : ℤ} (ha : a ≠ 0) :
    (omitempty key int).Recovers init a :=
  (omitempty_recovers (decide_eq_false ha)).mpr (Codec.Overwrites.recovers init a)

theorem field_overwrites {α : Type} {key : String} {c : Codec α} [hc : c.Overwrites] {init a : α} :
    (field key c).Recovers init a :=
  field_recovers.mpr (hc.recovers init a)

theorem hub_recovers (host : Host) (hub : HubConfig) :
    HubConfig.codec.Recovers (defaultConfig host).hub hub := by
  rw [HubConfig.codec, record_recovers]
  simp only [and_recovers]
  exact ⟨field_overwrites, field_overwrites, field_overwrites, field_overwrites, field_overwrites,
    field_overwrites, field_overwrites, omitempty_recovers_zero _, omitempty_recovers_zero _,
    omitempty_recovers_zero _, omitempty_recovers_zero _⟩

theorem approvalPatternSources_recovers {init src : ApprovalPatternSources}
    (h : effectiveApprovalPatternSources src = src) :
    ApprovalPatternSources.codec.Recovers init src := by
  have hne {name value : String} :=
    @ne_empty_of_orDefault_eq _ value (defaultSource_ne_empty "approval-patterns" name)
  rw [ApprovalPatternSources.codec, record_recovers]
  simp only [and_recovers]
  exact ⟨omitempty_string_recovers (hne (congrArg ApprovalPatternSources.claude h)),
    omitempty_string_recovers (hne (congrArg ApprovalPatternSources.codex h)),
    omitempty_string_recovers (hne (congrArg ApprovalPatternSources.copilot h)),
    omitempty_string_recovers (hne (congrArg ApprovalPatternSources.cursorAgent h)),
    omitempty_string_recovers (hne (congrArg ApprovalPatternSources.opencode h)),
    omitempty_string_recovers (hne (congrArg ApprovalPatternSources.grok h)),
    omitempty_string_recovers (hne (congrArg ApprovalPatternSources.common h))⟩

theorem approvalProfiles_recovers {init p : ApprovalProfiles}
    (h : effectiveApprovalProfiles p = p) : ApprovalProfiles.codec.Recovers init p := by
  have hne {value : String} :=
    @ne_empty_of_orDefault_eq _ value (by decide : approvalProfileOfficial ≠ "")
  rw [ApprovalProfiles.codec, record_recovers]
  simp only [and_recovers]
  exact ⟨omitempty_string_recovers (hne (congrArg ApprovalProfiles.claude h)),
    omitempty_string_recovers (hne (congrArg ApprovalProfiles.codex h)),
    omitempty_string_recovers (hne (congrArg ApprovalProfiles.copilot h)),
    omitempty_string_recovers (hne (congrArg ApprovalProfiles.cursorAgent h)),
    omitempty_string_recovers (hne (congrArg ApprovalProfiles.opencode h)),
    omitempty_string_recovers (hne (congrArg ApprovalProfiles.grok h)),
    omitempty_string_recovers (hne (congrArg ApprovalProfiles.common h))⟩

theorem phrases_recovers {key : String} {phrases : Option (List String)} (h : phrases ≠ some []) :
    (omitempty key (nilable string)).Recovers none phrases := by
  cases phrases with
  | none => exact (omitempty_recovers_isZero rfl).mpr rfl
  | some ps =>
    cases ps with
    | nil => exact absurd rfl h
    | cons p ps => exact (omitempty_recovers rfl).mpr (nilable_recovers_some string none (p :: ps))

theorem whisper_recovers (host : Host) {w : VoiceWhisperConfig} (hl : w.language ≠ "")
    (ht : w.timeoutSeconds ≠ 0) (hp : w.hallucinationPhrases ≠ some []) :
    VoiceWhisperConfig.codec.Recovers (defaultConfig host).voice.whisper w := by
  rw [VoiceWhisperConfig.codec, record_recovers]
  simp only [and_recovers]
  exact ⟨omitempty_recovers_zero _, omitempty_recovers_zero _, omitempty_string_recovers hl,
    omitempty_int_recovers ht, omitempty_recovers_zero _, omitempty_recovers_zero _,
    omitempty_recovers_zero _, phrases_recovers hp⟩

theorem whisper_isZero {w : VoiceWhisperConfig} (hl : w.language ≠ "") :
    VoiceWhisperConfig.codec.isZero w = false := by
  cases hz : VoiceWhisperConfig.codec.isZero w with
  | false => rfl
  | true =>
    simp only [VoiceWhisperConfig.codec, record, Fields.and, omitempty, string,
      Bool.and_eq_true, decide_eq_true_eq] at hz
    exact absurd hz.2.2.1 hl

theorem voice_recovers (host : Host) {v : VoiceConfig} (hl : v.whisper.language ≠ "")
    (ht : v.whisper.timeoutSeconds ≠ 0) (hp : v.whisper.hallucinationPhrases ≠ some []) :
    VoiceConfig.codec.Recovers (defaultConfig host).voice v := by
  rw [VoiceConfig.codec, record_recovers]
  exact (omitempty_recovers (whisper_isZero hl)).mpr (whisper_recovers host hl ht hp)

theorem orchestration_recovers (host : Host) {o : OrchestrationConfig}
    (hm : o.boardNotifyMode ≠ "") :
    OrchestrationConfig.codec.Recovers (defaultConfig host).orchestration o := by
  rw [OrchestrationConfig.codec, record_recovers]
  simp only [and_recovers]
  exact ⟨omitempty_recovers_zero _, omitempty_recovers_zero _, omitempty_recovers_zero _,
    omitempty_recovers_zero _, omitempty_recovers_zero _, omitempty_recovers_zero _,
    omitempty_recovers_zero _, Exact.recovers _, omitempty_recovers_zero _,
    omitempty_string_recovers hm, omitempty_recovers_zero _, omitempty_recovers_zero _⟩

theorem slashCmdSources_recovers {key : String} {init src : SlashCmdSources}
    (h : effectiveSlashCmdSources src = src) :
    (omitempty key SlashCmdSources.codec).Recovers init src := by
  refine (omitempty_recovers (Codec.isZero_eq_false ?_)).mpr (Codec.Overwrites.recovers init src)
  rintro rfl
  exact absurd (congrArg SlashCmdSources.codex h) (defaultSource_ne_empty "slash-commands" "codex")

/-! ### The whole file -/

/-- The configuration as the file has it: an empty list of phrases is not written. -/
def asWritten (cfg : Config) : Config :=
  { cfg with
    voice := {
      whisper := { cfg.voice.whisper with
        hallucinationPhrases := cfg.voice.whisper.hallucinationPhrases.filter fun ps => !ps.isEmpty } } }

theorem phrases_asWritten (cfg : Config) : (asWritten cfg).voice.whisper.hallucinationPhrases =
    cfg.voice.whisper.hallucinationPhrases.filter fun ps => !ps.isEmpty := rfl

theorem phrases_applyDefaults (host : Host) (cfg : Config) :
    (applyDefaults host cfg).voice.whisper.hallucinationPhrases =
      some (cfg.voice.whisper.hallucinationPhrases.getD defaultWhisperHallucinationPhrases) := rfl

/-- Anything but an empty list of phrases is written. -/
theorem asWritten_eq {cfg : Config}
    (h : (cfg.voice.whisper.hallucinationPhrases.filter fun ps => !ps.isEmpty) =
      cfg.voice.whisper.hallucinationPhrases) : asWritten cfg = cfg := by
  rw [asWritten, h]

theorem asWritten_phrases_ne (cfg : Config) :
    (asWritten cfg).voice.whisper.hallucinationPhrases ≠ some [] := by
  intro h
  have hp := (Option.filter_eq_some_iff.mp h).2
  exact absurd hp (by decide)

/-- Whether a list of phrases is unset or empty, it adds nothing to the file. -/
theorem encode_phrases_filter (key : String) (phrases : Option (List String)) :
    (omitempty key (nilable string)).encode (phrases.filter fun ps => !ps.isEmpty) =
      (omitempty key (nilable string)).encode phrases := by
  cases phrases with
  | none => rfl
  | some ps =>
    cases ps with
    | nil => rfl
    | cons p ps => rfl

theorem isZero_phrases_filter (phrases : Option (List String)) :
    (nilable string).isZero (phrases.filter fun ps => !ps.isEmpty) = (nilable string).isZero phrases := by
  cases phrases with
  | none => rfl
  | some ps =>
    cases ps with
    | nil => rfl
    | cons p ps => rfl

theorem encode_voice_asWritten (key : String) (cfg : Config) :
    (omitempty key VoiceConfig.codec).encode (asWritten cfg).voice =
      (omitempty key VoiceConfig.codec).encode cfg.voice := by
  have he := encode_phrases_filter "hallucination_phrases" cfg.voice.whisper.hallucinationPhrases
  have hz := isZero_phrases_filter cfg.voice.whisper.hallucinationPhrases
  simp only [omitempty, hz] at he
  simp only [asWritten, omitempty, VoiceConfig.codec, VoiceWhisperConfig.codec, record, Fields.and, hz, he]

theorem marshal_asWritten (cfg : Config) :
    Config.codec.marshal (asWritten cfg) = Config.codec.marshal cfg := by
  have hv := encode_voice_asWritten "voice" cfg
  change Node.map _ = Node.map _
  simp only [Fields.and, hv]
  rfl

/-- A configuration in which every setting with a default has a value. -/
structure Settled (cfg : Config) : Prop where
  slashCmdSources : effectiveSlashCmdSources cfg.slashCmdSources = cfg.slashCmdSources
  approvalPatternSources :
    effectiveApprovalPatternSources cfg.approvalPatternSources = cfg.approvalPatternSources
  approvalProfiles : effectiveApprovalProfiles cfg.approvalProfiles = cfg.approvalProfiles
  language : cfg.voice.whisper.language ≠ ""
  timeoutSeconds : cfg.voice.whisper.timeoutSeconds ≠ 0
  boardNotifyMode : cfg.orchestration.boardNotifyMode ≠ ""

theorem Settled.asWritten {cfg : Config} (h : Settled cfg) : Settled (asWritten cfg) :=
  ⟨h.slashCmdSources, h.approvalPatternSources, h.approvalProfiles, h.language, h.timeoutSeconds,
    h.boardNotifyMode⟩

/-- Every section is read back over the default configuration. -/
theorem config_recovers (host : Host) {cfg : Config} (h : Settled cfg)
    (hp : cfg.voice.whisper.hallucinationPhrases ≠ some []) :
    Config.codec.Recovers (defaultConfig host) cfg := by
  have hpat : ApprovalPatternSources.codec.isZero cfg.approvalPatternSources = false := by
    apply Codec.isZero_eq_false
    intro hz
    have hs := h.approvalPatternSources
    rw [hz] at hs
    exact absurd (congrArg ApprovalPatternSources.codex hs)
      (defaultSource_ne_empty "approval-patterns" "codex")
  have hprof : ApprovalProfiles.codec.isZero cfg.approvalProfiles = false := by
    apply Codec.isZero_eq_false
    intro hz
    have hs := h.approvalProfiles
    rw [hz] at hs
    exact absurd (congrArg ApprovalProfiles.codex hs) (by decide)
  have hvoice : VoiceConfig.codec.isZero cfg.voice = false := whisper_isZero h.language
  have horch : OrchestrationConfig.codec.isZero cfg.orchestration = false := by
    apply Codec.isZero_eq_false
    intro hz
    exact h.boardNotifyMode (congrArg OrchestrationConfig.boardNotifyMode hz)
  rw [Config.codec, record_recovers]
  simp only [and_recovers]
  exact ⟨field_recovers.mpr (hub_recovers host cfg.hub), field_overwrites,
    omitempty_recovers_zero _, omitempty_recovers_zero _, omitempty_recovers_zero _,
    slashCmdSources_recovers h.slashCmdSources, omitempty_recovers_zero _,
    (omitempty_recovers hpat).mpr (approvalPatternSources_recovers h.approvalPatternSources),
    (omitempty_recovers hprof).mpr (approvalProfiles_recovers h.approvalProfiles),
    omitempty_recovers_zero _, field_overwrites, omitempty_recovers_zero _,
    omitempty_recovers_zero _, omitempty_recovers_zero _, omitempty_recovers_zero _,
    omitempty_recovers_zero _, omitempty_recovers_zero _,
    (omitempty_recovers hvoice).mpr (voice_recovers host h.language h.timeoutSeconds hp),
    omitempty_recovers_zero _,
    (omitempty_recovers horch).mpr (orchestration_recovers host h.boardNotifyMode)⟩

/-- What the file says is the configuration without its empty list of phrases. -/
theorem unmarshal_marshal (host : Host) {cfg : Config} (h : Settled cfg) :
    Config.codec.unmarshal (Config.codec.marshal cfg) (defaultConfig host) =
      some (asWritten cfg) := by
  rw [← marshal_asWritten]
  exact config_recovers host h.asWritten (asWritten_phrases_ne cfg)

/-! ### Saving and loading -/

theorem fillBlank_ne_empty {default : String} (hd : default ≠ "") (value : String) :
    fillBlank default value ≠ "" := by
  rw [fillBlank]
  split
  next => exact hd
  next hv =>
    rintro rfl
    exact hv rfl

/-- Saving leaves no setting with a default open. -/
theorem settled_applyDefaults (host : Host) {cfg : Config}
    (hslash : effectiveSlashCmdSources cfg.slashCmdSources = cfg.slashCmdSources)
    (hpatterns : effectiveApprovalPatternSources cfg.approvalPatternSources =
      cfg.approvalPatternSources)
    (hprofiles : effectiveApprovalProfiles cfg.approvalProfiles = cfg.approvalProfiles) :
    Settled (applyDefaults host cfg) where
  slashCmdSources := hslash
  approvalPatternSources := hpatterns
  approvalProfiles := hprofiles
  language := fillBlank_ne_empty (by decide) _
  timeoutSeconds := (orPositive_pos (by decide) _).ne'
  boardNotifyMode := orDefault_ne_empty (by decide) _

section Load

variable {τ : Type} {lib : NetLib} {yaml : YamlLib τ} {host : Host} {faults : Faults}
  {disk disk' : Disk τ} {cfg saved : Config}

/-- What a successful save leaves: the filled-in configuration, valid, and its text on the disk. -/
theorem save_eq_ok (h : save lib yaml host faults disk cfg = .ok (saved, disk')) :
    saved = applyDefaults host cfg ∧ validate lib saved = .ok () ∧
    ∃ dir out, yaml.render (Config.codec.marshal saved) = .ok out ∧
      disk'.dir = some dir ∧ dir.config = some out := by
  rw [save] at h
  cases hv : validate lib (applyDefaults host cfg) with
  | error err =>
    rw [hv] at h
    cases h
  | ok u =>
    rw [hv] at h
    cases hh : faults.homeDir with
    | some err =>
      rw [hh] at h
      cases h
    | none =>
      cases hd : faults.privateDir with
      | some err =>
        rw [hh, ensurePrivateDir, hd] at h
        cases h
      | none =>
        cases hr : yaml.render (Config.codec.marshal (applyDefaults host cfg)) with
        | error err =>
          rw [hh, ensurePrivateDir, hd, hr] at h
          cases h
        | ok out =>
          cases hw : faults.write with
          | some err =>
            rw [hh, ensurePrivateDir, hd, hr, hw] at h
            cases h
          | none =>
            rw [hh, ensurePrivateDir, hd, hr, hw] at h
            cases h
            exact ⟨rfl, hv, _, out, hr, rfl, rfl⟩

theorem migrateLastModel_eq (h : cfg.spawn.lastModel = ∅) : migrateLastModel cfg = cfg := by
  have he : (∅ : StringMap String).entries = [] := by
    rw [StringMap.entries, Finmap.keys_empty, Finset.sort_empty, List.filterMap_nil]
  have hs : (⟨∅⟩ : SpawnConfig) = cfg.spawn := congrArg SpawnConfig.mk h.symm
  rw [migrateLastModel, moveLastModel, h, he, List.foldl_nil, hs]

/-- Loading takes a file that can be read, with its token, as it is. -/
theorem loadOrCreate_of_file (token : Except String String) {dir : Dir τ} {out : τ} {doc : Node}
    (hdir : disk.dir = some dir) (hconfig : dir.config = some out) (hparse : yaml.parse out = some doc)
    (hread : Config.codec.unmarshal doc (defaultConfig host) = some cfg) (htoken : cfg.token ≠ "")
    (hvalid : validate lib (applyDefaults host (effective (migrateLastModel cfg))) = .ok ()) :
    loadOrCreate lib yaml host {} token disk =
      .ok (applyDefaults host (effective (migrateLastModel cfg)), disk) := by
  have hmigrate : migrateLegacyDir {} disk = disk := by rw [migrateLegacyDir, hdir]; rfl
  have hprivate : ensurePrivateDir {} disk = .ok disk := by
    obtain ⟨_, legacyDir⟩ := disk
    subst hdir
    rfl
  have hc : readConfig yaml host {} token disk = .ok (cfg, disk) := by
    unfold readConfig
    simp only [hdir, Option.bind_some, hconfig, hparse, hread]
    rfl
  have ht : fillToken yaml {} token cfg disk = .ok (cfg, disk) := if_neg htoken
  rw [loadOrCreate, hmigrate, hprivate]
  change (readConfig yaml host {} token disk >>= fun p => _) = _
  rw [hc]
  change (fillToken yaml {} token cfg disk >>= fun p => _) = _
  rw [ht]
  change (validate lib (applyDefaults host (effective (migrateLastModel cfg))) >>= fun _ => _) = _
  rw [hvalid]
  rfl

/-- What comes back: the saved configuration, with the default phrases for an empty list. -/
theorem loadOrCreate_save {token : Except String String}
    (hyaml : ∀ doc out, yaml.render doc = .ok out → yaml.parse out = some doc)
    (hsave : save lib yaml host faults disk cfg = .ok (saved, disk')) (htoken : cfg.token ≠ "")
    (hslash : effectiveSlashCmdSources cfg.slashCmdSources = cfg.slashCmdSources)
    (hpatterns : effectiveApprovalPatternSources cfg.approvalPatternSources =
      cfg.approvalPatternSources)
    (hprofiles : effectiveApprovalProfiles cfg.approvalProfiles = cfg.approvalProfiles)
    (hlegacy : cfg.spawn.lastModel = ∅) :
    loadOrCreate lib yaml host {} token disk' =
      .ok (applyDefaults host (asWritten saved), disk') := by
  obtain ⟨rfl, hvalid, dir, out, hrender, hdir, hconfig⟩ := save_eq_ok hsave
  have hs := settled_applyDefaults host hslash hpatterns hprofiles
  have hm : migrateLastModel (asWritten (applyDefaults host cfg)) =
      asWritten (applyDefaults host cfg) := migrateLastModel_eq hlegacy
  have he : effective (asWritten (applyDefaults host cfg)) = asWritten (applyDefaults host cfg) := by
    rw [effective, hs.asWritten.slashCmdSources, hs.asWritten.approvalPatternSources,
      hs.asWritten.approvalProfiles]
  have hv : validate lib (applyDefaults host (asWritten (applyDefaults host cfg))) = .ok () := by
    rw [← hvalid]
    conv_rhs => rw [← applyDefaults_idem]
    rfl
  have hload := loadOrCreate_of_file token hdir hconfig (hyaml _ _ hrender)
    (unmarshal_marshal host hs) htoken (by rw [hm, he]; exact hv)
  rw [hm, he] at hload
  exact hload

/-- A saved configuration is the one that loading returns, unless its list of hallucination
phrases is empty and not unset. -/
theorem comesBack_iff {token : Except String String}
    (hyaml : ∀ doc out, yaml.render doc = .ok out → yaml.parse out = some doc)
    (hsave : save lib yaml host faults disk cfg = .ok (saved, disk')) (htoken : cfg.token ≠ "")
    (hslash : effectiveSlashCmdSources cfg.slashCmdSources = cfg.slashCmdSources)
    (hpatterns : effectiveApprovalPatternSources cfg.approvalPatternSources =
      cfg.approvalPatternSources)
    (hprofiles : effectiveApprovalProfiles cfg.approvalProfiles = cfg.approvalProfiles)
    (hlegacy : cfg.spawn.lastModel = ∅) :
    (loadOrCreate lib yaml host {} token disk').map Prod.fst = .ok saved ↔
      cfg.voice.whisper.hallucinationPhrases ≠ some [] := by
  rw [loadOrCreate_save hyaml hsave htoken hslash hpatterns hprofiles hlegacy]
  obtain ⟨rfl, -⟩ := save_eq_ok hsave
  change Except.ok (applyDefaults host (asWritten (applyDefaults host cfg))) =
    .ok (applyDefaults host cfg) ↔ _
  rw [Except.ok.injEq]
  cases hp : cfg.voice.whisper.hallucinationPhrases with
  | none =>
    have hw : asWritten (applyDefaults host cfg) = applyDefaults host cfg :=
      asWritten_eq (by rw [phrases_applyDefaults, hp]; decide)
    rw [hw, applyDefaults_idem]
    exact iff_of_true rfl (Option.some_ne_none []).symm
  | some ps =>
    cases ps with
    | nil =>
      refine iff_of_false (fun h => ?_) fun h => h rfl
      have hd := congrArg (fun c : Config => c.voice.whisper.hallucinationPhrases) h
      rw [phrases_applyDefaults, phrases_asWritten, phrases_applyDefaults, hp] at hd
      exact absurd hd (by decide)
    | cons p ps =>
      have hw : asWritten (applyDefaults host cfg) = applyDefaults host cfg :=
        asWritten_eq (by rw [phrases_applyDefaults, hp]; rfl)
      rw [hw, applyDefaults_idem]
      exact iff_of_true rfl fun h => List.cons_ne_nil p ps (Option.some_inj.mp h)

end Load

/-- Documents stand for their own text. -/
def documents : YamlLib Node := ⟨.ok, some⟩

/-- No URL, network or address is looked at. -/
def noNet : NetLib := ⟨fun _ => none, fun _ => .error "", fun _ => false, fun _ => false, id⟩

def linuxHost : Host := ⟨"/home/u", false, "", fun parts => "/".intercalate parts⟩

/-- A configuration with a token and its own sources. -/
def ownConfig (phrases : Option (List String)) : Config where
  token := "t"
  slashCmdSources := ⟨"a", "b", "c", "d", "e", "f"⟩
  approvalPatternSources := ⟨"a", "b", "c", "d", "e", "f", "g"⟩
  approvalProfiles := ⟨"custom", "custom", "custom", "custom", "custom", "custom", "custom"⟩
  voice := { whisper := { hallucinationPhrases := phrases } }

theorem ownPhrases_comeBack : ∃ saved disk',
    save noNet documents linuxHost {} ⟨none, none⟩ (ownConfig (some ["noise"])) = .ok (saved, disk') ∧
    (loadOrCreate noNet documents linuxHost {} (.ok "new") disk').map Prod.fst = .ok saved := by
  have hsave : ∃ saved disk', save noNet documents linuxHost {} ⟨none, none⟩
      (ownConfig (some ["noise"])) = .ok (saved, disk') := ⟨_, _, rfl⟩
  obtain ⟨saved, disk', hsave⟩ := hsave
  refine ⟨saved, disk', hsave, ?_⟩
  exact (comesBack_iff (fun doc out h => congrArg some (Except.ok.inj h).symm) hsave (by decide) rfl
    rfl rfl rfl).mpr (by decide)

/-- A filter that is turned off is on again after a restart. -/
theorem filterOff_comesBackOn : ¬ ∀ (lib : NetLib) (yaml : YamlLib Node) (host : Host)
    (faults : Faults) (token : Except String String) (disk disk' : Disk Node) (cfg saved : Config),
    (∀ doc out, yaml.render doc = .ok out → yaml.parse out = some doc) →
    save lib yaml host faults disk cfg = .ok (saved, disk') → cfg.token ≠ "" →
    effectiveSlashCmdSources cfg.slashCmdSources = cfg.slashCmdSources →
    effectiveApprovalPatternSources cfg.approvalPatternSources = cfg.approvalPatternSources →
    effectiveApprovalProfiles cfg.approvalProfiles = cfg.approvalProfiles →
    cfg.spawn.lastModel = ∅ →
    (loadOrCreate lib yaml host {} token disk').map Prod.fst = .ok saved := by
  intro h
  have hyaml : ∀ doc out, documents.render doc = .ok out → documents.parse out = some doc :=
    fun doc out hr => congrArg some (Except.ok.inj hr).symm
  have hsave : ∃ disk', save noNet documents linuxHost {} ⟨none, none⟩ (ownConfig (some [])) =
      .ok (applyDefaults linuxHost (ownConfig (some [])), disk') := ⟨_, rfl⟩
  obtain ⟨disk', hsave⟩ := hsave
  have hl := h noNet documents linuxHost {} (.ok "new") _ _ _ _ hyaml hsave (by decide) rfl rfl rfl rfl
  rw [loadOrCreate_save hyaml hsave (by decide) rfl rfl rfl rfl] at hl
  have hp := congrArg (fun c : Config => c.voice.whisper.hallucinationPhrases) (Except.ok.inj hl)
  change some defaultWhisperHallucinationPhrases = some [] at hp
  exact absurd hp (by decide)

end ManyAiCli.ConfigFile
