import ManyAiCli.Yaml.Record

/-! The configuration file: its sections with their YAML keys, in the order of the source. A field
marked omitempty there is an `omitempty` field here, and a slice whose nil and empty values differ
is `nilable`. -/

namespace ManyAiCli.ConfigFile

open Yaml Yaml.Fields

/-- File rotation, session logs and attachments. -/
structure LogConfig where
  enabled : Bool := false
  sessionEnabled : Bool := false
  legacyLogsNoticeShown : Bool := false
  maxSizeMB : ℤ := 0
  maxBackups : ℤ := 0
  compress : Bool := false
  sessionRetentionDays : ℤ := 0
  sessionMaxSizeMB : ℤ := 0
  attachmentRetentionDays : ℤ := 0
  attachmentMaxTotalMB : ℤ := 0

def LogConfig.codec : Codec LogConfig :=
  record
    ((field "enabled" bool).and <|
      (field "session_enabled" bool).and <|
      (field "legacy_logs_notice_shown" bool).and <|
      (field "max_size_mb" int).and <|
      (field "max_backups" int).and <|
      (field "compress" bool).and <|
      (field "session_retention_days" int).and <|
      (field "session_max_size_mb" int).and <|
      (field "attachment_retention_days" int).and <|
      field "attachment_max_total_mb" int)
    (fun c => (c.enabled, c.sessionEnabled, c.legacyLogsNoticeShown, c.maxSizeMB, c.maxBackups,
      c.compress, c.sessionRetentionDays, c.sessionMaxSizeMB, c.attachmentRetentionDays,
      c.attachmentMaxTotalMB))
    (fun (enabled, sessionEnabled, legacyLogsNoticeShown, maxSizeMB, maxBackups, compress,
      sessionRetentionDays, sessionMaxSizeMB, attachmentRetentionDays, attachmentMaxTotalMB) =>
      ⟨enabled, sessionEnabled, legacyLogsNoticeShown, maxSizeMB, maxBackups, compress,
        sessionRetentionDays, sessionMaxSizeMB, attachmentRetentionDays, attachmentMaxTotalMB⟩)
    (fun _ => rfl) (fun _ => rfl)

instance : LogConfig.codec.Exact := by unfold LogConfig.codec; infer_instance
instance : LogConfig.codec.Overwrites := by unfold LogConfig.codec; infer_instance

/-- The approval buttons. -/
structure ApprovalConfig where
  enabled : Bool := false
  firstLaunchShown : Bool := false

def ApprovalConfig.codec : Codec ApprovalConfig :=
  record
    ((field "enabled" bool).and <|
      field "first_launch_shown" bool)
    (fun c => (c.enabled, c.firstLaunchShown))
    (fun (enabled, firstLaunchShown) => ⟨enabled, firstLaunchShown⟩) (fun _ => rfl) (fun _ => rfl)

instance : ApprovalConfig.codec.Exact := by unfold ApprovalConfig.codec; infer_instance

/-- Where the slash commands of each provider come from. -/
structure SlashCmdSources where
  claude : String := ""
  codex : String := ""
  copilot : String := ""
  cursorAgent : String := ""
  opencode : String := ""
  grok : String := ""

def SlashCmdSources.codec : Codec SlashCmdSources :=
  record
    ((field "claude" string).and <|
      (field "codex" string).and <|
      (field "copilot" string).and <|
      (field "cursor-agent" string).and <|
      (field "opencode" string).and <|
      field "grok" string)
    (fun c => (c.claude, c.codex, c.copilot, c.cursorAgent, c.opencode, c.grok))
    (fun (claude, codex, copilot, cursorAgent, opencode, grok) =>
      ⟨claude, codex, copilot, cursorAgent, opencode, grok⟩)
    (fun _ => rfl) (fun _ => rfl)

instance : SlashCmdSources.codec.Exact := by unfold SlashCmdSources.codec; infer_instance
instance : SlashCmdSources.codec.Overwrites := by unfold SlashCmdSources.codec; infer_instance

/-- Where the approval patterns of each provider come from. -/
structure ApprovalPatternSources where
  claude : String := ""
  codex : String := ""
  copilot : String := ""
  cursorAgent : String := ""
  opencode : String := ""
  grok : String := ""
  common : String := ""

def ApprovalPatternSources.codec : Codec ApprovalPatternSources :=
  record
    ((omitempty "claude" string).and <|
      (omitempty "codex" string).and <|
      (omitempty "copilot" string).and <|
      (omitempty "cursor-agent" string).and <|
      (omitempty "opencode" string).and <|
      (omitempty "grok" string).and <|
      omitempty "common" string)
    (fun c => (c.claude, c.codex, c.copilot, c.cursorAgent, c.opencode, c.grok, c.common))
    (fun (claude, codex, copilot, cursorAgent, opencode, grok, common) =>
      ⟨claude, codex, copilot, cursorAgent, opencode, grok, common⟩)
    (fun _ => rfl) (fun _ => rfl)

instance : ApprovalPatternSources.codec.Exact := by unfold ApprovalPatternSources.codec; infer_instance

/-- The active profile of each provider. -/
structure ApprovalProfiles where
  claude : String := ""
  codex : String := ""
  copilot : String := ""
  cursorAgent : String := ""
  opencode : String := ""
  grok : String := ""
  common : String := ""

def ApprovalProfiles.codec : Codec ApprovalProfiles :=
  record
    ((omitempty "claude" string).and <|
      (omitempty "codex" string).and <|
      (omitempty "copilot" string).and <|
      (omitempty "cursor-agent" string).and <|
      (omitempty "opencode" string).and <|
      (omitempty "grok" string).and <|
      omitempty "common" string)
    (fun c => (c.claude, c.codex, c.copilot, c.cursorAgent, c.opencode, c.grok, c.common))
    (fun (claude, codex, copilot, cursorAgent, opencode, grok, common) =>
      ⟨claude, codex, copilot, cursorAgent, opencode, grok, common⟩)
    (fun _ => rfl) (fun _ => rfl)

instance : ApprovalProfiles.codec.Exact := by unfold ApprovalProfiles.codec; infer_instance

structure UserPrefsNotifySound where
  enabled : Bool := false
  type : String := ""
  customFile : String := ""
  customMime : String := ""

def UserPrefsNotifySound.codec : Codec UserPrefsNotifySound :=
  record
    ((omitempty "enabled" bool).and <|
      (omitempty "type" string).and <|
      (omitempty "custom_file" string).and <|
      omitempty "custom_mime" string)
    (fun c => (c.enabled, c.type, c.customFile, c.customMime))
    (fun (enabled, type, customFile, customMime) =>
      ⟨enabled, type, customFile, customMime⟩)
    (fun _ => rfl) (fun _ => rfl)

instance : UserPrefsNotifySound.codec.Exact := by unfold UserPrefsNotifySound.codec; infer_instance

structure UserPrefsTrigger where
  enabled : Bool := false
  phrase : String := ""

def UserPrefsTrigger.codec : Codec UserPrefsTrigger :=
  record
    ((omitempty "enabled" bool).and <|
      omitempty "phrase" string)
    (fun c => (c.enabled, c.phrase))
    (fun (enabled, phrase) => ⟨enabled, phrase⟩) (fun _ => rfl) (fun _ => rfl)

instance : UserPrefsTrigger.codec.Exact := by unfold UserPrefsTrigger.codec; infer_instance

structure UserPrefsApproval where
  autoSwitch : Bool := false
  autoApprovalEnabled : Bool := false
  highRiskConfirmationMode : String := ""

def UserPrefsApproval.codec : Codec UserPrefsApproval :=
  record
    ((omitempty "auto_switch" bool).and <|
      (omitempty "auto_approval_enabled" bool).and <|
      omitempty "high_risk_confirmation_mode" string)
    (fun c => (c.autoSwitch, c.autoApprovalEnabled, c.highRiskConfirmationMode))
    (fun (autoSwitch, autoApprovalEnabled, highRiskConfirmationMode) =>
      ⟨autoSwitch, autoApprovalEnabled, highRiskConfirmationMode⟩)
    (fun _ => rfl) (fun _ => rfl)

instance : UserPrefsApproval.codec.Exact := by unfold UserPrefsApproval.codec; infer_instance

structure UserPrefsDesktopNotifications where
  enabled : Bool := false

def UserPrefsDesktopNotifications.codec : Codec UserPrefsDesktopNotifications :=
  record
    (omitempty "enabled" bool)
    (fun c => c.enabled)
    (fun v => ⟨v⟩) (fun _ => rfl) (fun _ => rfl)

instance : UserPrefsDesktopNotifications.codec.Exact := by
  unfold UserPrefsDesktopNotifications.codec
  infer_instance

structure UserPrefsPushNotifications where
  enabled : Bool := false

def UserPrefsPushNotifications.codec : Codec UserPrefsPushNotifications :=
  record
    (omitempty "enabled" bool)
    (fun c => c.enabled)
    (fun v => ⟨v⟩) (fun _ => rfl) (fun _ => rfl)

instance : UserPrefsPushNotifications.codec.Exact := by
  unfold UserPrefsPushNotifications.codec
  infer_instance

/-- Five slots; a slot whose `show` is unset is shown. -/
structure UserPrefsQuickCmds where
  cmd1 : String := ""
  cmd2 : String := ""
  cmd3 : String := ""
  cmd4 : String := ""
  cmd5 : String := ""
  show1 : Option Bool := none
  show2 : Option Bool := none
  show3 : Option Bool := none
  show4 : Option Bool := none
  show5 : Option Bool := none

def UserPrefsQuickCmds.codec : Codec UserPrefsQuickCmds :=
  record
    ((omitempty "cmd1" string).and <|
      (omitempty "cmd2" string).and <|
      (omitempty "cmd3" string).and <|
      (omitempty "cmd4" string).and <|
      (omitempty "cmd5" string).and <|
      (pointer "show1" bool).and <|
      (pointer "show2" bool).and <|
      (pointer "show3" bool).and <|
      (pointer "show4" bool).and <|
      pointer "show5" bool)
    (fun c => (c.cmd1, c.cmd2, c.cmd3, c.cmd4, c.cmd5, c.show1, c.show2, c.show3, c.show4, c.show5))
    (fun (cmd1, cmd2, cmd3, cmd4, cmd5, show1, show2, show3, show4, show5) =>
      ⟨cmd1, cmd2, cmd3, cmd4, cmd5, show1, show2, show3, show4, show5⟩)
    (fun _ => rfl) (fun _ => rfl)

instance : UserPrefsQuickCmds.codec.Exact := by unfold UserPrefsQuickCmds.codec; infer_instance

/-- A reusable prompt. -/
structure UserPrefsTemplate where
  label : String := ""
  body : String := ""
  providers : List String := []
  tags : List String := []
  frequency : ℤ := 0

def UserPrefsTemplate.codec : Codec UserPrefsTemplate :=
  record
    ((field "label" string).and <|
      (field "body" string).and <|
      (omitempty "providers" (list string)).and <|
      (omitempty "tags" (list string)).and <|
      omitempty "frequency" int)
    (fun c => (c.label, c.body, c.providers, c.tags, c.frequency))
    (fun (label, body, providers, tags, frequency) =>
      ⟨label, body, providers, tags, frequency⟩)
    (fun _ => rfl) (fun _ => rfl)

instance : UserPrefsTemplate.codec.Exact := by unfold UserPrefsTemplate.codec; infer_instance

structure UserPrefsUsageLinks where
  claude : String := ""
  codex : String := ""
  copilot : String := ""
  cursorAgent : String := ""
  opencode : String := ""
  grok : String := ""

def UserPrefsUsageLinks.codec : Codec UserPrefsUsageLinks :=
  record
    ((omitempty "claude" string).and <|
      (omitempty "codex" string).and <|
      (omitempty "copilot" string).and <|
      (omitempty "cursor-agent" string).and <|
      (omitempty "opencode" string).and <|
      omitempty "grok" string)
    (fun c => (c.claude, c.codex, c.copilot, c.cursorAgent, c.opencode, c.grok))
    (fun (claude, codex, copilot, cursorAgent, opencode, grok) =>
      ⟨claude, codex, copilot, cursorAgent, opencode, grok⟩)
    (fun _ => rfl) (fun _ => rfl)

instance : UserPrefsUsageLinks.codec.Exact := by unfold UserPrefsUsageLinks.codec; infer_instance

structure UserPrefsVoice where
  graceSeconds : ℤ := 0
  wakeWordEnabled : Bool := false
  wakeWordPhrase : String := ""
  inputDisabled : Bool := false

def UserPrefsVoice.codec : Codec UserPrefsVoice :=
  record
    ((omitempty "grace_seconds" int).and <|
      (omitempty "wake_word_enabled" bool).and <|
      (omitempty "wake_word_phrase" string).and <|
      omitempty "input_disabled" bool)
    (fun c => (c.graceSeconds, c.wakeWordEnabled, c.wakeWordPhrase, c.inputDisabled))
    (fun (graceSeconds, wakeWordEnabled, wakeWordPhrase, inputDisabled) =>
      ⟨graceSeconds, wakeWordEnabled, wakeWordPhrase, inputDisabled⟩)
    (fun _ => rfl) (fun _ => rfl)

instance : UserPrefsVoice.codec.Exact := by unfold UserPrefsVoice.codec; infer_instance

structure UserPrefsSpawn where
  defaults : StringMap String := ∅
  lastModel : StringMap String := ∅
  worktreeAuto : Bool := false
  worktreeCleanup : String := ""

def UserPrefsSpawn.codec : Codec UserPrefsSpawn :=
  record
    ((omitempty "defaults" (dict string)).and <|
      (omitempty "last_model" (dict string)).and <|
      (omitempty "worktree_auto" bool).and <|
      omitempty "worktree_cleanup" string)
    (fun c => (c.defaults, c.lastModel, c.worktreeAuto, c.worktreeCleanup))
    (fun (defaults, lastModel, worktreeAuto, worktreeCleanup) =>
      ⟨defaults, lastModel, worktreeAuto, worktreeCleanup⟩)
    (fun _ => rfl) (fun _ => rfl)

instance : UserPrefsSpawn.codec.Exact := by unfold UserPrefsSpawn.codec; infer_instance

structure UserPrefsDoneSummaryNotify where
  enabled : Bool := false

def UserPrefsDoneSummaryNotify.codec : Codec UserPrefsDoneSummaryNotify :=
  record
    (omitempty "enabled" bool)
    (fun c => c.enabled)
    (fun v => ⟨v⟩) (fun _ => rfl) (fun _ => rfl)

instance : UserPrefsDoneSummaryNotify.codec.Exact := by
  unfold UserPrefsDoneSummaryNotify.codec
  infer_instance

/-- Unset means shown, for the bar and for each segment. -/
structure UserPrefsTokenStatusbar where
  enabled : Option Bool := none
  segments : StringMap Bool := ∅

def UserPrefsTokenStatusbar.codec : Codec UserPrefsTokenStatusbar :=
  record
    ((pointer "enabled" bool).and <|
      omitempty "segments" (dict bool))
    (fun c => (c.enabled, c.segments))
    (fun (enabled, segments) => ⟨enabled, segments⟩) (fun _ => rfl) (fun _ => rfl)

instance : UserPrefsTokenStatusbar.codec.Exact := by unfold UserPrefsTokenStatusbar.codec; infer_instance

structure UserPrefsDisplay where
  theme : String := ""
  fontSize : String := ""
  lang : String := ""
  lockedMode : String := ""
  liveStatusBg : String := ""
  liveStatusFg : String := ""

def UserPrefsDisplay.codec : Codec UserPrefsDisplay :=
  record
    ((omitempty "theme" string).and <|
      (omitempty "font_size" string).and <|
      (omitempty "lang" string).and <|
      (omitempty "locked_mode" string).and <|
      (omitempty "live_status_bg" string).and <|
      omitempty "live_status_fg" string)
    (fun c => (c.theme, c.fontSize, c.lang, c.lockedMode, c.liveStatusBg, c.liveStatusFg))
    (fun (theme, fontSize, lang, lockedMode, liveStatusBg, liveStatusFg) =>
      ⟨theme, fontSize, lang, lockedMode, liveStatusBg, liveStatusFg⟩)
    (fun _ => rfl) (fun _ => rfl)

instance : UserPrefsDisplay.codec.Exact := by unfold UserPrefsDisplay.codec; infer_instance

/-- Unset `hallucinationPhrases` stand for the default list, an empty list turns the filter off. -/
structure VoiceWhisperConfig where
  serverURL : String := ""
  requestPath : String := ""
  language : String := ""
  timeoutSeconds : ℤ := 0
  managed : Bool := false
  model : String := ""
  serverPort : ℤ := 0
  hallucinationPhrases : Option (List String) := none

def VoiceWhisperConfig.codec : Codec VoiceWhisperConfig :=
  record
    ((omitempty "server_url" string).and <|
      (omitempty "request_path" string).and <|
      (omitempty "language" string).and <|
      (omitempty "timeout_seconds" int).and <|
      (omitempty "managed" bool).and <|
      (omitempty "model" string).and <|
      (omitempty "server_port" int).and <|
      omitempty "hallucination_phrases" (nilable string))
    (fun c => (c.serverURL, c.requestPath, c.language, c.timeoutSeconds, c.managed, c.model,
      c.serverPort, c.hallucinationPhrases))
    (fun (serverURL, requestPath, language, timeoutSeconds, managed, model, serverPort,
      hallucinationPhrases) =>
      ⟨serverURL, requestPath, language, timeoutSeconds, managed, model, serverPort,
        hallucinationPhrases⟩)
    (fun _ => rfl) (fun _ => rfl)

structure VoiceConfig where
  whisper : VoiceWhisperConfig := {}

def VoiceConfig.codec : Codec VoiceConfig :=
  record
    (omitempty "whisper" VoiceWhisperConfig.codec)
    (fun c => c.whisper)
    (fun v => ⟨v⟩) (fun _ => rfl) (fun _ => rfl)

/-- What the browsers of a user share. -/
structure UserPrefs where
  trigger : UserPrefsTrigger := {}
  notifySound : UserPrefsNotifySound := {}
  desktopNotifications : UserPrefsDesktopNotifications := {}
  pushNotifications : UserPrefsPushNotifications := {}
  approval : UserPrefsApproval := {}
  quickCmds : UserPrefsQuickCmds := {}
  templates : List UserPrefsTemplate := []
  usageLinks : UserPrefsUsageLinks := {}
  voice : UserPrefsVoice := {}
  sessionOrder : List String := []
  groupOrder : List String := []
  projectFavorites : List String := []
  cwdHistory : List String := []
  cwdFavorites : List String := []
  spawn : UserPrefsSpawn := {}
  display : UserPrefsDisplay := {}
  migratedFromLocalstorage : Bool := false
  avatar : String := ""
  displayName : String := ""
  tokenStatusbar : UserPrefsTokenStatusbar := {}
  doneSummaryNotify : UserPrefsDoneSummaryNotify := {}

def UserPrefs.codec : Codec UserPrefs :=
  record
    ((omitempty "trigger" UserPrefsTrigger.codec).and <|
      (omitempty "notify_sound" UserPrefsNotifySound.codec).and <|
      (omitempty "desktop_notifications" UserPrefsDesktopNotifications.codec).and <|
      (omitempty "push_notifications" UserPrefsPushNotifications.codec).and <|
      (omitempty "approval" UserPrefsApproval.codec).and <|
      (omitempty "quick_cmds" UserPrefsQuickCmds.codec).and <|
      (omitempty "templates" (list UserPrefsTemplate.codec)).and <|
      (omitempty "usage_links" UserPrefsUsageLinks.codec).and <|
      (omitempty "voice" UserPrefsVoice.codec).and <|
      (omitempty "session_order" (list string)).and <|
      (omitempty "group_order" (list string)).and <|
      (omitempty "project_favorites" (list string)).and <|
      (omitempty "cwd_history" (list string)).and <|
      (omitempty "cwd_favorites" (list string)).and <|
      (omitempty "spawn" UserPrefsSpawn.codec).and <|
      (omitempty "display" UserPrefsDisplay.codec).and <|
      (omitempty "migrated_from_localstorage" bool).and <|
      (omitempty "avatar" string).and <|
      (omitempty "display_name" string).and <|
      (omitempty "token_statusbar" UserPrefsTokenStatusbar.codec).and <|
      omitempty "done_summary_notify" UserPrefsDoneSummaryNotify.codec)
    (fun c => (c.trigger, c.notifySound, c.desktopNotifications, c.pushNotifications, c.approval,
      c.quickCmds, c.templates, c.usageLinks, c.voice, c.sessionOrder, c.groupOrder, c.projectFavorites,
      c.cwdHistory, c.cwdFavorites, c.spawn, c.display, c.migratedFromLocalstorage, c.avatar,
      c.displayName, c.tokenStatusbar, c.doneSummaryNotify))
    (fun (trigger, notifySound, desktopNotifications, pushNotifications, approval, quickCmds, templates,
      usageLinks, voice, sessionOrder, groupOrder, projectFavorites, cwdHistory, cwdFavorites, spawn,
      display, migratedFromLocalstorage, avatar, displayName, tokenStatusbar, doneSummaryNotify) =>
      ⟨trigger, notifySound, desktopNotifications, pushNotifications, approval, quickCmds, templates,
        usageLinks, voice, sessionOrder, groupOrder, projectFavorites, cwdHistory, cwdFavorites, spawn,
        display, migratedFromLocalstorage, avatar, displayName, tokenStatusbar, doneSummaryNotify⟩)
    (fun _ => rfl) (fun _ => rfl)

instance : UserPrefs.codec.Exact := by unfold UserPrefs.codec; infer_instance

structure LocalModel where
  id : String := ""
  label : String := ""

def LocalModel.codec : Codec LocalModel :=
  record
    ((field "id" string).and <|
      omitempty "label" string)
    (fun c => (c.id, c.label))
    (fun (id, label) => ⟨id, label⟩) (fun _ => rfl) (fun _ => rfl)

instance : LocalModel.codec.Exact := by unfold LocalModel.codec; infer_instance

structure OllamaConfig where
  baseURL : String := ""

def OllamaConfig.codec : Codec OllamaConfig :=
  record
    (omitempty "base_url" string)
    (fun c => c.baseURL)
    (fun v => ⟨v⟩) (fun _ => rfl) (fun _ => rfl)

instance : OllamaConfig.codec.Exact := by unfold OllamaConfig.codec; infer_instance

structure LMStudioConfig where
  baseURL : String := ""

def LMStudioConfig.codec : Codec LMStudioConfig :=
  record
    (omitempty "base_url" string)
    (fun c => c.baseURL)
    (fun v => ⟨v⟩) (fun _ => rfl) (fun _ => rfl)

instance : LMStudioConfig.codec.Exact := by unfold LMStudioConfig.codec; infer_instance

structure NotifyBackendConfig where
  type : String := ""
  url : String := ""
  topic : String := ""

def NotifyBackendConfig.codec : Codec NotifyBackendConfig :=
  record
    ((field "type" string).and <|
      (field "url" string).and <|
      omitempty "topic" string)
    (fun c => (c.type, c.url, c.topic))
    (fun (type, url, topic) => ⟨type, url, topic⟩) (fun _ => rfl) (fun _ => rfl)

instance : NotifyBackendConfig.codec.Exact := by unfold NotifyBackendConfig.codec; infer_instance

structure NotifyConfig where
  backends : List NotifyBackendConfig := []
  events : List String := []
  includeBody : Bool := false

def NotifyConfig.codec : Codec NotifyConfig :=
  record
    ((omitempty "backends" (list NotifyBackendConfig.codec)).and <|
      (omitempty "events" (list string)).and <|
      omitempty "include_body" bool)
    (fun c => (c.backends, c.events, c.includeBody))
    (fun (backends, events, includeBody) => ⟨backends, events, includeBody⟩) (fun _ => rfl) (fun _ => rfl)

instance : NotifyConfig.codec.Exact := by unfold NotifyConfig.codec; infer_instance

/-- Parent and child sessions. -/
structure OrchestrationConfig where
  maxDepth : ℤ := 0
  maxChildrenPerParent : ℤ := 0
  maxTotalSessions : ℤ := 0
  childTimeoutSeconds : ℤ := 0
  timeoutRespawn : Bool := false
  maxTimeoutRespawns : ℤ := 0
  idleDoneThresholdSec : ℤ := 0
  worktreeAuto : Option Bool := none
  worktreeDirRoot : String := ""
  boardNotifyMode : String := ""
  spawnConfirmMode : String := ""
  spawnConfirmProviders : List String := []

def OrchestrationConfig.codec : Codec OrchestrationConfig :=
  record
    ((omitempty "max_depth" int).and <|
      (omitempty "max_children_per_parent" int).and <|
      (omitempty "max_total_sessions" int).and <|
      (omitempty "child_timeout_seconds" int).and <|
      (omitempty "timeout_respawn" bool).and <|
      (omitempty "max_timeout_respawns" int).and <|
      (omitempty "idle_done_threshold_seconds" int).and <|
      (pointer "worktree_auto" bool).and <|
      (omitempty "worktree_dir_root" string).and <|
      (omitempty "board_notify_mode" string).and <|
      (omitempty "spawn_confirm_mode" string).and <|
      omitempty "spawn_confirm_providers" (list string))
    (fun c => (c.maxDepth, c.maxChildrenPerParent, c.maxTotalSessions, c.childTimeoutSeconds,
      c.timeoutRespawn, c.maxTimeoutRespawns, c.idleDoneThresholdSec, c.worktreeAuto, c.worktreeDirRoot,
      c.boardNotifyMode, c.spawnConfirmMode, c.spawnConfirmProviders))
    (fun (maxDepth, maxChildrenPerParent, maxTotalSessions, childTimeoutSeconds, timeoutRespawn,
      maxTimeoutRespawns, idleDoneThresholdSec, worktreeAuto, worktreeDirRoot, boardNotifyMode,
      spawnConfirmMode, spawnConfirmProviders) =>
      ⟨maxDepth, maxChildrenPerParent, maxTotalSessions, childTimeoutSeconds, timeoutRespawn,
        maxTimeoutRespawns, idleDoneThresholdSec, worktreeAuto, worktreeDirRoot, boardNotifyMode,
        spawnConfirmMode, spawnConfirmProviders⟩)
    (fun _ => rfl) (fun _ => rfl)

instance : OrchestrationConfig.codec.Exact := by unfold OrchestrationConfig.codec; infer_instance

structure HubConfig where
  port : ℤ := 0
  openBrowser : Bool := false
  autoShutdown : Bool := false
  staleBinaryAutoRestart : Bool := false
  logDir : String := ""
  idleTimeoutMin : ℤ := 0
  wrapperReconnectGraceSec : ℤ := 0
  allowLoopbackWithoutToken : Bool := false
  trustedNetworks : List String := []
  allowedHosts : List String := []
  envKind : String := ""

def HubConfig.codec : Codec HubConfig :=
  record
    ((field "port" int).and <|
      (field "open_browser" bool).and <|
      (field "auto_shutdown" bool).and <|
      (field "stale_binary_auto_restart" bool).and <|
      (field "log_dir" string).and <|
      (field "idle_timeout_min" int).and <|
      (field "wrapper_reconnect_grace_sec" int).and <|
      (omitempty "allow_loopback_without_token" bool).and <|
      (omitempty "trusted_networks" (list string)).and <|
      (omitempty "allowed_hosts" (list string)).and <|
      omitempty "env_kind" string)
    (fun c => (c.port, c.openBrowser, c.autoShutdown, c.staleBinaryAutoRestart, c.logDir,
      c.idleTimeoutMin, c.wrapperReconnectGraceSec, c.allowLoopbackWithoutToken, c.trustedNetworks,
      c.allowedHosts, c.envKind))
    (fun (port, openBrowser, autoShutdown, staleBinaryAutoRestart, logDir, idleTimeoutMin,
      wrapperReconnectGraceSec, allowLoopbackWithoutToken, trustedNetworks, allowedHosts, envKind) =>
      ⟨port, openBrowser, autoShutdown, staleBinaryAutoRestart, logDir, idleTimeoutMin,
        wrapperReconnectGraceSec, allowLoopbackWithoutToken, trustedNetworks, allowedHosts, envKind⟩)
    (fun _ => rfl) (fun _ => rfl)

instance : HubConfig.codec.Exact := by unfold HubConfig.codec; infer_instance

structure InputConfig where
  deferredEnterMS : ℤ := 0

def InputConfig.codec : Codec InputConfig :=
  record
    (omitempty "deferred_enter_ms" int)
    (fun c => c.deferredEnterMS)
    (fun v => ⟨v⟩) (fun _ => rfl) (fun _ => rfl)

instance : InputConfig.codec.Exact := by unfold InputConfig.codec; infer_instance

/-- The last model of each provider, where older versions kept it. -/
structure SpawnConfig where
  lastModel : StringMap String := ∅

def SpawnConfig.codec : Codec SpawnConfig :=
  record
    (omitempty "last_model" (dict string))
    (fun c => c.lastModel)
    (fun v => ⟨v⟩) (fun _ => rfl) (fun _ => rfl)

instance : SpawnConfig.codec.Exact := by unfold SpawnConfig.codec; infer_instance

/-- The configuration file. -/
structure Config where
  hub : HubConfig := {}
  log : LogConfig := {}
  input : InputConfig := {}
  spawn : SpawnConfig := {}
  approval : ApprovalConfig := {}
  slashCmdSources : SlashCmdSources := {}
  modelsSource : String := ""
  approvalPatternSources : ApprovalPatternSources := {}
  approvalProfiles : ApprovalProfiles := {}
  terminalApp : String := ""
  token : String := ""
  authCookieSecret : String := ""
  remotePINHash : String := ""
  ollama : OllamaConfig := {}
  lmStudio : LMStudioConfig := {}
  localModels : List LocalModel := []
  userPrefs : UserPrefs := {}
  voice : VoiceConfig := {}
  notify : NotifyConfig := {}
  orchestration : OrchestrationConfig := {}

def Config.codec : Codec Config :=
  record
    ((field "hub" HubConfig.codec).and <|
      (field "log" LogConfig.codec).and <|
      (omitempty "input" InputConfig.codec).and <|
      (omitempty "spawn" SpawnConfig.codec).and <|
      (omitempty "approval" ApprovalConfig.codec).and <|
      (omitempty "slash_cmd_sources" SlashCmdSources.codec).and <|
      (omitempty "models_source" string).and <|
      (omitempty "approval_pattern_sources" ApprovalPatternSources.codec).and <|
      (omitempty "approval_profiles" ApprovalProfiles.codec).and <|
      (omitempty "terminal_app" string).and <|
      (field "token" string).and <|
      (omitempty "auth_cookie_secret" string).and <|
      (omitempty "remote_pin_hash" string).and <|
      (omitempty "ollama" OllamaConfig.codec).and <|
      (omitempty "lm_studio" LMStudioConfig.codec).and <|
      (omitempty "local_models" (list LocalModel.codec)).and <|
      (omitempty "user_prefs" UserPrefs.codec).and <|
      (omitempty "voice" VoiceConfig.codec).and <|
      (omitempty "notify" NotifyConfig.codec).and <|
      omitempty "orchestration" OrchestrationConfig.codec)
    (fun c => (c.hub, c.log, c.input, c.spawn, c.approval, c.slashCmdSources, c.modelsSource,
      c.approvalPatternSources, c.approvalProfiles, c.terminalApp, c.token, c.authCookieSecret,
      c.remotePINHash, c.ollama, c.lmStudio, c.localModels, c.userPrefs, c.voice, c.notify,
      c.orchestration))
    (fun (hub, log, input, spawn, approval, slashCmdSources, modelsSource, approvalPatternSources,
      approvalProfiles, terminalApp, token, authCookieSecret, remotePINHash, ollama, lmStudio,
      localModels, userPrefs, voice, notify, orchestration) =>
      ⟨hub, log, input, spawn, approval, slashCmdSources, modelsSource, approvalPatternSources,
        approvalProfiles, terminalApp, token, authCookieSecret, remotePINHash, ollama, lmStudio,
        localModels, userPrefs, voice, notify, orchestration⟩)
    (fun _ => rfl) (fun _ => rfl)

end ManyAiCli.ConfigFile
