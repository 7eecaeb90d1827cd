import ManyAiCli.ConfigFile.Schema
import ManyAiCli.Text.Strings

/-! What the program fills in: the configuration it starts from, the sources and profiles that
stand in for empty ones, and the values `applyDefaults` puts where a setting is missing. -/

namespace ManyAiCli.ConfigFile

open Text

/-! ### Sources and profiles -/

def legacyClaudeSlashCmdSource := "https://code.claude.com/docs/en/commands.md"

/-- The default files of the repository, by kind and name. -/
def defaultSource (kind name : String) : String :=
  "https://raw.githubusercontent.com/ishizakahiroshi/many-ai-cli/main/resources/" ++ kind ++ "/" ++
    name ++ ".md"

def defaultSlashCmdSources : SlashCmdSources where
  claude := defaultSource "slash-commands" "claude"
  codex := defaultSource "slash-commands" "codex"
  copilot := defaultSource "slash-commands" "copilot"
  cursorAgent := defaultSource "slash-commands" "cursor-agent"
  opencode := defaultSource "slash-commands" "opencode"
  grok := defaultSource "slash-commands" "grok"

/-- A setting, or the default where it is empty. -/
def orDefault (default value : String) : String :=
  if value = "" then default else value

def effectiveSlashCmdSources (src : SlashCmdSources) : SlashCmdSources where
  claude :=
    if src.claude = "" then defaultSlashCmdSources.claude
    else if src.claude = legacyClaudeSlashCmdSource then defaultSlashCmdSources.claude
    else src.claude
  codex := orDefault defaultSlashCmdSources.codex src.codex
  copilot := orDefault defaultSlashCmdSources.copilot src.copilot
  cursorAgent := orDefault defaultSlashCmdSources.cursorAgent src.cursorAgent
  opencode := orDefault defaultSlashCmdSources.opencode src.opencode
  grok := orDefault defaultSlashCmdSources.grok src.grok

def defaultApprovalPatternSources : ApprovalPatternSources where
  claude := defaultSource "approval-patterns" "claude"
  codex := defaultSource "approval-patterns" "codex"
  copilot := defaultSource "approval-patterns" "copilot"
  cursorAgent := defaultSource "approval-patterns" "cursor-agent"
  opencode := defaultSource "approval-patterns" "opencode"
  grok := defaultSource "approval-patterns" "grok"
  common := defaultSource "approval-patterns" "common"

def effectiveApprovalPatternSources (src : ApprovalPatternSources) : ApprovalPatternSources where
  claude := orDefault defaultApprovalPatternSources.claude src.claude
  codex := orDefault defaultApprovalPatternSources.codex src.codex
  copilot := orDefault defaultApprovalPatternSources.copilot src.copilot
  cursorAgent := orDefault defaultApprovalPatternSources.cursorAgent src.cursorAgent
  opencode := orDefault defaultApprovalPatternSources.opencode src.opencode
  grok := orDefault defaultApprovalPatternSources.grok src.grok
  common := orDefault defaultApprovalPatternSources.common src.common

def approvalProfileOfficial := "official"

def defaultApprovalProfiles : ApprovalProfiles where
  claude := approvalProfileOfficial
  codex := approvalProfileOfficial
  copilot := approvalProfileOfficial
  cursorAgent := approvalProfileOfficial
  opencode := approvalProfileOfficial
  grok := approvalProfileOfficial
  common := approvalProfileOfficial

def effectiveApprovalProfiles (p : ApprovalProfiles) : ApprovalProfiles where
  claude := orDefault approvalProfileOfficial p.claude
  codex := orDefault approvalProfileOfficial p.codex
  copilot := orDefault approvalProfileOfficial p.copilot
  cursorAgent := orDefault approvalProfileOfficial p.cursorAgent
  opencode := orDefault approvalProfileOfficial p.opencode
  grok := orDefault approvalProfileOfficial p.grok
  common := orDefault approvalProfileOfficial p.common

/-- An effective setting is not empty. -/
theorem ne_empty_of_orDefault_eq {default value : String} (hd : default ≠ "")
    (h : orDefault default value = value) : value ≠ "" := by
  rintro rfl
  exact hd h

theorem defaultSource_ne_empty (kind name : String) : defaultSource kind name ≠ "" := by
  intro h
  exact absurd (String.append_eq_empty_iff.mp h).2 (by decide)

/-! ### The configuration the program starts from -/

/-- Where the program runs: its home directory, the Windows one when the Windows launcher started
it, and `filepath.Join`. -/
structure Host where
  home : String
  isWindowsLauncherMode : Bool
  windowsHomeAsUnix : String
  join : List String → String

def boardNotifySoft := "soft-notify"
def boardNotifyQueueUntilIdle := "queue-until-idle"
def boardNotifyInterrupt := "interrupt"

def spawnConfirmOn := "on"
def spawnConfirmOff := "off"
def spawnConfirmProviders := "providers"

def Host.logHome (host : Host) : String :=
  if host.isWindowsLauncherMode ∧ host.windowsHomeAsUnix ≠ "" then host.windowsHomeAsUnix
  else host.home

def defaultConfig (host : Host) : Config where
  hub := {
    port := 47777
    openBrowser := true
    autoShutdown := true
    staleBinaryAutoRestart := true
    logDir := host.join [host.logHome, ".many-ai-cli", "logs"]
    idleTimeoutMin := 60
    wrapperReconnectGraceSec := 3600 }
  log := {
    enabled := true
    sessionEnabled := false
    maxSizeMB := 10
    maxBackups := 3
    compress := false
    sessionRetentionDays := 7
    sessionMaxSizeMB := 50
    attachmentRetentionDays := 7
    attachmentMaxTotalMB := 500 }
  voice := { whisper := { language := "ja", timeoutSeconds := 60 } }
  slashCmdSources := defaultSlashCmdSources
  approvalPatternSources := defaultApprovalPatternSources
  approvalProfiles := defaultApprovalProfiles
  orchestration := { boardNotifyMode := boardNotifyQueueUntilIdle }

/-! ### Missing settings -/

def defaultWhisperHallucinationPhrases : List String := [
  "ご視聴ありがとうございました",
  "ご清聴ありがとうございました",
  "チャンネル登録をお願いします",
  "チャンネル登録よろしくお願いします",
  "字幕視聴ありがとうございました",
  "thanks for watching",
  "thank you for watching",
  "please subscribe",
  "like and subscribe",
  "don't forget to subscribe"]

/-- Nothing but white space. -/
def isBlank (s : String) : Bool :=
  (trimSpace s.toList).isEmpty

/-- A count, or the default where it is not positive. -/
def orPositive (default value : ℤ) : ℤ :=
  if value ≤ 0 then default else value

/-- A setting, or the default where it is blank. -/
def fillBlank (default value : String) : String :=
  if isBlank value then default else value

def VoiceWhisperConfig.applyDefaults (w : VoiceWhisperConfig) : VoiceWhisperConfig :=
  { w with
    language := fillBlank "ja" w.language
    timeoutSeconds := orPositive 60 w.timeoutSeconds
    model := fillBlank "small" w.model
    hallucinationPhrases := some (w.hallucinationPhrases.getD defaultWhisperHallucinationPhrases) }

def OrchestrationConfig.applyDefaults (host : Host) (o : OrchestrationConfig) : OrchestrationConfig :=
  { o with
    maxDepth := orPositive 1 o.maxDepth
    maxChildrenPerParent := orPositive 4 o.maxChildrenPerParent
    maxTotalSessions := orPositive 16 o.maxTotalSessions
    childTimeoutSeconds := orPositive 900 o.childTimeoutSeconds
    maxTimeoutRespawns := orPositive 1 o.maxTimeoutRespawns
    idleDoneThresholdSec := orPositive 600 o.idleDoneThresholdSec
    worktreeDirRoot := fillBlank (host.join [".many-ai-cli", "worktrees"]) o.worktreeDirRoot
    boardNotifyMode := orDefault boardNotifyQueueUntilIdle o.boardNotifyMode
    spawnConfirmMode := orDefault spawnConfirmOn o.spawnConfirmMode }

def applyDefaults (host : Host) (cfg : Config) : Config :=
  { cfg with
    voice := { whisper := cfg.voice.whisper.applyDefaults }
    orchestration := cfg.orchestration.applyDefaults host }

theorem orDefault_idem (default value : String) :
    orDefault default (orDefault default value) = orDefault default value := by
  by_cases h : value = ""
  · simp only [orDefault, h, if_true, ite_self]
  · simp only [orDefault, h, if_false]

theorem orDefault_ne_empty {default : String} (hd : default ≠ "") (value : String) :
    orDefault default value ≠ "" :=
  ne_empty_of_orDefault_eq hd (orDefault_idem default value)

theorem orPositive_pos {default : ℤ} (hd : 0 < default) (value : ℤ) : 0 < orPositive default value := by
  rw [orPositive]
  split
  next => exact hd
  next h => exact not_le.mp h

theorem orPositive_idem {default : ℤ} (hd : 0 < default) (value : ℤ) :
    orPositive default (orPositive default value) = orPositive default value :=
  if_neg (not_le.mpr (orPositive_pos hd value))

/-- Filled in, a setting is not blank or it is the default. -/
theorem fillBlank_idem (default value : String) :
    fillBlank default (fillBlank default value) = fillBlank default value := by
  cases hv : isBlank value with
  | true => simp only [fillBlank, hv, if_true, ite_self]
  | false => simp only [fillBlank, hv, Bool.false_eq_true, if_false]

theorem VoiceWhisperConfig.applyDefaults_idem (w : VoiceWhisperConfig) :
    w.applyDefaults.applyDefaults = w.applyDefaults := by
  simp only [VoiceWhisperConfig.applyDefaults, fillBlank_idem, orPositive_idem (by decide : (0 : ℤ) < 60),
    Option.getD_some]

theorem OrchestrationConfig.applyDefaults_idem (host : Host) (o : OrchestrationConfig) :
    (o.applyDefaults host).applyDefaults host = o.applyDefaults host := by
  have hp {default : ℤ} (hd : 0 < default) := orPositive_idem hd
  simp only [OrchestrationConfig.applyDefaults, fillBlank_idem, orDefault_idem,
    hp (by decide : (0 : ℤ) < 1), hp (by decide : (0 : ℤ) < 4), hp (by decide : (0 : ℤ) < 16),
    hp (by decide : (0 : ℤ) < 900), hp (by decide : (0 : ℤ) < 600)]

/-- Filling in a second time changes nothing. -/
theorem applyDefaults_idem (host : Host) (cfg : Config) :
    applyDefaults host (applyDefaults host cfg) = applyDefaults host cfg := by
  simp only [applyDefaults, VoiceWhisperConfig.applyDefaults_idem,
    OrchestrationConfig.applyDefaults_idem]

end ManyAiCli.ConfigFile
