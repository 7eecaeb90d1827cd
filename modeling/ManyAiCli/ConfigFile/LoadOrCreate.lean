import ManyAiCli.ConfigFile.Validate

/-! Saving and loading the configuration file. Loading reads the file over the default
configuration, keeps a copy of a file that cannot be read as YAML, makes up a missing token, moves
the last models from their old place and fills in what is missing. -/

namespace ManyAiCli.ConfigFile

open Yaml

/-- The YAML library between a document and its text. -/
structure YamlLib (τ : Type) where
  render : Node → Except String τ
  parse : τ → Option Node

/-- The files of the configuration directory. -/
structure Dir (τ : Type) where
  config : Option τ
  backup : Option τ

/-- The directory, and the one of the program's former name. -/
structure Disk (τ : Type) where
  dir : Option (Dir τ)
  legacyDir : Option (Dir τ)

/-- The calls of the system that fail, with their errors. -/
structure Faults where
  homeDir : Option String := none
  renameLegacy : Bool := false
  privateDir : Option String := none
  read : Option String := none
  writeBackup : Option String := none
  write : Option String := none

def failing (fault : Option String) (what : String) : Except String Unit :=
  match fault with
  | none => .ok ()
  | some err => .error (what ++ err)

variable {τ : Type}

/-- Makes the directory where there is none. -/
def ensurePrivateDir (faults : Faults) (disk : Disk τ) : Except String (Disk τ) := do
  failing faults.privateDir ""
  return { disk with dir := some (disk.dir.getD ⟨none, none⟩) }

/-- Moves the directory of the former name, once. -/
def migrateLegacyDir (faults : Faults) (disk : Disk τ) : Disk τ :=
  if disk.dir.isSome then disk
  else if faults.renameLegacy then disk
  else { dir := disk.legacyDir, legacyDir := none }

def Disk.writeConfig (disk : Disk τ) (out : τ) : Disk τ :=
  { disk with dir := disk.dir.map fun d => { d with config := some out } }

def Disk.writeBackup (disk : Disk τ) (out : τ) : Disk τ :=
  { disk with dir := disk.dir.map fun d => { d with backup := some out } }

def save (lib : NetLib) (yaml : YamlLib τ) (host : Host) (faults : Faults) (disk : Disk τ)
    (cfg : Config) : Except String (Config × Disk τ) := do
  let cfg := applyDefaults host cfg
  validate lib cfg
  failing faults.homeDir "home dir: "
  let disk ← ensurePrivateDir faults disk
  let out ← (yaml.render (Config.codec.marshal cfg)).mapError ("marshal config: " ++ ·)
  failing faults.write ""
  return (cfg, disk.writeConfig out)

/-- Writes the configuration and says what it was for when that fails. -/
def persist (yaml : YamlLib τ) (faults : Faults) (disk : Disk τ) (what : String) (cfg : Config) :
    Except String (Disk τ) := do
  let out ← (yaml.render (Config.codec.marshal cfg)).mapError fun err => "marshal " ++ what ++ ": " ++ err
  failing faults.write ("write " ++ what ++ ": ")
  return disk.writeConfig out

/-- The default configuration with a new token, written to the disk. -/
def createDefault (yaml : YamlLib τ) (host : Host) (faults : Faults) (token : Except String String)
    (disk : Disk τ) : Except String (Config × Disk τ) := do
  let token ← token
  let cfg := { defaultConfig host with token }
  let disk ← persist yaml faults disk "default config" cfg
  return (cfg, disk)

/-- Reads the file over the default configuration. -/
def readConfig (yaml : YamlLib τ) (host : Host) (faults : Faults) (token : Except String String)
    (disk : Disk τ) : Except String (Config × Disk τ) := do
  failing faults.read "read config: "
  match disk.dir.bind Dir.config with
  | none => createDefault yaml host faults token disk
  | some b =>
    match (yaml.parse b).bind fun doc => Config.codec.unmarshal doc (defaultConfig host) with
    | some cfg => return (cfg, disk)
    | none =>
      failing faults.writeBackup "backup invalid config: "
      createDefault yaml host faults token (disk.writeBackup b)

/-- A configuration without a token gets one, which is kept. -/
def fillToken (yaml : YamlLib τ) (faults : Faults) (token : Except String String) (cfg : Config)
    (disk : Disk τ) : Except String (Config × Disk τ) :=
  if cfg.token = "" then do
    let token ← token
    let cfg := { cfg with token }
    let disk ← persist yaml faults disk "config after token fill" cfg
    return (cfg, disk)
  else return (cfg, disk)

/-- The last models of the old place, where the new place has none for the provider. -/
def moveLastModel (old new : StringMap String) : StringMap String :=
  old.entries.foldl (fun new e =>
    if e.2 ≠ "" ∧ (new.lookup e.1).getD "" = "" then new.insert e.1 e.2 else new) new

def migrateLastModel (cfg : Config) : Config :=
  { cfg with
    spawn := { lastModel := ∅ }
    userPrefs := { cfg.userPrefs with
      spawn := { cfg.userPrefs.spawn with
        lastModel := moveLastModel cfg.spawn.lastModel cfg.userPrefs.spawn.lastModel } } }

/-- The sources and profiles that hold where the file says nothing. -/
def effective (cfg : Config) : Config :=
  { cfg with
    slashCmdSources := effectiveSlashCmdSources cfg.slashCmdSources
    approvalPatternSources := effectiveApprovalPatternSources cfg.approvalPatternSources
    approvalProfiles := effectiveApprovalProfiles cfg.approvalProfiles }

def loadOrCreate (lib : NetLib) (yaml : YamlLib τ) (host : Host) (faults : Faults)
    (token : Except String String) (disk : Disk τ) : Except String (Config × Disk τ) := do
  failing faults.homeDir "home dir: "
  let disk ← ensurePrivateDir faults (migrateLegacyDir faults disk)
  let (cfg, disk) ← readConfig yaml host faults token disk
  let (cfg, disk) ← fillToken yaml faults token cfg disk
  let cfg := applyDefaults host (effective (migrateLastModel cfg))
  validate lib cfg
  return (cfg, disk)

end ManyAiCli.ConfigFile
