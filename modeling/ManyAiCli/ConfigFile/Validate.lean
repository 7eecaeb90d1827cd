import ManyAiCli.ConfigFile.Defaults

/-! What a configuration must satisfy to be saved or used. The parsers of URLs, networks and
addresses are the standard library's and are taken as they come. -/

namespace ManyAiCli.ConfigFile

open Text

/-- What `net/url` finds in a URL. -/
structure URL where
  scheme : String
  host : String
  hostname : String
  hasUser : Bool
  rawQuery : String
  fragment : String
  path : String

/-- The functions of `net`, `net/url` and `strconv` that the checks call. -/
structure NetLib where
  parseURL : String → Option URL
  /-- The ones and bits of the network's mask, or the error. -/
  parseCIDR : String → Except String (ℕ × ℕ)
  /-- Whether the address splits into host and port. -/
  splitHostPort : String → Bool
  isIP : String → Bool
  quote : String → String

def trimmed (s : String) : String := String.ofList (trimSpace s.toList)

def lower (s : String) : String := String.ofList (toLower s.toList)

def trimDot (s : String) : String :=
  if hasSuffix s.toList ['.'] then String.ofList s.toList.dropLast else s

def trimBrackets (s : String) : String :=
  String.ofList (trim (fun c => c == '[' || c == ']') s.toList)

def isValidBoardNotifyMode (m : String) : Bool :=
  m == boardNotifySoft || m == boardNotifyQueueUntilIdle || m == boardNotifyInterrupt

def isValidSpawnConfirmMode (m : String) : Bool :=
  m == spawnConfirmOn || m == spawnConfirmOff || m == spawnConfirmProviders

/-- A base URL of a local model server, under the name of its section. -/
def validateBaseURL (lib : NetLib) (name raw : String) : Except String Unit :=
  let baseURL := trimmed raw
  if baseURL = "" then .ok ()
  else
    match lib.parseURL baseURL with
    | none => .error (name ++ ".base_url must be an http or https base URL")
    | some u =>
      if u.scheme = "" ∨ u.host = "" then
        .error (name ++ ".base_url must be an http or https base URL")
      else if u.scheme ≠ "http" ∧ u.scheme ≠ "https" then
        .error (name ++ ".base_url must use http or https")
      else if u.hasUser ∨ u.rawQuery ≠ "" ∨ u.fragment ≠ "" then
        .error (name ++ ".base_url must not include credentials, query, or fragment")
      else if u.path ≠ "" ∧ u.path ≠ "/" then
        .error (name ++ ".base_url must not include a path")
      else .ok ()

def validateOllama (lib : NetLib) (ollama : OllamaConfig) : Except String Unit :=
  validateBaseURL lib "ollama" ollama.baseURL

def validateLMStudio (lib : NetLib) (lms : LMStudioConfig) : Except String Unit :=
  validateBaseURL lib "lm_studio" lms.baseURL

def validateWhisperServer (lib : NetLib) (serverURL : String) : Except String Unit :=
  if serverURL = "" then .ok ()
  else
    match lib.parseURL serverURL with
    | none => .error "voice.whisper.server_url must be a localhost http URL"
    | some u =>
      if u.scheme ≠ "http" ∨ u.host = "" then
        .error "voice.whisper.server_url must be a localhost http URL"
      else if trimDot (lower (trimBrackets u.hostname)) ∈ ["127.0.0.1", "localhost", "::1"] then .ok ()
      else .error "voice.whisper.server_url must point to localhost"

def validateVoiceWhisper (lib : NetLib) (whisper : VoiceWhisperConfig) : Except String Unit := do
  validateWhisperServer lib (trimmed whisper.serverURL)
  let requestPath := (trimmed whisper.requestPath).toList
  if requestPath ≠ [] ∧ (hasPrefix requestPath ['/'] = false ∨ contains requestPath [':', '/', '/']) then
    throw "voice.whisper.request_path must be empty or start with /"
  if whisper.timeoutSeconds < 1 ∨ 300 < whisper.timeoutSeconds then
    throw "voice.whisper.timeout_seconds must be between 1 and 300"
  if whisper.serverPort ≠ 0 ∧ (whisper.serverPort < 1024 ∨ 65535 < whisper.serverPort) then
    throw "voice.whisper.server_port must be between 1024 and 65535"

def validateTrustedNetwork (lib : NetLib) (raw : String) : Except String Unit :=
  let value := trimmed raw
  if value = "" then .error "hub.trusted_networks contains empty CIDR"
  else
    match lib.parseCIDR value with
    | .error err => .error ("hub.trusted_networks " ++ lib.quote raw ++ ": " ++ err)
    | .ok (ones, bits) =>
      if bits = 0 ∨ ones = 0 then
        .error ("hub.trusted_networks " ++ lib.quote raw ++ " is too broad")
      else .ok ()

/-- Letters and digits, with hyphens inside. -/
def isValidLabel (label : List Char) : Bool :=
  !label.isEmpty && decide (label.length ≤ 63) &&
    label.zipIdx.all fun p =>
      (decide ('a' ≤ p.1) && decide (p.1 ≤ 'z')) || (decide ('0' ≤ p.1) && decide (p.1 ≤ '9')) ||
        (p.1 == '-' && decide (0 < p.2) && decide (p.2 + 1 < label.length))

def isValidAllowedHostname (host : String) : Bool :=
  decide (host.utf8ByteSize ≤ 253) && (host.toList.splitOn '.').all isValidLabel

def validateAllowedHost (lib : NetLib) (raw : String) : Except String Unit :=
  let host := trimDot (lower (trimmed raw))
  if host = "" then .error "hub.allowed_hosts contains empty host"
  else if lib.splitHostPort host then
    .error ("hub.allowed_hosts " ++ lib.quote raw ++ " must not include a port")
  else if '*' ∈ host.toList ∨ contains host.toList [':', '/', '/'] ∨ '/' ∈ host.toList ∨
      '\\' ∈ host.toList then
    .error ("hub.allowed_hosts " ++ lib.quote raw ++ " is not a host name or IP literal")
  else if lib.isIP (trimBrackets host) then .ok ()
  else if isValidAllowedHostname host then .ok ()
  else .error ("hub.allowed_hosts " ++ lib.quote raw ++ " is not a valid host name")

def validate (lib : NetLib) (cfg : Config) : Except String Unit := do
  cfg.hub.trustedNetworks.forM (validateTrustedNetwork lib)
  cfg.hub.allowedHosts.forM (validateAllowedHost lib)
  validateVoiceWhisper lib cfg.voice.whisper
  validateOllama lib cfg.ollama
  validateLMStudio lib cfg.lmStudio
  if isValidBoardNotifyMode cfg.orchestration.boardNotifyMode = false then
    throw "orchestration.board_notify_mode must be soft-notify, queue-until-idle, or interrupt"
  if cfg.orchestration.spawnConfirmMode ≠ "" ∧
      isValidSpawnConfirmMode cfg.orchestration.spawnConfirmMode = false then
    throw "orchestration.spawn_confirm_mode must be on, off, or providers"

end ManyAiCli.ConfigFile
