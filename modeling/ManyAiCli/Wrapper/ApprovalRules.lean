import ManyAiCli.Text.Cut
import ManyAiCli.Text.Strings

/-! The approval rules in the instruction files of the providers. A file is its bytes.
Claude's file gets an import line, the files of the others a block with the text of
the central rules file between two markers; at the end of a session both go again. The
calls of the file system succeed here, other than for a file that does not exist. -/

namespace ManyAiCli.Wrapper

open Text

abbrev Bytes := List UInt8

def ascii (s : String) : Bytes := s.toList.map fun c => UInt8.ofNat c.toNat

def newline : UInt8 := 0x0A

def claudeImportLine : Bytes := ascii "@~/.many-ai-cli/approval-rules.md"

def sharedBlockStart : Bytes := ascii "<!-- many-ai-cli:approval-rules -->"

def sharedBlockEnd : Bytes := ascii "<!-- /many-ai-cli:approval-rules -->"

/-- The markers of older versions, which are only taken out. -/
def legacySharedBlockStart : Bytes := ascii "<!-- any-ai-cli:approval-rules -->"

def legacySharedBlockEnd : Bytes := ascii "<!-- /any-ai-cli:approval-rules -->"

/-- `rulesVersion` in its comment. -/
def versionComment : Bytes := ascii "<!-- version: 18 -->"

/-! ### White space -/

/-- The characters of `unicode.IsSpace`. -/
def spaceChars : List Char :=
  ['\t', '\n', '\x0b', '\x0c', '\r', ' ', '\u0085', '\u00A0', '\u1680', '\u2000', '\u2001', '\u2002',
    '\u2003', '\u2004', '\u2005', '\u2006', '\u2007', '\u2008', '\u2009', '\u200A', '\u2028', '\u2029',
    '\u202F', '\u205F', '\u3000']

def spaces : List Bytes := spaceChars.map String.utf8EncodeChar

/-- Drop the encodings at the beginning; the first number of bytes is one's already. -/
def dropEncoded (encodings : List Bytes) : ℕ → Bytes → Bytes
  | _, [] => []
  | skip + 1, _ :: s => dropEncoded encodings skip s
  | 0, b :: s =>
    match encodings.find? (·.isPrefixOf (b :: s)) with
    | some e => dropEncoded encodings (e.length - 1) s
    | none => b :: s

/-- `strings.TrimSpace`, on bytes that need not be UTF-8. -/
def trimSpaceBytes (s : Bytes) : Bytes :=
  (dropEncoded (spaces.map List.reverse) 0 (dropEncoded spaces 0 s).reverse).reverse

/-! ### The files -/

/-- The central rules file and the instruction file; `none` where there is no file. -/
structure Files where
  central : Option Bytes
  target : Option Bytes
  deriving DecidableEq, Repr

inductive FileError
  | notExist
  | other (text : String)
  deriving DecidableEq, Repr

/-- `SyncRulesFile`; `rules` is `rulesFileContent`. -/
def syncRulesFile (rules : Bytes) (central : Option Bytes) : Bytes :=
  match central with
  | some data => if trimSpaceBytes (data.takeWhile (· ≠ newline)) = versionComment then data else rules
  | none => rules

def providerUsesSharedBlock (provider : String) : Bool :=
  provider = "codex" || provider = "copilot" || provider = "cursor-agent"

/-- The size of the scanner's buffer, which a line has to fit into. -/
def maxLineBytes : ℕ := 8388608

/-- The loop of a `bufio.Scanner` over the lines. -/
def scanLines (isMarker : Bytes → Bool) : List Bytes → Except FileError Bool
  | [] => .ok false
  | line :: lines =>
    if maxLineBytes ≤ line.length then .error (.other "bufio.Scanner: token too long")
    else if isMarker (trimSpaceBytes line) then .ok true
    else scanLines isMarker lines

def scanFile (isMarker : Bytes → Bool) : Option Bytes → Except FileError Bool
  | none => .error .notExist
  | some data => scanLines isMarker (data.splitOn newline)

def scanClaudeConfigured : Option Bytes → Except FileError Bool :=
  scanFile fun line => line = claudeImportLine

def scanSharedBlockConfigured : Option Bytes → Except FileError Bool :=
  scanFile fun line => line = sharedBlockStart || line = legacySharedBlockStart

def unknownProvider (provider : String) : String := s!"unknown provider: {provider}"

def scanRulesConfigured (provider : String) (target : Option Bytes) : Except FileError Bool :=
  if provider = "claude" then scanClaudeConfigured target
  else if providerUsesSharedBlock provider then scanSharedBlockConfigured target
  else .error (.other (unknownProvider provider))

/-- The text between the first start marker that has an end marker after it and the
first such end marker holds the version. -/
def sharedBlockIsCurrent (data : Bytes) : Bool :=
  match index sharedBlockStart data with
  | none => false
  | some i =>
    let rest := data.drop (i + sharedBlockStart.length)
    match index sharedBlockEnd rest with
    | none => false
    | some j => (index versionComment (rest.take j)).isSome

/-! ### Injecting -/

/-- `O_APPEND|O_CREATE`. -/
def appendToFile (target : Option Bytes) (text : Bytes) : Option Bytes := some (target.getD [] ++ text)

def appendClaudeImport (fs : Files) : Files :=
  { fs with target := appendToFile fs.target (newline :: claudeImportLine ++ [newline]) }

/-- What `appendSharedBlock` puts between the line ends. -/
def sharedBlock (central : Bytes) : Bytes :=
  sharedBlockStart ++ newline :: (trimSpaceBytes central ++ newline :: (sharedBlockEnd ++ [newline]))

def appendSharedBlock (path : String) (fs : Files) : Files × Option String :=
  match fs.central with
  | none => (fs, some s!"read central rules: open {path}: no such file or directory")
  | some central => ({ fs with target := appendToFile fs.target (newline :: sharedBlock central) }, none)

/-! ### Removing -/

/-- The length of a match of `start.*?end` at the beginning, over line ends too. -/
def blockLen (start stop : Bytes) (s : Bytes) : Option ℕ :=
  if start <+: s then
    (index stop (s.drop start.length)).map fun i => start.length + i + stop.length
  else none

def eitherBlockLen (s : Bytes) : Option ℕ :=
  (blockLen sharedBlockStart sharedBlockEnd s).or (blockLen legacySharedBlockStart legacySharedBlockEnd s)

/-- `blockRe`: a block with the line end before it and the line end after it, if there. -/
def blockReLen (s : Bytes) : Option ℕ :=
  let withBreak := match s with
    | b :: rest => if b = newline then (eitherBlockLen rest).map (· + 1) else none
    | [] => none
  (withBreak.or (eitherBlockLen s)).map fun n => if [newline] <+: s.drop n then n + 1 else n

def dropImportLines (content : Bytes) : Bytes :=
  [newline].intercalate ((content.splitOn newline).filter fun line => trimSpaceBytes line ≠ claudeImportLine)

def dropBlocks (content : Bytes) : Bytes := cutAll blockReLen 0 content

/-- A file that does not change is not written. -/
def removeRules (provider : String) (fs : Files) : Files × Option String :=
  match fs.target with
  | none => (fs, none)
  | some content =>
    if provider = "claude" then ({ fs with target := some (dropImportLines content) }, none)
    else if providerUsesSharedBlock provider then ({ fs with target := some (dropBlocks content) }, none)
    else (fs, some (unknownProvider provider))

/-- The error of a scan, as far as `InjectRules` returns it. -/
def scanError (path : String) : Except FileError Bool → Option String
  | .error (.other text) => some s!"scan {path}: {text}"
  | _ => none

def injectRules (rules : Bytes) (provider path centralPath : String) (fs : Files) : Files × Option String :=
  let fs := { fs with central := some (syncRulesFile rules fs.central) }
  let scan := scanRulesConfigured provider fs.target
  let already := scan.toOption.getD false
  if (scanError path scan).isSome then (fs, scanError path scan)
  else if provider = "claude" then
    if already then (fs, none) else (appendClaudeImport fs, none)
  else if providerUsesSharedBlock provider then
    if already then
      if sharedBlockIsCurrent (fs.target.getD []) then (fs, none)
      else appendSharedBlock centralPath (removeRules provider fs).1
    else appendSharedBlock centralPath fs
  else (fs, some (unknownProvider provider))

/-- A session: the rules are injected at its start and removed at its end. -/
def session (rules : Bytes) (provider path centralPath : String) (fs : Files) : Files :=
  (removeRules provider (injectRules rules provider path centralPath fs).1).1

end ManyAiCli.Wrapper
