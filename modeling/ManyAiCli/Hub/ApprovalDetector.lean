import ManyAiCli.Approval.Summary
import ManyAiCli.Text.Cluster

/-! Finding a pending approval on the screen of a CLI: the menu of its options, the
lines around the menu and the question line above it. The hex digits of a text's
SHA-256 sum are a parameter. -/

namespace ManyAiCli.Hub

open Text Approval

abbrev Line := List Char

def approvalRecentLines : ℕ := 90
def approvalMaxOptions : ℕ := 12
def approvalContextBefore : ℕ := 12
def approvalContextAfter : ℕ := 6
def approvalOptionGapLimit : ℕ := 4
def approvalOptionNumMaxLabel : ℕ := 20

structure ApprovalOption where
  num : ℕ
  label : List Char
  isCurrent : Bool
  sendText : List Char
  preserveOrder : Bool
  deriving DecidableEq, Repr

structure NativeApproval where
  sig : List Char
  kind : String
  question : Line
  context : List Char
  options : List ApprovalOption
  summary : ApprovalSummary
  deriving DecidableEq, Repr

section Patterns

open Regexp

def cursorMarks : List Char := ['>', '❯', '›', '❱']

def numberedApprovalLineRe : Regexp :=
  cat [bot, space.many, (group 1 (chars cursorMarks)).opt, space.many, group 2 (seq digit digit.opt),
    lit ".", space.many, group 3 dot.few1, space.many, eot]

def shortcutApprovalLineRe : Regexp :=
  cat [bot, space.many, (group 1 (chars cursorMarks)).opt, space.many, group 2 dot.few1, space.many1,
    lit "(", group 3 (oneOf [lit "y", lit "p", lit "n", lit "!", lit "#", lit "?", lit "esc", lit "escape"]),
    lit ")", space.many, eot]

def cursorAgentShortcutLineRe : Regexp :=
  cat [bot, space.many, (group 1 (chars (['-', '*', '•'] ++ cursorMarks))).opt, space.many,
    group 2 dot.few1, space.many1, lit "(", group 3 (char fun c => c ≠ '(' && c ≠ ')').many1, lit ")",
    space.many, eot]

end Patterns

/-! ### Option lines -/

def providerSupportsShortcutApproval (provider : String) : Bool :=
  provider = "codex" || provider = "copilot" || provider = "cursor-agent"

def isBar (c : Char) : Bool := c = '│' || c = '┃'

def cleanNativeApprovalLabel (label : List Char) : List Char :=
  trimSpace ([' '].intercalate (fields (trim isBar (trimSpace label))))

def approvalShortcutNum (provider : String) (key : List Char) : ℕ :=
  let other := provider = "copilot" || provider = "cursor-agent"
  let key := toLower key
  if key = ['y'] then 1
  else if key = ['p'] then if provider = "codex" then 2 else 0
  else if key = ['n'] then if other then 2 else 3
  else if key = ['!'] then if other then 3 else 0
  else if key = ['#'] then if other then 4 else 0
  else if key = ['?'] then if other then 5 else 0
  else if key = "esc".toList || key = "escape".toList then if other then 6 else 4
  else 0

def approvalShortcutSendText (provider : String) (label : List Char) : List Char :=
  if !providerSupportsShortcutApproval provider then [] else
  let lower := toLower (trimSpace label)
  let names (key : String) := lower = key.toList || hasSuffix lower (("(" ++ key ++ ")").toList)
  let other := provider = "copilot" || provider = "cursor-agent"
  if names "y" then ['y']
  else if provider = "codex" && names "p" then ['p']
  else if names "n" then ['n']
  else if other && names "!" then ['!']
  else if other && names "#" then ['#']
  else if other && names "?" then ['?']
  else if names "esc" || names "escape" then ['\x1b']
  else []

/-- What a key of the menu sends and its number; nothing for an unknown key. -/
def cursorAgentKeyBinding (key : List Char) : List Char × ℕ :=
  let key := toLower (trimSpace key)
  if key = ['y'] then (['y'], 1)
  else if key = "tab".toList then (['\t'], 2)
  else if key = "shift+tab".toList || key = "shift + tab".toList then (['\x1b', '[', 'Z'], 3)
  else if key = "esc or n".toList || key = "n or esc".toList || key = "esc".toList ||
      key = "escape".toList then (['\x1b'], 4)
  else if key = ['n'] then (['n'], 4)
  else ([], 0)

def isCursorAgentCurrentMarker (pre : List Char) : Bool :=
  (['-', '*', '•'] ++ cursorMarks).any fun mark => pre = [mark]

/-- A label with its key. -/
def keyedLabel (label key : List Char) : List Char :=
  cleanNativeApprovalLabel (label ++ [' ', '('] ++ key ++ [')'])

def parseCursorAgentShortcutOption (line : Line) : Option ApprovalOption :=
  match cursorAgentShortcutLineRe.findSubmatch line with
  | none => none
  | some groups =>
    let keyRaw := trimSpace (groups 3)
    let (sendText, num) := cursorAgentKeyBinding keyRaw
    let label := keyedLabel (groups 2) keyRaw
    if sendText = [] || label = [] then none
    else some ⟨num, label, isCursorAgentCurrentMarker (groups 1), sendText, true⟩

def parseShortcutOption (provider : String) (line : Line) : Option ApprovalOption :=
  match shortcutApprovalLineRe.findSubmatch line with
  | none => none
  | some groups =>
    let key := toLower (groups 3)
    let label := keyedLabel (groups 2) (groups 3)
    let sendText := approvalShortcutSendText provider key
    if sendText = [] || label = [] then none
    else some ⟨approvalShortcutNum provider key, label, groups 1 ≠ [], sendText, true⟩

def parseNumberedOption (provider : String) (groups : ℕ → List Char) : Option ApprovalOption :=
  let n := ((atoi (groups 2)).getD 0).toNat
  let label := cleanNativeApprovalLabel (groups 3)
  let sendText := approvalShortcutSendText provider label
  if label = [] || n > approvalOptionNumMaxLabel then none
  else some ⟨n, label, groups 1 ≠ [], sendText, sendText ≠ []⟩

def parseNativeApprovalOption (provider : String) (line : Line) : Option ApprovalOption :=
  let trimmed := trimSpace (trim isBar (trimSpace line))
  if trimmed = [] then none else
  match numberedApprovalLineRe.findSubmatch trimmed with
  | some groups => parseNumberedOption provider groups
  | none =>
    if provider = "cursor-agent" then parseCursorAgentShortcutOption trimmed
    else if providerSupportsShortcutApproval provider then parseShortcutOption provider trimmed
    else none

/-! ### The menu -/

/-- The buttons of OpenCode: enter, and one or two steps to the right before it. -/
def openCodeOptions : List ApprovalOption :=
  [⟨1, "Allow once".toList, true, ['\r'], true⟩,
    ⟨2, "Allow always".toList, false, ['\x1b', '[', 'C', '\r'], true⟩,
    ⟨3, "Reject".toList, false, ['\x1b', '[', 'C', '\x1b', '[', 'C', '\r'], true⟩]

def extractOpenCodeApprovalOptions (lines : List Line) : Option (List ApprovalOption) :=
  if lines.any fun line => contains (toLower line) "allow once".toList then some openCodeOptions
  else none

def approvalOptionsHaveCursor (opts : List ApprovalOption) : Bool := opts.any (·.isCurrent)

def approvalOptionsHaveSendText (opts : List ApprovalOption) : Bool := opts.any (·.sendText ≠ [])

/-- `num:label:sendText`. -/
def optionKey (opt : ApprovalOption) : List Char :=
  (toString opt.num).toList ++ [':'] ++ opt.label ++ [':'] ++ opt.sendText

/-- Leaves out options whose key was there before. -/
def distinctOptions (seen : List (List Char)) : List ApprovalOption → List ApprovalOption
  | [] => []
  | opt :: opts =>
    if optionKey opt ∈ seen then distinctOptions seen opts
    else opt :: distinctOptions (optionKey opt :: seen) opts

/-- The option lines with their places, the first line being at place `k`. -/
def optionLines (provider : String) : ℕ → List Line → List (ApprovalOption × ℕ)
  | _, [] => []
  | k, line :: lines =>
    match parseNativeApprovalOption provider line with
    | some opt => (opt, k) :: optionLines provider (k + 1) lines
    | none => optionLines provider (k + 1) lines

/-- The options of a cluster of option lines, if it can be a menu. -/
def menuOptions (cluster : List (ApprovalOption × ℕ)) : Option (List ApprovalOption) :=
  let opts := distinctOptions [] (cluster.map (·.1))
  if cluster.length < 2 || opts.length < 2 || opts.length > approvalMaxOptions then none
  else if !approvalOptionsHaveCursor opts && !approvalOptionsHaveSendText opts then none
  else some opts

/-- The options of a cluster and the places of its first and last line. -/
def menuOf : List (ApprovalOption × ℕ) → Option (List ApprovalOption × ℕ × ℕ)
  | [] => none
  | first :: rest => (menuOptions (first :: rest)).map fun opts =>
      (opts, first.2, (rest.getLast?.getD first).2)

def extractNativeApprovalOptions (provider : String) (lines : List Line) :
    Option (List ApprovalOption × ℕ × ℕ) :=
  if provider = "opencode" then
    (extractOpenCodeApprovalOptions lines).map fun opts => (opts, 0, lines.length - 1)
  else menuOf (bestCluster Prod.snd approvalOptionGapLimit (optionLines provider 0 lines))

/-! ### The prompt -/

def looksLikeOpenCodeModelSelector (lines : List Line) : Bool :=
  let context := toLower (joinLines lines)
  contains context "select model".toList &&
    ["connect provider", "favorite", "opencode zen", "ollama (local)", "recent"].any fun token =>
      contains context token.toList

def looksLikeNativeAskUserQuestion (opts : List ApprovalOption) : Bool :=
  opts.any fun opt =>
    let label := toLower (trimSpace opt.label)
    hasPrefix label "type something".toList || hasPrefix label "chat about".toList

def nativeApprovalHints : List String :=
  ["approval", "allow tool", "allow this", "requires approval", "requires permission",
    "requires confirmation", "permission required", "permissions required", "user confirmation",
    "would you like to run", "do you want to proceed", "press enter to confirm", "enter to select",
    "esc to cancel"]

def nativeApprovalJaTokens : List String :=
  ["許可", "承認", "続行", "実行しますか", "よろしいですか", "確認してください"]

def cursorAgentHints : List String := ["allowlist", "run this command", "auto-run"]

def approvalLabelTokens : List String :=
  ["yes", "no", "allow", "deny", "once", "always", "all similar", "details", "proceed", "cancel",
    "don't ask", "dont ask", "(y)", "(n)", "(esc)"]

def hasApprovalHint (provider : String) (contextLines : List Line) : Bool :=
  let rawContext := joinLines contextLines
  let context := toLower rawContext
  (nativeApprovalHints.any fun token => contains context token.toList) ||
    (nativeApprovalJaTokens.any fun token => contains rawContext token.toList) ||
    (provider = "cursor-agent" && cursorAgentHints.any fun token => contains context token.toList)

def hasApprovalLabel (opts : List ApprovalOption) : Bool :=
  opts.any fun opt => approvalLabelTokens.any fun token => contains (toLower opt.label) token.toList

def nativeApprovalLooksValid (provider : String) (contextLines : List Line) (opts : List ApprovalOption) :
    Bool :=
  let hasHint := hasApprovalHint provider contextLines
  if providerSupportsShortcutApproval provider && approvalOptionsHaveSendText opts then hasHint
  else hasHint && hasApprovalLabel opts

/-- The last line above `n` that is not blank. -/
def lastNonBlank (lines : List Line) : ℕ → Option ℕ
  | 0 => none
  | n + 1 => if trimSpace (lines.getD n []) = [] then lastNonBlank lines n else some n

def nativeApprovalQuestion (contextLines : List Line) (optionStart : ℕ) : Line :=
  match lastNonBlank contextLines optionStart with
  | some i => trimSpace (contextLines.getD i [])
  | none => []

def compactRecentLines (lines : List Line) (limit : ℕ) : List Line :=
  (lines.drop (lines.length - limit)).map (trimRight (· = ' '))

/-- The lines around a menu. -/
def approvalContextLines (recent : List Line) (start last : ℕ) : List Line :=
  (recent.take (last + approvalContextAfter)).drop (start - approvalContextBefore)

def approvalKind (provider : String) (opts : List ApprovalOption) : String :=
  if !approvalOptionsHaveSendText opts then "native"
  else if provider = "codex" then "native_codex_shortcut"
  else if provider = "copilot" then "native_copilot_shortcut"
  else if provider = "cursor-agent" then "native_cursor_agent_shortcut"
  else if provider = "opencode" then "native_opencode_shortcut"
  else "native"

/-- The text whose sum is the signature. -/
def nativeApprovalSigText (provider kind : String) (question : Line) (context : List Char)
    (opts : List ApprovalOption) : List Char :=
  provider.toList ++ ['\n'] ++ kind.toList ++ ['\n'] ++ question ++ ['\n'] ++ context ++
    opts.flatMap fun opt => '\n' :: optionKey opt

variable (sha256Hex : List Char → List Char)

def detectNativeApproval (provider : String) (lines : List Line) : Option NativeApproval :=
  let recent := compactRecentLines lines approvalRecentLines
  match extractNativeApprovalOptions provider recent with
  | none => none
  | some (opts, start, last) =>
    let contextLines := approvalContextLines recent start last
    let context := joinLines contextLines
    let question := nativeApprovalQuestion contextLines (start - (start - approvalContextBefore))
    let kind := approvalKind provider opts
    if provider = "opencode" && looksLikeOpenCodeModelSelector contextLines then none
    else if !nativeApprovalLooksValid provider contextLines opts then none
    else if looksLikeNativeAskUserQuestion opts then none
    else some ⟨(sha256Hex (nativeApprovalSigText provider kind question context opts)).take 16, kind,
      question, context, opts, summarize question context⟩

end ManyAiCli.Hub
