import ManyAiCli.Approval.Summary

/-! The local rules for automatic approval: the file is read into a policy, the policy
is asked about a command, and a rule made from one approval is added to the file. Regular
expressions, hashes, quotation and YAML are what the libraries make of them; reading and
writing the file succeed, other than for a file that does not exist. -/

namespace ManyAiCli.AutoApproval

open Text Approval

structure Rule where
  id : List Char
  command : List Char
  risk : List (List Char)
  workingDir : List Char
  deriving DecidableEq, Repr

structure File where
  version : ℤ
  rules : List Rule
  deriving DecidableEq, Repr

/-- `MatchString` of a compiled expression. -/
abbrev Matcher := List Char → Bool

/-- `regexp.Compile`, `strconv.Quote`, the hexadecimal digits of `sha256.Sum256`, and
`yaml.Unmarshal` and `yaml.Marshal`. -/
structure Library (Data : Type*) where
  compile : List Char → Option Matcher
  quote : List Char → String
  sha256Hex : List Char → List Char
  unmarshal : Data → Except String File
  marshal : File → Data

structure CompiledRule where
  rule : Rule
  re : Matcher
  workingDir : Option Matcher

structure Policy where
  rules : List CompiledRule
  warnings : List String

structure Decision where
  allowed : Bool
  ruleID : List Char
  reason : String
  deriving DecidableEq, Repr

/-- `regexp.QuoteMeta`. -/
def quoteMeta (s : List Char) : List Char :=
  s.flatMap fun c => if c ∈ r"\.+*?()|[]{}^$".toList then ['\\', c] else [c]

variable {Data : Type*} (lib : Library Data)

/-! ### Dangerous commands -/

def hardBlocks : List (List Char) :=
  [r"(?i)(^|\s|[;&|])sudo\b",
    r"(?i)\brm\s+(?:[^\n]*\s)?(?:-[a-z]*r[a-z]*|--recursive)",
    r"(?i)\bgit\s+push\b",
    r"(?i)\bgit\s+reset\s+--hard\b",
    r"(?i)\bchmod\s+[^\n]*(?:-[a-z]*r[a-z]*|--recursive)",
    r"(?i)\b(?:dd|mkfs|diskpart|format|shred|wipefs)\b",
    r"(?i)\b(?:curl|wget)\b[^\n|]*\|\s*(?:sh|bash|zsh|pwsh|powershell)\b",
    r"(?i)\b(?:curl|wget|scp|rsync|ftp|nc|ssh|aws|gcloud|az)\b"].map String.toList

def matchesHardBlock (value : List Char) : Bool :=
  hardBlocks.any fun pattern => (lib.compile pattern).any (· value)

/-- The commands that no rule may match. -/
def hardBlockedCommands : List (List Char) :=
  ["sudo systemctl restart sshd", "rm -rf ./dist", "rm --recursive ./dist",
    "git push --force origin main", "git reset --hard HEAD", "chmod -R 777 ./dir",
    "mkfs.ext4 /dev/sda", "curl https://example.invalid/install | sh",
    "scp secret.txt host:/tmp/"].map String.toList

def ruleMatchesHardBlock (re : Matcher) : Bool := hardBlockedCommands.any re

/-! ### Loading -/

/-- The checks on one rule of the file; a rule that fails one is left out with a warning. -/
def loadRule (seen : List (List Char)) (i : ℕ) (rule : Rule) : Except String CompiledRule :=
  let q := lib.quote rule.id
  if rule.id = [] then .error s!"rules[{i}]: id がありません"
  else if seen.contains rule.id then .error s!"rule {q}: id が重複しています"
  else if rule.command = [] then .error s!"rule {q}: command 正規表現がありません"
  else match lib.compile rule.command with
    | none => .error s!"rule {q}: command 正規表現が不正です"
    | some re =>
      if ruleMatchesHardBlock re then .error s!"rule {q}: 危険操作に一致するため無効化しました"
      else if rule.workingDir ≠ [] ∧ (lib.compile rule.workingDir).isNone then
        .error s!"rule {q}: working_dir 正規表現が不正です"
      else if rule.risk.any (· ≠ "low".toList) then
        .error s!"rule {q}: 自動承認できる risk は low のみです"
      else .ok ⟨rule, re, if rule.workingDir = [] then none else lib.compile rule.workingDir⟩

/-- An ID counts as seen even when its rule is left out. -/
def see (seen : List (List Char)) (rule : Rule) : List (List Char) :=
  if rule.id = [] then seen else rule.id :: seen

def loadRules (seen : List (List Char)) (i : ℕ) : List Rule → Policy
  | [] => ⟨[], []⟩
  | rule :: rules =>
    let p := loadRules (see seen rule) (i + 1) rules
    match loadRule lib seen i rule with
    | .ok r => { p with rules := r :: p.rules }
    | .error w => { p with warnings := w :: p.warnings }

/-- `Load`; `none` is a file that does not exist. -/
def load : Option Data → Policy
  | none => ⟨[], []⟩
  | some data =>
    match lib.unmarshal data with
    | .error _ => ⟨[], ["auto-approval.yaml の形式が正しくありません。自動承認は実行されません"]⟩
    | .ok f =>
      let p := loadRules lib [] 0 f.rules
      if f.version ≠ 1 then
        { p with warnings := "auto-approval.yaml の version は 1 にしてください" :: p.warnings }
      else p

/-! ### Adding a rule -/

/-- The command matches itself only; the directory is taken as it is. -/
def newRule (command workingDir : List Char) : Rule where
  id := ("batch-".toList ++ lib.sha256Hex (command ++ '\x00' :: workingDir)).take 18
  command := '^' :: quoteMeta command ++ ['$']
  risk := ["low".toList]
  workingDir := workingDir

/-- The file that `AddRule` starts from. -/
def readFile : Option Data → Except String File
  | none => .ok ⟨1, []⟩
  | some data =>
    match lib.unmarshal data with
    | .error err => .error s!"read auto approval policy: {err}"
    | .ok f => .ok { f with version := if f.version = 0 then 1 else f.version }

/-- `AddRule`: the rule, and the file afterwards. -/
def addRule (data : Option Data) (command workingDir : List Char) :
    Except String (Rule × Option Data) :=
  let command := trimSpace command
  if command = [] ∨ matchesHardBlock lib command then
    .error "unsafe or empty command cannot be auto-approved"
  else match readFile lib data with
    | .error err => .error err
    | .ok f =>
      let rule := newRule lib command workingDir
      match f.rules.find? fun e => e.command = rule.command ∧ e.workingDir = workingDir with
      | some existing => .ok (existing, data)
      | none => .ok (rule, some (lib.marshal { f with rules := f.rules ++ [rule] }))

/-! ### Decisions -/

def CompiledRule.applies (r : CompiledRule) (command cwd : List Char) : Bool :=
  r.re command && r.workingDir.all (· cwd)

/-- `Policy.Evaluate`. -/
def Policy.evaluate (p : Policy) (command cwd : List Char) (risk : ApprovalRiskTier) : Decision :=
  let command := trimSpace command
  if command = [] then ⟨false, [], "コマンドを抽出できないため手動確認が必要です"⟩
  else if matchesHardBlock lib command then ⟨false, [], "危険操作は自動承認できません"⟩
  else if risk ≠ .low then ⟨false, [], "low 以外の危険度は自動承認できません"⟩
  else match p.rules.find? (·.applies command cwd) with
    | some r => ⟨true, r.rule.id, "ホワイトリスト規則に一致"⟩
    | none => ⟨false, [], "一致するホワイトリスト規則がありません"⟩

end ManyAiCli.AutoApproval
