import ManyAiCli.Text.Regexp
import ManyAiCli.Text.Strings

/-! The facts shown about a pending approval: its command, found behind a prefix on
the question or on a line of the context, and the risk tier of that command. -/

namespace ManyAiCli.Approval

open Text

inductive ApprovalRiskTier
  | low
  | mid
  | high
  deriving DecidableEq, Repr

structure ApprovalSummary where
  command : List Char
  risk : ApprovalRiskTier
  raw : List Char
  deriving DecidableEq, Repr

section Patterns

open Regexp

/-- Group 1 is the command. -/
def commandPrefixes : List Regexp :=
  [cat [bot, space.many, oneOf [litFold "run", litFold "command", litFold "bash command",
      litFold "shell command"], space.many, lit ":", space.many, group 1 dot.many1, eot],
    cat [bot, space.many, litFold "not in allowlist", space.many, lit ":", space.many,
      group 1 dot.many1, eot],
    cat [bot, space.many, oneOf [litFold "execute", litFold "executing"], space.many1,
      group 1 dot.many1, eot]]

end Patterns

/-- Each run of spaces becomes one, `squeezed` telling that this one is done. -/
def squeezeSpaces (squeezed : Bool) : List Char → List Char
  | [] => []
  | c :: cs =>
    if Regexp.isReSpace c then if squeezed then squeezeSpaces true cs else ' ' :: squeezeSpaces true cs
    else c :: squeezeSpaces false cs

def compact (value : List Char) : List Char := trimSpace (squeezeSpaces false value)

/-- The command behind a prefix on the line. -/
def prefixedCommand (line : List Char) : Option (List Char) :=
  let line := trimSpace line
  (commandPrefixes.findSome? fun pattern => pattern.findSubmatch line).map fun groups => compact (groups 1)

def extractCommand (question context : List Char) : List Char :=
  ((question :: splitLines context).findSome? prefixedCommand).getD (compact question)

def highSignals : List String :=
  ["rm -rf", "rmdir /s", "del /s", "remove-item -recurse", "git reset --hard",
    "git clean -", "push --force", "push -f", "sudo ", "doas ", "mkfs", "dd ",
    "shutdown", "reboot", "format ", "curl |", "wget |", "chmod -r", "chown -r"]

def lowPrefixes : List String :=
  ["cat ", "head ", "tail ", "ls", "dir", "pwd", "git status", "git diff",
    "git log", "git show", "git branch", "find ", "rg ", "grep ", "type "]

def classifyRisk (command : List Char) : ApprovalRiskTier :=
  let value := toLower (trimSpace command)
  if value = [] then .mid
  else if highSignals.any fun signal => contains value signal.toList then .high
  else if lowPrefixes.any fun pre => value = trimSpace pre.toList || hasPrefix value pre.toList then .low
  else .mid

def summarize (question context : List Char) : ApprovalSummary :=
  let command := extractCommand question context
  ⟨command, classifyRisk command, trimSpace context⟩

example : summarize "Command requires approval".toList
    "Command requires approval\nRun: rm -rf ./dist ./tmp\n".toList =
      ⟨"rm -rf ./dist ./tmp".toList, .high,
        "Command requires approval\nRun: rm -rf ./dist ./tmp".toList⟩ := by decide

end ManyAiCli.Approval
