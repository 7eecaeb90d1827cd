import ManyAiCli.Text.Replace

/-! The masking of secrets in what a terminal puts out, pattern by pattern. -/

namespace ManyAiCli.SessionLog

open Text Text.Regexp

/-! ### Patterns -/

/-- A class of characters under `(?i)`. -/
def foldChars (p : Char → Bool) : Regexp :=
  char fun c => p c || p c.toUpper || (c = '\u017F' && p 'S') || (c = '\u212A' && p 'K')

def nonSpace : Regexp := char fun c => !isReSpace c

/-- At least so many rounds. -/
def atLeast (n : ℕ) (a : Regexp) : Regexp := cat (List.replicate n a ++ [many a])

def exactly (n : ℕ) (a : Regexp) : Regexp := cat (List.replicate n a)

def isUpper (c : Char) : Bool := 'A' ≤ c && c ≤ 'Z'

def isDigit (c : Char) : Bool := '0' ≤ c && c ≤ '9'

def isAlnum (c : Char) : Bool := isUpper c || ('a' ≤ c && c ≤ 'z') || isDigit c

/-- Letters, digits and the characters given. -/
def alnumOr (cs : List Char) : Regexp := char fun c => isAlnum c || cs.contains c

/-- An assignment of an API key; the name is group 1. -/
def apiKeyRE : Regexp :=
  seq (group 1 (cat [many (foldChars fun c => isUpper c || c = '_'), litFold "api_key="])) (many1 nonSpace)

/-- An assignment of a password, a secret or a token; the name is group 1. -/
def passwordRE : Regexp :=
  seq
    (group 1 (cat [
      opt (cat [many1 (foldChars fun c => isUpper c || isDigit c), lit "_"]),
      oneOf [litFold "password", litFold "passwd", litFold "pwd", litFold "secret", litFold "access_key",
        litFold "secret_key", litFold "auth_token", litFold "api_token", litFold "access_token"],
      many space, chars ['=', ':'], many space]))
    (atLeast 6 nonSpace)

def skRE : Regexp := cat [lit "sk-", opt (lit "ant-"), atLeast 20 (alnumOr ['_', '-'])]

def githubRE : Regexp :=
  cat [oneOf [lit "ghp_", lit "gho_", lit "ghu_", lit "ghs_", lit "ghr_", lit "github_pat_"],
    atLeast 20 (alnumOr ['_'])]

def gitlabRE : Regexp := cat [lit "glpat-", atLeast 20 (alnumOr ['_', '-'])]

def slackRE : Regexp :=
  cat [lit "xox", chars ['a', 'b', 'p', 'r', 's'], lit "-", atLeast 20 (alnumOr ['-'])]

def googleRE : Regexp := cat [lit "AIza", atLeast 20 (alnumOr ['_', '-'])]

def huggingFaceRE : Regexp := cat [lit "hf_", atLeast 20 (alnumOr [])]

def bearerRE : Regexp := seq (group 1 (litFold "bearer ")) (atLeast 8 nonSpace)

def awsRE : Regexp :=
  cat [oneOf [lit "AKIA", lit "ASIA", lit "AROA"], exactly 16 (char fun c => isUpper c || isDigit c)]

def pemName : Regexp := many (char fun c => isUpper c || isDigit c || c = ' ')

def pemRE : Regexp :=
  cat [lit "-----BEGIN ", pemName, lit "PRIVATE KEY-----", star (char fun _ => true) false,
    lit "-----END ", pemName, lit "PRIVATE KEY-----"]

/-- A URL with credentials; group 2 is the password. -/
def urlRE : Regexp :=
  let part := many1 (char fun c => !isReSpace c && c != ':' && c != '/' && c != '@')
  cat [
    group 1 (cat [char fun c => isUpper c || ('a' ≤ c && c ≤ 'z'), many (alnumOr ['+', '.', '-']), lit "://",
      part, lit ":"]),
    group 2 part, group 3 (lit "@")]

/-- How much of a match stays. -/
inductive Keep
  | nothing
  /-- Up to the end of group 1, which is at the front. -/
  | group1
  /-- Group 1 at the front and group 3 at the end. -/
  | groups13
  deriving DecidableEq, Repr

structure Pattern where
  re : Regexp
  keep : Keep

def secretPatterns : List Pattern := [
  ⟨apiKeyRE, .group1⟩, ⟨passwordRE, .group1⟩, ⟨skRE, .nothing⟩, ⟨githubRE, .nothing⟩, ⟨gitlabRE, .nothing⟩,
  ⟨slackRE, .nothing⟩, ⟨googleRE, .nothing⟩, ⟨huggingFaceRE, .nothing⟩, ⟨bearerRE, .group1⟩,
  ⟨awsRE, .nothing⟩, ⟨pemRE, .nothing⟩]

def secretGroup2Patterns : List Pattern := [⟨urlRE, .groups13⟩]

/-! ### Masking -/

section Masking

variable {α : Type} (val : α → Char) (stars : List α)

/-- The length of a group in the match that begins the text. -/
def groupLength (re : Regexp) (m : List α) (n : ℕ) : ℕ :=
  match findSubmatch re (m.map val) with
  | some groups => (groups n).length
  | none => 0

/-- How many symbols of a match stay at its front and at its end. -/
def kept (p : Pattern) (m : List α) : ℕ × ℕ :=
  match p.keep with
  | .nothing => (0, 0)
  | .group1 => (groupLength val p.re m 1, 0)
  | .groups13 => (groupLength val p.re m 1, groupLength val p.re m 3)

/-- A match with stars for its secret. -/
def maskMatch (p : Pattern) (m : List α) : List α :=
  m.take (kept val p m).1 ++ stars ++ m.drop (m.length - (kept val p m).2)

def maskPattern (p : Pattern) (s : List α) : List α := replaceAllFunc val p.re (maskMatch val stars p) 0 s

def maskAll (s : List α) : List α :=
  (secretPatterns ++ secretGroup2Patterns).foldl (fun s p => maskPattern val stars p s) s

theorem maskMatch_ne_nil (hstars : stars ≠ []) (p : Pattern) (m : List α) : maskMatch val stars p m ≠ [] := by
  intro h
  exact hstars (List.append_eq_nil_iff.mp (List.append_eq_nil_iff.mp h).1).2

theorem foldl_maskPattern_ne_nil (hstars : stars ≠ []) (ps : List Pattern) {s : List α} (hs : s ≠ []) :
    ps.foldl (fun s p => maskPattern val stars p s) s ≠ [] := by
  induction ps generalizing s with
  | nil => exact hs
  | cons p ps ih => exact ih (replaceAllFunc_ne_nil val p.re (maskMatch_ne_nil val stars hstars p) hs)

end Masking

/-- `MaskSecrets`, on the runes of a text. -/
def maskSecrets (s : List Char) : List Char := maskAll id ['*', '*', '*'] s

theorem maskSecrets_ne_nil {s : List Char} (hs : s ≠ []) : maskSecrets s ≠ [] :=
  foldl_maskPattern_ne_nil id _ (List.cons_ne_nil _ _) _ hs

end ManyAiCli.SessionLog
