import Mathlib.Data.List.Basic
import Mathlib.Tactic.Common

/-! Regular expressions with groups, as backtracking searches. The matches of an
expression at one place are listed in the order in which they are preferred, so the
first match at the first place that has one is the leftmost-first match of Perl's and
Go's engines. A repetition stops before a round that takes no text. -/

namespace ManyAiCli.Text

inductive Regexp
  | empty
  | char (p : Char → Bool)
  | seq (a b : Regexp)
  /-- Prefers `a`. -/
  | alt (a b : Regexp)
  | star (a : Regexp) (greedy : Bool)
  | group (n : ℕ) (a : Regexp)
  /-- The beginning and the end of the text. -/
  | bot
  | eot

namespace Regexp

/-- A place in the text and the groups found on the way, the latest first. -/
structure Cursor where
  pos : ℕ
  rest : List Char
  groups : List (ℕ × List Char)

/-- Up to `n` rounds of a search. -/
def rounds (search : Cursor → List Cursor) (greedy : Bool) : ℕ → Cursor → List Cursor
  | 0, c => [c]
  | n + 1, c =>
    let more := ((search c).filter fun d => c.pos < d.pos).flatMap (rounds search greedy n)
    if greedy then more ++ [c] else c :: more

/-- The places where a match from the cursor may end. -/
def ends : Regexp → Cursor → List Cursor
  | empty, c => [c]
  | char p, ⟨pos, r :: rest, groups⟩ => if p r then [⟨pos + 1, rest, groups⟩] else []
  | char _, ⟨_, [], _⟩ => []
  | seq a b, c => (ends a c).flatMap (ends b)
  | alt a b, c => ends a c ++ ends b c
  | star a greedy, c => rounds (ends a) greedy c.rest.length c
  | group n a, c => (ends a c).map fun d => { d with groups := (n, c.rest.take (d.pos - c.pos)) :: d.groups }
  | bot, c => if c.pos = 0 then [c] else []
  | eot, c => if c.rest = [] then [c] else []

/-- The first match in what is left of a text. -/
def search (re : Regexp) (pos : ℕ) : List Char → Option Cursor
  | [] => (ends re ⟨pos, [], []⟩).head?
  | r :: rest =>
    match (ends re ⟨pos, r :: rest, []⟩).head? with
    | some c => some c
    | none => search re (pos + 1) rest

/-- `FindStringSubmatch`: the text of each group, empty for a group without a match. -/
def findSubmatch (re : Regexp) (s : List Char) : Option (ℕ → List Char) :=
  (search re 0 s).map fun c n => (c.groups.lookup n).getD []

/-! ### Usual expressions -/

def cat : List Regexp → Regexp
  | [] => empty
  | [a] => a
  | a :: as => seq a (cat as)

def oneOf : List Regexp → Regexp
  | [] => char fun _ => false
  | [a] => a
  | a :: as => alt a (oneOf as)

def opt (a : Regexp) : Regexp := alt a empty

def many (a : Regexp) : Regexp := star a true

def many1 (a : Regexp) : Regexp := seq a (star a true)

/-- At least one round, but as few as possible. -/
def few1 (a : Regexp) : Regexp := seq a (star a false)

/-- `.`, `\s` and `\d`. -/
def dot : Regexp := char (· ≠ '\n')

def isReSpace (c : Char) : Bool := c = ' ' || c = '\t' || c = '\n' || c = '\r' || c = '\x0c'

def space : Regexp := char isReSpace

def digit : Regexp := char Char.isDigit

def chars (cs : List Char) : Regexp := char (· ∈ cs)

def lit (s : String) : Regexp := cat (s.toList.map fun l => char (· = l))

/-- The letter and what folds to it; `l` is in lower case. -/
def foldEq (l c : Char) : Bool :=
  c.toLower = l || (l = 's' && c = '\u017F') || (l = 'k' && c = '\u212A')

/-- A literal under `(?i)`. -/
def litFold (s : String) : Regexp := cat (s.toList.map fun l => char (foldEq l))

end Regexp

end ManyAiCli.Text
