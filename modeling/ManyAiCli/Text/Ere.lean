import ManyAiCli.Text.Regexp
import Mathlib.Data.List.Infix

/-! The extended regular expressions of POSIX, as far as they go without brackets and intervals, and
what a literal among them finds. -/

namespace ManyAiCli.Text.Ere

open Regexp

/-! ### Reading a pattern -/

inductive Token
  | lit (c : Char)
  | op (c : Char)

/-- The runes that are operators without a backslash. -/
def specials : List Char := "^.[$()|*+?\x7b".toList

/-- A backslash makes a literal of an operator, of itself and of what closes brackets and intervals;
before other runes it is left out. -/
def tokens : List Char → Option (List Token)
  | [] => some []
  | ['\\'] => none
  | '\\' :: c :: s => if c ∈ '\\' :: ']' :: '\x7d' :: specials then (tokens s).map (.lit c :: ·) else none
  | c :: s => (tokens s).map ((if c ∈ specials then .op c else .lit c) :: ·)

/-- What is read of a group: the branches before the last, and the parts of that, the latest first. -/
structure Frame where
  branches : List Regexp
  parts : List Regexp

def Frame.branch (f : Frame) : Regexp := cat f.parts.reverse

def Frame.close (f : Frame) : Regexp := oneOf (f.branches ++ [f.branch])

def Frame.push (f : Frame) (part : Regexp) : Frame := { f with parts := part :: f.parts }

/-- The latest part again and again; there has to be one. -/
def Frame.repeatLast (f : Frame) (c : Char) : Option Frame :=
  match f.parts with
  | [] => none
  | a :: parts => some
    { f with parts := (if c = '*' then many a else if c = '+' then many1 a else opt a) :: parts }

def exactly (l : Char) : Regexp := char (· = l)

/-- In a group, with the frames of the groups around it. -/
def parseTokens (f : Frame) (around : List Frame) : List Token → Option Regexp
  | [] => if around.isEmpty then some f.close else none
  | .lit c :: ts => parseTokens (f.push (exactly c)) around ts
  | .op c :: ts =>
    if c = '(' then parseTokens ⟨[], []⟩ (f :: around) ts
    else if c = ')' then
      match around with
      | [] => parseTokens (f.push (exactly c)) [] ts
      | g :: around => parseTokens (g.push f.close) around ts
    else if c = '|' then parseTokens ⟨f.branches ++ [f.branch], []⟩ around ts
    else if c = '.' then parseTokens (f.push (char fun _ => true)) around ts
    else if c = '^' then parseTokens (f.push bot) around ts
    else if c = '$' then parseTokens (f.push eot) around ts
    else if c = '*' ∨ c = '+' ∨ c = '?' then
      match f.repeatLast c with
      | none => none
      | some g => parseTokens g around ts
    else none

def parse (pattern : List Char) : Option Regexp := (tokens pattern).bind (parseTokens ⟨[], []⟩ [])

/-- Whether a pattern that can be read is found anywhere in a text. -/
def finds (pattern s : List Char) : Bool := (parse pattern).any fun re => (re.search 0 s).isSome

/-! ### Literals -/

def literal (s : List Char) : Regexp := cat (s.map exactly)

theorem ends_cat_cons (a : Regexp) (as : List Regexp) (c : Cursor) :
    ends (cat (a :: as)) c = (ends a c).flatMap (ends (cat as)) := by
  cases as with
  | nil =>
    have hEmpty : ends (cat []) = fun c => [c] := rfl
    rw [hEmpty, List.flatMap_singleton']
    rfl
  | cons b as => rfl

theorem ends_literal (s : List Char) (pos : ℕ) (t : List Char) (groups : List (ℕ × List Char)) :
    ends (literal s) ⟨pos, t, groups⟩ = if s <+: t then [⟨pos + s.length, t.drop s.length, groups⟩]
      else [] := by
  induction s generalizing pos t with
  | nil => simp [literal, cat, ends]
  | cons l s ih =>
    rw [literal, List.map_cons, ends_cat_cons]
    cases t with
    | nil => simp [ends, exactly]
    | cons r t =>
      by_cases hr : r = l
      · subst hr
        have hStep : ends (exactly r) ⟨pos, r :: t, groups⟩ = [⟨pos + 1, t, groups⟩] := by simp [ends, exactly]
        rw [hStep, List.flatMap_singleton, ← literal, ih, List.length_cons, List.drop_succ_cons,
          Nat.add_right_comm, ← Nat.add_assoc]
        simp only [List.cons_prefix_cons, true_and]
      · have hStep : ends (exactly l) ⟨pos, r :: t, groups⟩ = [] := by simp [ends, exactly, hr]
        rw [hStep, List.flatMap_nil, if_neg fun h => hr (List.cons_prefix_cons.1 h).1.symm]

/-- A literal is found where the text stands. -/
theorem search_literal (s : List Char) (pos : ℕ) (t : List Char) :
    (search (literal s) pos t).isSome = true ↔ s <:+: t := by
  induction t generalizing pos with
  | nil =>
    rw [search, ends_literal, List.infix_nil]
    by_cases hs : s = []
    · simp [hs]
    · simp [hs, List.prefix_nil]
  | cons r t ih =>
    rw [search, ends_literal, List.infix_cons_iff]
    by_cases hs : s <+: r :: t
    · simp [hs]
    · simp [hs, ih]

theorem tokens_cons {c : Char} (h : c ≠ '\\') (s : List Char) :
    tokens (c :: s) = (tokens s).map ((if c ∈ specials then .op c else .lit c) :: ·) := by
  rw [tokens]
  · exact fun hc => absurd hc h
  · exact fun _ _ hc => absurd hc h

/-- Runes without a meaning of their own. -/
theorem tokens_ordinary {s : List Char} (h : ∀ c ∈ s, c ≠ '\\' ∧ c ∉ specials) :
    tokens s = some (s.map .lit) := by
  induction s with
  | nil => rfl
  | cons c s ih =>
    obtain ⟨⟨hSlash, hSpecial⟩, hs⟩ := List.forall_mem_cons.1 h
    rw [tokens_cons hSlash, if_neg hSpecial, ih hs]
    rfl

theorem parseTokens_lits (s : List Char) (parts : List Regexp) :
    parseTokens ⟨[], parts⟩ [] (s.map .lit) = some (cat (parts.reverse ++ s.map exactly)) := by
  induction s generalizing parts with
  | nil => simp [parseTokens, Frame.close, Frame.branch, oneOf]
  | cons c s ih =>
    rw [List.map_cons, parseTokens, Frame.push, ih]
    simp

/-- A pattern of literals finds the text they spell. -/
theorem finds_iff {pattern s : List Char} (h : tokens pattern = some (s.map .lit)) (t : List Char) :
    finds pattern t = true ↔ s <:+: t := by
  rw [finds, parse, h, Option.bind_some, parseTokens_lits, Option.any_some]
  exact search_literal s 0 t

end ManyAiCli.Text.Ere
