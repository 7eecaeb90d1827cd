import Mathlib.Data.List.Basic
import Mathlib.Tactic.Common

/-! Quoted phrases joined by `AND`, as the query language of a full text index reads them. In a phrase, a
quote stands for itself when it is doubled; outside, words are operators. -/

namespace ManyAiCli.Text.Phrases

inductive Token
  | phrase (s : List Char)
  | word (s : List Char)
  deriving DecidableEq, Repr

/-- White space of the query language. -/
def isBlank (c : Char) : Bool := c = ' ' || c = '\t' || c = '\n' || c = '\r'

def isWordChar (c : Char) : Bool := c.isAlphanum || c = '_' || 127 < c.toNat

/-- Where the reader is: in a word, in a phrase, or after a quote in a phrase. -/
inductive Mode
  | between
  | word (s : List Char)
  | phrase (s : List Char)
  | quote (s : List Char)
  deriving DecidableEq, Repr

/-- What a character opens between two tokens. -/
def opens (c : Char) : Option Mode :=
  if c = '"' then some (.phrase [])
  else if isBlank c then some .between
  else if isWordChar c then some (.word [c])
  else none

/-- The tokens that end with a character, and where the reader goes on. -/
def advance (c : Char) : Mode → Option (List Token × Mode)
  | .between => (opens c).map fun m => ([], m)
  | .word s => if isWordChar c then some ([], .word (s ++ [c])) else (opens c).map fun m => ([.word s], m)
  | .phrase s => if c = '"' then some ([], .quote s) else some ([], .phrase (s ++ [c]))
  | .quote s => if c = '"' then some ([], .phrase (s ++ ['"'])) else (opens c).map fun m => ([.phrase s], m)

def finish : Mode → Option (List Token)
  | .between => some []
  | .word s => some [.word s]
  | .phrase _ => none
  | .quote s => some [.phrase s]

def tokens : Mode → List Char → Option (List Token)
  | m, [] => finish m
  | m, c :: cs => (advance c m).bind fun r => (tokens r.2 cs).map (r.1 ++ ·)

/-- The phrases of a conjunction. -/
def conjunction : List Token → Option (List (List Char))
  | [.phrase s] => some [s]
  | .phrase s :: .word w :: ts => if w = ['A', 'N', 'D'] then (conjunction ts).map (s :: ·) else none
  | _ => none

def phrases (s : List Char) : Option (List (List Char)) := (tokens .between s).bind conjunction

def quoted (s : List Char) : List Char := ['"'] ++ s.flatMap (fun c => if c = '"' then ['"', '"'] else [c]) ++ ['"']

variable {s rest : List Char} {ps : List (List Char)}

theorem map_nil_append {α : Type} (o : Option (List α)) : o.map ([] ++ ·) = o := by
  cases o <;> rfl

/-- The reader gets out of a phrase at its last quote. -/
theorem tokens_quoted_tail (acc s rest : List Char) :
    tokens (.phrase acc) (s.flatMap (fun c => if c = '"' then ['"', '"'] else [c]) ++ '"' :: rest) =
      tokens (.quote (acc ++ s)) rest := by
  induction s generalizing acc with
  | nil =>
    rw [List.flatMap_nil, List.nil_append, List.append_nil, tokens, advance, if_pos rfl, Option.bind_some]
    exact map_nil_append _
  | cons c s ih =>
    rw [List.flatMap_cons, List.append_assoc]
    split_ifs with hc
    · subst hc
      rw [List.cons_append, tokens, advance, if_pos rfl, Option.bind_some, List.cons_append, List.nil_append, tokens,
        advance, if_pos rfl, Option.bind_some, ih, List.append_assoc, Option.map_map]
      exact map_nil_append _
    · rw [List.cons_append, List.nil_append, tokens, advance, if_neg hc, Option.bind_some, ih, List.append_assoc]
      exact map_nil_append _

theorem tokens_quoted (s rest : List Char) : tokens .between (quoted s ++ rest) = tokens (.quote s) rest := by
  rw [quoted, List.append_assoc, List.append_assoc, List.cons_append, List.nil_append, tokens, advance, opens, if_pos rfl,
    Option.map_some, Option.bind_some]
  refine (map_nil_append _).trans ?_
  exact tokens_quoted_tail [] s rest

/-- After a phrase, ` AND ` goes on to the next one. -/
theorem tokens_and (s rest : List Char) :
    tokens (.quote s) ([' ', 'A', 'N', 'D', ' '] ++ rest) =
      (tokens .between rest).map fun ts => .phrase s :: .word ['A', 'N', 'D'] :: ts := by
  have hblank : advance ' ' (.quote s) = some ([.phrase s], .between) := rfl
  have ha : advance 'A' .between = some ([], .word ['A']) := by decide
  have hn : advance 'N' (.word ['A']) = some ([], .word ['A', 'N']) := by decide
  have hd : advance 'D' (.word ['A', 'N']) = some ([], .word ['A', 'N', 'D']) := by decide
  have hend : advance ' ' (.word ['A', 'N', 'D']) = some ([.word ['A', 'N', 'D']], .between) := by decide
  simp only [List.cons_append, List.nil_append, tokens, hblank, ha, hn, hd, hend, Option.bind_some, Option.map_map]
  rfl

/-- What has been quoted and joined is read back. -/
theorem phrases_intercalate (hne : ps ≠ []) :
    phrases ([' ', 'A', 'N', 'D', ' '].intercalate (ps.map quoted)) = some ps := by
  have htokens : ∀ p ps, ∃ ts, tokens .between ([' ', 'A', 'N', 'D', ' '].intercalate ((p :: ps).map quoted)) = some ts ∧
      conjunction ts = some (p :: ps) := by
    intro p ps
    induction ps generalizing p with
    | nil =>
      refine ⟨[.phrase p], ?_, rfl⟩
      rw [List.map_cons, List.map_nil, List.intercalate_singleton, ← List.append_nil (quoted p), tokens_quoted]
      rfl
    | cons q ps ih =>
      obtain ⟨ts, hts, hconj⟩ := ih q
      refine ⟨.phrase p :: .word ['A', 'N', 'D'] :: ts, ?_, ?_⟩
      · rw [List.map_cons, List.map_cons, List.intercalate_cons_cons, ← List.map_cons, List.append_assoc, tokens_quoted,
          tokens_and, hts]
        rfl
      · rw [conjunction, if_pos rfl, hconj]
        rfl
  cases ps with
  | nil => exact absurd rfl hne
  | cons p ps =>
    obtain ⟨ts, hts, hconj⟩ := htokens p ps
    rw [phrases, hts]
    exact hconj

end ManyAiCli.Text.Phrases
