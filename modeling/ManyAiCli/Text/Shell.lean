import Mathlib.Data.List.Forall2
import Mathlib.Tactic.Common

/-! How a POSIX shell reads a command line: token recognition with quote removal, and
the simple commands between the control operators. Expansions, redirections, comments
and compound commands are left out: a line that has them is not read. -/

namespace ManyAiCli.Text.Shell

/-- The control operators. -/
inductive Op
  | newline
  | seq
  | background
  | andIf
  | orIf
  | pipe
  deriving DecidableEq, Repr

inductive Token
  | word (w : List Char)
  | op (o : Op)
  deriving DecidableEq, Repr

inductive Quote
  | plain
  | single
  | double
  deriving DecidableEq, Repr

/-- Unquoted characters that start something left out. -/
def isLeftOut (c : Char) : Bool := "$`*?[]#~\x7b\x7d!^<>()".toList.contains c

/-- A character that stands for itself in a word. -/
def isOrdinary (c : Char) : Bool := !isLeftOut c && !" \t\n;&|'\"\\".toList.contains c

/-- The word that ends here, if one has begun. -/
def endWord (cur : Option (List Char)) (ts : List Token) : List Token :=
  match cur with
  | none => ts
  | some w => .word w :: ts

def push (cur : Option (List Char)) (w : List Char) : Option (List Char) := some (cur.getD [] ++ w)

/-- Token recognition; `cur` is the word so far, without its quotes. -/
def lex : Quote → Option (List Char) → List Char → Option (List Token)
  | .plain, cur, [] => some (endWord cur [])
  | .single, _, [] => none
  | .double, _, [] => none
  | .plain, cur, c :: s =>
    if isOrdinary c then lex .plain (push cur [c]) s
    else if c = ' ' ∨ c = '\t' then (lex .plain none s).map (endWord cur)
    else if c = '\'' then lex .single (push cur []) s
    else if c = '"' then lex .double (push cur []) s
    else if c = '\\' then
      match s with
      | [] => none
      | d :: s => if d = '\n' then lex .plain cur s else lex .plain (push cur [d]) s
    else if c = '\n' then (lex .plain none s).map fun ts => endWord cur (.op .newline :: ts)
    else if c = ';' then (lex .plain none s).map fun ts => endWord cur (.op .seq :: ts)
    else if c = '&' then
      match s with
      | [] => some (endWord cur [.op .background])
      | d :: s' =>
        if d = '&' then (lex .plain none s').map fun ts => endWord cur (.op .andIf :: ts)
        else (lex .plain none (d :: s')).map fun ts => endWord cur (.op .background :: ts)
    else if c = '|' then
      match s with
      | [] => none
      | d :: s' =>
        if d = '|' then (lex .plain none s').map fun ts => endWord cur (.op .orIf :: ts)
        else (lex .plain none (d :: s')).map fun ts => endWord cur (.op .pipe :: ts)
    else none
  | .single, cur, c :: s => if c = '\'' then lex .plain cur s else lex .single (push cur [c]) s
  | .double, cur, c :: s =>
    if c = '"' then lex .plain cur s
    else if c = '$' ∨ c = '`' then none
    else if c = '\\' then
      match s with
      | [] => none
      | d :: s =>
        if d = '\n' then lex .double cur s
        else if "$`\"\\".toList.contains d then lex .double (push cur [d]) s
        else lex .double (push cur ['\\', d]) s
    else lex .double (push cur [c]) s

/-- A simple command with the operator after it. -/
structure Command where
  words : List (List Char)
  ends : Option Op := none
  deriving DecidableEq, Repr

def reservedWords : List String :=
  ["!", "\x7b", "\x7d", "case", "do", "done", "elif", "else", "esac", "fi", "for", "if", "in", "then", "until",
    "while", "[[", "]]", "function", "select", "time", "coproc"]

/-- A first word that names a command: no reserved word and no assignment. -/
def isName (w : List Char) : Bool := w ≠ [] && !w.contains '=' && !reservedWords.any (·.toList = w)

/-- The simple commands of the tokens; `ws` are the words of the one at hand. -/
def commands : List (List Char) → List Token → Option (List Command)
  | ws, [] => some (if ws = [] then [] else [⟨ws, none⟩])
  | ws, .word w :: ts => if ws = [] ∧ isName w = false then none else commands (ws ++ [w]) ts
  | ws, .op o :: ts =>
    if ws = [] then if o = .newline then commands [] ts else none
    else if ts = [] ∧ (o = .andIf ∨ o = .orIf ∨ o = .pipe) then none
    else (commands [] ts).map (⟨ws, some o⟩ :: ·)

def parse (s : List Char) : Option (List Command) := (lex .plain none s).bind (commands [])

variable {cur : Option (List Char)} {c : Char} {s t t' w w' : List Char}

section Lex

attribute [local simp] lex

@[simp] theorem push_push : push (push cur w) w' = push cur (w ++ w') := by simp [push]

theorem lex_ordinary (h : isOrdinary c = true) :
    lex .plain cur (c :: s) = lex .plain (push cur [c]) s := by
  rw [lex.eq_def]
  exact if_pos h

theorem lex_blank : lex .plain cur (' ' :: s) = (lex .plain none s).map (endWord cur) := by
  rw [lex.eq_def]
  rfl

theorem lex_open : lex .plain cur ('\'' :: s) = lex .single (push cur []) s := by
  rw [lex.eq_def]
  rfl

theorem lex_single (h : c ≠ '\'') : lex .single cur (c :: s) = lex .single (push cur [c]) s := by
  simp [h]

theorem lex_close : lex .single cur ('\'' :: s) = lex .plain cur s := by
  simp

theorem lex_escape (h : c ≠ '\n') : lex .plain cur ('\\' :: c :: s) = lex .plain (push cur [c]) s := by
  rw [lex, if_neg (by decide), if_neg (by decide), if_neg (by decide), if_neg (by decide), if_pos rfl,
    if_neg h]

theorem lex_andIf : lex .plain cur ('&' :: '&' :: s) =
    (lex .plain none s).map fun ts => endWord cur (.op .andIf :: ts) := by
  rw [lex, if_neg (by decide), if_neg (by decide), if_neg (by decide), if_neg (by decide),
    if_neg (by decide), if_neg (by decide), if_neg (by decide), if_pos rfl, if_pos rfl]

end Lex

/-! ### Texts that are part of a word -/

/-- Where the text stands in a line, the word gets `w`. -/
def Reads (t w : List Char) : Prop := ∀ cur s, lex .plain cur (t ++ s) = lex .plain (push cur w) s

theorem Reads.append (h : Reads t w) (h' : Reads t' w') : Reads (t ++ t') (w ++ w') := by
  intro cur s
  rw [List.append_assoc, h, h', push_push]

theorem reads_ordinary (h : t.all isOrdinary = true) (hne : t ≠ []) : Reads t t := by
  induction t with
  | nil => exact absurd rfl hne
  | cons c t ih =>
    obtain ⟨hc, ht⟩ := List.all_cons.symm.trans h |> Bool.and_eq_true_iff.1
    have h1 : Reads [c] [c] := fun cur s => lex_ordinary hc
    rcases eq_or_ne t [] with rfl | hne
    · exact h1
    · exact h1.append (ih ht hne)

/-- A word as a whole. -/
theorem lex_word (h : Reads t w) : lex .plain none t = some [.word w] := by
  have := h none []
  rw [List.append_nil] at this
  rw [this]
  rfl

theorem lex_word_blank (h : Reads t w) :
    lex .plain none (t ++ ' ' :: s) = (lex .plain none s).map (.word w :: ·) := by
  rw [h, lex_blank]
  rfl

/-- Texts joined with blanks are read as their words. -/
theorem lex_intercalate {ts ws : List (List Char)} (h : List.Forall₂ Reads ts ws) :
    lex .plain none ([' '].intercalate ts) = some (ws.map .word) := by
  induction h with
  | nil => rfl
  | @cons t w ts ws ht h ih =>
    rcases ts with _ | ⟨t', ts⟩
    · cases h
      exact (congrArg _ (List.intercalate_singleton)).trans (lex_word ht)
    · rw [List.intercalate_cons_cons, List.append_assoc, List.singleton_append, lex_word_blank ht, ih]
      rfl

/-- The words of one simple command. -/
theorem commands_words {ws ws' : List (List Char)} (hne : ws ≠ []) (ts : List Token) :
    commands ws (ws'.map .word ++ ts) = commands (ws ++ ws') ts := by
  induction ws' generalizing ws with
  | nil => simp
  | cons w ws' ih =>
    rw [List.map_cons, List.cons_append, commands, if_neg (fun h => hne h.1), ih (by simp),
      List.append_assoc]
    rfl

theorem commands_name {ws : List (List Char)} (hw : isName w = true) (ts : List Token) :
    commands [] ((w :: ws).map .word ++ ts) = commands (w :: ws) ts := by
  rw [List.map_cons, List.cons_append, commands, if_neg (by simp [hw]), List.nil_append,
    commands_words (by simp)]
  rfl

/-- A line of words is one simple command. -/
theorem parse_intercalate {ts ws : List (List Char)} (h : List.Forall₂ Reads ts (w :: ws))
    (hw : isName w = true) : parse ([' '].intercalate ts) = some [⟨w :: ws, none⟩] := by
  have := @commands_name w ws hw []
  rw [List.append_nil] at this
  rw [parse, lex_intercalate h, Option.bind_some, this]
  rfl

theorem lex_intercalate_blank {ts ws : List (List Char)} (h : List.Forall₂ Reads ts ws) (hne : ts ≠ []) :
    lex .plain none ([' '].intercalate ts ++ ' ' :: s) =
      (lex .plain none s).map (ws.map Token.word ++ ·) := by
  induction h with
  | nil => exact absurd rfl hne
  | @cons t w ts ws ht h ih =>
    rcases ts with _ | ⟨t', ts⟩
    · cases h
      rw [List.intercalate_singleton, lex_word_blank ht]
      rfl
    · rw [List.intercalate_cons_cons, List.append_assoc, List.append_assoc, List.singleton_append,
        lex_word_blank ht, ih (List.cons_ne_nil _ _), Option.map_map]
      rfl

theorem lex_ne_nil {cs : List Command} (h : parse s = some cs) (hne : cs ≠ []) :
    ∃ ts, lex .plain none s = some ts ∧ ts ≠ [] ∧ commands [] ts = some cs := by
  obtain ⟨ts, hts, hc⟩ := Option.bind_eq_some_iff.1 h
  refine ⟨ts, hts, ?_, hc⟩
  rintro rfl
  exact hne (Option.some.inj hc).symm

/-- A line of words before another list of commands. -/
theorem parse_andIf {ts ws : List (List Char)} {cs : List Command} (h : List.Forall₂ Reads ts (w :: ws))
    (hw : isName w = true) (hs : parse s = some cs) (hne : cs ≠ []) :
    parse ([' '].intercalate ts ++ ' ' :: '&' :: '&' :: ' ' :: s) = some (⟨w :: ws, some .andIf⟩ :: cs) := by
  obtain ⟨rs, hrs, hr, hc⟩ := lex_ne_nil hs hne
  have hts : ts ≠ [] := by
    rintro rfl
    cases h
  rw [parse, lex_intercalate_blank h hts, lex_andIf, lex_blank, hrs]
  refine (commands_name hw (.op .andIf :: rs)).trans ?_
  rw [commands, if_neg (List.cons_ne_nil _ _), if_neg (fun h => hr h.1), hc]
  rfl

end ManyAiCli.Text.Shell
