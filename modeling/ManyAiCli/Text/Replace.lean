import ManyAiCli.Text.Regexp

/-! Replacing all matches of an expression in a text, from the left and without overlap. The text
is a list of any symbols that stand for characters, so what a replacement keeps can be told from
what it puts in. -/

namespace ManyAiCli.Text

variable {α : Type} (val : α → Char) (re : Regexp)

/-- The preferred match at the front. -/
def front (s : List α) : Option Regexp.Cursor := (re.ends ⟨0, s.map val, []⟩).head?

/-- `ReplaceAllStringFunc`; the first number of symbols is in a match already. -/
def replaceAllFunc (f : List α → List α) : ℕ → List α → List α
  | _, [] => []
  | skip + 1, _ :: s => replaceAllFunc f skip s
  | 0, c :: s =>
    match front val re (c :: s) with
    | some m =>
      if m.pos = 0 then c :: replaceAllFunc f 0 s
      else f ((c :: s).take m.pos) ++ replaceAllFunc f (m.pos - 1) s
    | none => c :: replaceAllFunc f 0 s

/-- A text that is not empty stays so if no match becomes empty. -/
theorem replaceAllFunc_ne_nil {f : List α → List α} (hf : ∀ m, f m ≠ []) {s : List α} (hs : s ≠ []) :
    replaceAllFunc val re f 0 s ≠ [] := by
  cases s with
  | nil => exact absurd rfl hs
  | cons c s =>
    rw [replaceAllFunc]
    split
    next =>
      split
      next => exact List.cons_ne_nil _ _
      next => exact fun h => hf _ (List.append_eq_nil_iff.mp h).1
    next => exact List.cons_ne_nil _ _

end ManyAiCli.Text
