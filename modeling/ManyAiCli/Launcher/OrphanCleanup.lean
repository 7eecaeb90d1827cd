import Mathlib.Data.Bool.AllAny
import ManyAiCli.Launcher.ServeCommand
import ManyAiCli.Text.Ere

/-! What the clean-up kills (`connector_ssh.go`): `pkill -f` looks for its pattern anywhere in a command
line, and the pattern ends with the digits of a port. -/

namespace ManyAiCli.Launcher

open Text

/-- `pattern` of `cleanupSSHOrphans`. -/
def orphanPattern (binary : List Char) (port : ℤ) : List Char :=
  quoteMeta binary ++ " serve --port ".toList ++ decimal port

/-- The command line of what `tryServe` starts, its arguments joined with blanks. -/
def serveLine (binary : List Char) (port : ℤ) : List Char :=
  [' '].intercalate [binary, "serve".toList, "--port".toList, decimal port]

/-- `pkill -f` with the pattern. -/
def kills (binary : List Char) (port : ℤ) (line : List Char) :
    Bool := Ere.finds (orphanPattern binary port) line

/-- Where the serve command ends, the line or the argument ends. -/
def EndsAtBorder (binary : List Char) (port : ℤ) (line : List Char) : Prop :=
  ∃ x y, line = x ++ (serveLine binary port ++ y) ∧ (y = [] ∨ y.head? = some ' ')

/-- A line with the serve command, which goes on within an argument. -/
def EndsWithin (binary : List Char) (port : ℤ) (line : List Char) : Prop :=
  serveLine binary port <:+: line ∧ ¬ EndsAtBorder binary port line

/-- What the clean-up for a port is to do about its own process, about one with another port, and
about a command line. -/
def KillsItsOwn (binary : List Char) (p q : ℤ) (line : List Char) : Prop :=
  kills binary p (serveLine binary p) = true ∧ (q ≠ p → kills binary p (serveLine binary q) = false) ∧
    (EndsWithin binary p line → kills binary p line = false)

/-! ### The pattern -/

/-- The login shell hands the pattern to `pkill` as it is. -/
theorem loginShellRuns_orphanPattern {p : Profile} (h : Accepted p) (binary : List Char) (port : ℤ)
    (hz : (cleanupSSHOrphans p binary port).any (·.contains '\x00') = false) :
    loginShellRuns (cleanupSSHOrphans p binary port) =
      some [⟨["pkill".toList, "-f".toList, orphanPattern binary port], none⟩] :=
  loginShellRuns_cleanup h binary port hz

/-- Quoted for Go's dialect, a text is one of literals for the extended one. -/
theorem tokens_quoteMeta (s t : List Char) :
    Ere.tokens (quoteMeta s ++ t) = (Ere.tokens t).map (s.map .lit ++ ·) := by
  induction s with
  | nil => simp [quoteMeta]
  | cons c s ih =>
    have hQuoted : ∀ d ∈ "\\.+*?()|[]\x7b\x7d^$".toList, d ∈ '\\' :: ']' :: '\x7d' :: Ere.specials :=
      List.all_iff_forall_prop.1 (by decide)
    have hSpecials : ∀ d ∈ '\\' :: Ere.specials, d ∈ "\\.+*?()|[]\x7b\x7d^$".toList :=
      List.all_iff_forall_prop.1 (by decide)
    by_cases hc : c ∈ "\\.+*?()|[]\x7b\x7d^$".toList
    · have hCons : quoteMeta (c :: s) = '\\' :: c :: quoteMeta s := by
        rw [quoteMeta, List.flatMap_cons, if_pos (List.contains_iff_mem.2 hc)]
        rfl
      rw [hCons, List.cons_append, List.cons_append, Ere.tokens, if_pos (hQuoted c hc), ih]
      cases Ere.tokens t <;> rfl
    · have hCons : quoteMeta (c :: s) = c :: quoteMeta s := by
        rw [quoteMeta, List.flatMap_cons, if_neg fun h => hc (List.contains_iff_mem.1 h)]
        rfl
      have hSlash : c ≠ '\\' := fun h => hc (hSpecials c (h ▸ List.mem_cons_self))
      have hSpecial : c ∉ Ere.specials := fun h => hc (hSpecials c (List.mem_cons_of_mem _ h))
      rw [hCons, List.cons_append, Ere.tokens_cons hSlash, if_neg hSpecial, ih]
      cases Ere.tokens t <;> rfl

theorem ordinary_of_digit {c : Char} (h : c = '-' ∨ c.isDigit = true) :
    c ≠ ' ' ∧ c ≠ '\\' ∧ c ∉ Ere.specials := by
  have hAll : ∀ d ∈ ' ' :: '\\' :: Ere.specials, ¬ (d = '-' ∨ d.isDigit = true) :=
    List.all_iff_forall_prop.1 (by decide)
  exact ⟨fun hc => hAll c (by simp [hc]) h, fun hc => hAll c (by simp [hc]) h, fun hc =>
    hAll c (by simp [hc]) h⟩

theorem serveLine_eq (binary : List Char) (port : ℤ) :
    serveLine binary port = binary ++ (" serve --port".toList ++ ' ' :: decimal port) := by
  have hWords : " serve --port".toList = ' ' :: ("serve".toList ++ ' ' :: "--port".toList) := by decide
  rw [serveLine, hWords]
  simp only [List.intercalate_cons_cons, List.intercalate_singleton, List.append_assoc, List.cons_append,
    List.nil_append]

theorem tokens_orphanPattern (binary : List Char) (port : ℤ) :
    Ere.tokens (orphanPattern binary port) = some ((serveLine binary port).map .lit) := by
  have hRest : ∀ c ∈ " serve --port".toList ++ ' ' :: decimal port, c ≠ '\\' ∧ c ∉ Ere.specials := by
    have hWords : ∀ c ∈ " serve --port ".toList, c ≠ '\\' ∧ c ∉ Ere.specials :=
      List.all_iff_forall_prop.1 (by decide)
    intro c hc
    rcases List.mem_append.1 hc with hc | hc
    · exact hWords c (List.mem_append_left [' '] hc)
    · rcases List.mem_cons.1 hc with rfl | hc
      · exact hWords ' ' (by decide)
      · exact (ordinary_of_digit (decimal_chars port c hc)).2
  have hPattern : orphanPattern binary port =
    quoteMeta binary ++ (" serve --port".toList ++ ' ' :: decimal port) := by
    rw [orphanPattern, List.append_assoc]
    rfl
  rw [hPattern, tokens_quoteMeta, Ere.tokens_ordinary hRest, Option.map_some, serveLine_eq, ← List.map_append]

/-- The clean-up kills whatever has the serve command in its command line. -/
theorem kills_iff (binary : List Char) (port : ℤ) (line : List Char) :
    kills binary port line = true ↔ serveLine binary port <:+: line :=
  Ere.finds_iff (tokens_orphanPattern binary port) line

/-! ### Other ports -/

/-- Before a last separator. -/
theorem length_le_of_last {α : Type*} {a : α} {u u' v w : List α} (hw : a ∉ w)
    (h : u ++ a :: v = u' ++ a :: w) :
    u.length ≤ u'.length := by
  rcases List.append_eq_append_iff.1 h with ⟨z, rfl, -⟩ | ⟨z, rfl, hz⟩
  · rw [List.length_append]
    exact Nat.le_add_right ..
  · cases z with
    | nil => rw [List.append_nil]
    | cons c z =>
      obtain ⟨-, rfl⟩ := List.cons.inj hz
      exact absurd (List.mem_append_right z List.mem_cons_self) hw

/-- Nothing else stands in the line of another port: behind the last blank are its digits. -/
theorem serveLine_infix_iff (binary : List Char) (p q : ℤ) :
    serveLine binary p <:+: serveLine binary q ↔ decimal p <+: decimal q := by
  constructor
  · rintro ⟨x, y, h⟩
    have hBlank : ' ' ∉ decimal q := fun hc => (ordinary_of_digit (decimal_chars q _ hc)).1 rfl
    have hSplit : (x ++ (binary ++ " serve --port".toList)) ++ ' ' :: (decimal p ++ y) =
        (binary ++ " serve --port".toList) ++ ' ' :: decimal q := by
      rw [serveLine_eq, serveLine_eq] at h
      simpa only [List.append_assoc, List.cons_append] using h
    have hLength := length_le_of_last hBlank hSplit
    have hx : x = [] := by
      rw [List.length_append] at hLength
      exact List.length_eq_zero_iff.1 (by omega)
    subst hx
    exact ⟨y, (List.cons.inj (List.append_cancel_left hSplit)).2⟩
  · rintro ⟨y, h⟩
    rw [serveLine_eq, serveLine_eq, ← h]
    exact ⟨[], y, by simp⟩

/-- The clean-up keeps to its own exactly if its port does not begin the other one and the line has
the serve command with its end, or not at all. -/
theorem killsItsOwn_iff (binary : List Char) (p q : ℤ) (line : List Char) :
    KillsItsOwn binary p q line ↔
      (q = p ∨ ¬ decimal p <+: decimal q) ∧ (¬ serveLine binary p <:+: line ∨ EndsAtBorder binary p line) := by
  have hOwn : kills binary p (serveLine binary p) = true := (kills_iff ..).2 List.infix_rfl
  have hOther : kills binary p (serveLine binary q) = false ↔ ¬ decimal p <+: decimal q := by
    rw [← Bool.not_eq_true, kills_iff, serveLine_infix_iff]
  have hLine : kills binary p line = false ↔ ¬ serveLine binary p <:+: line := by
    rw [← Bool.not_eq_true, kills_iff]
  rw [KillsItsOwn, hOther, hLine, and_iff_right hOwn, EndsWithin]
  constructor
  · rintro ⟨hPort, hBorder⟩
    refine ⟨or_iff_not_imp_left.2 hPort, or_iff_not_imp_left.2 fun hIn => ?_⟩
    by_contra hWithin
    exact hBorder ⟨not_not.1 hIn, hWithin⟩ (not_not.1 hIn)
  · rintro ⟨hPort, hBorder⟩
    refine ⟨or_iff_not_imp_left.1 hPort, fun hWithin => ?_⟩
    exact hBorder.elim id fun h => absurd h hWithin.2

/-- The Hub on port 47770 is killed for the one on port 4777. -/
theorem kills_longer_port : kills "many-ai-cli".toList 4777 (serveLine "many-ai-cli".toList 47770) = true ∧
    ¬ ∀ binary p q line, 1 ≤ p → p ≤ 65535 → 1 ≤ q → q ≤ 65535 → KillsItsOwn binary p q line := by
  have hPorts : decimal 4777 <+: decimal 47770 := by decide
  refine ⟨(kills_iff ..).2 ((serveLine_infix_iff ..).2 hPorts), fun h => ?_⟩
  have hOther := (h "many-ai-cli".toList 4777 47770 [] (by decide) (by decide) (by decide) (by decide)).2.1
    (by decide)
  rw [← Bool.not_eq_true, kills_iff, serveLine_infix_iff] at hOther
  exact hOther hPorts

end ManyAiCli.Launcher
