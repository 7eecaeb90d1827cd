import Mathlib.Data.List.Induction
import ManyAiCli.SessionLog.MaskSecrets
import ManyAiCli.Text.RegexpTakes

/-! Masking a line. The line end stays as it is, wherever it is cut off; digits and white space alone are
never a secret; and where something has been masked there is a star. -/

namespace ManyAiCli.SessionLog

open Text Text.Regexp

def lineEnds : List Char := ['\r', '\n']

/-- White space and digits. -/
def dull : List Char :=
  ['\t', '\n', '\x0b', '\x0c', '\r', ' ', '\u0085', '\u00a0', '\u1680', '\u2000', '\u2001', '\u2002', '\u2003',
    '\u2004', '\u2005', '\u2006', '\u2007', '\u2008', '\u2009', '\u200a', '\u2028', '\u2029', '\u202f', '\u205f',
    '\u3000', '0', '1', '2', '3', '4', '5', '6', '7', '8', '9']

theorem patterns_openEnded_avoid : ∀ p ∈ secretPatterns ++ secretGroup2Patterns,
    p.re.openEnded = true ∧ p.re.avoids lineEnds = true := by decide

theorem patterns_escape : ∀ p ∈ secretPatterns ++ secretGroup2Patterns, p.re.escapes dull = true := by decide

section Patterns

variable {ps : List Pattern} {s x y : List Char}

theorem star_mem_maskMatch (p : Pattern) (m : List Char) : '*' ∈ maskMatch id ['*', '*', '*'] p m :=
  List.mem_append_left _ (List.mem_append_right _ List.mem_cons_self)

theorem solid_maskMatch (p : Pattern) {m : List Char} (hm : Solid lineEnds m) :
    Solid lineEnds (maskMatch id ['*', '*', '*'] p m) := by
  have hStars : Solid lineEnds ['*', '*', '*'] := by
    intro c hc
    rw [← Option.some.inj hc]
    decide
  have hDrop (k : ℕ) : Solid lineEnds (m.drop k) := by
    intro c hc
    rw [List.getLast?_drop] at hc
    split_ifs at hc
    exact hm c hc
  exact (hDrop _).append fun _ => hStars.append fun h => absurd h (List.cons_ne_nil _ _)

theorem foldl_maskPattern_append (hps : ∀ p ∈ ps, p.re.openEnded = true ∧ p.re.avoids lineEnds = true)
    (hy : ∀ c ∈ y, c ∈ lineEnds) :
    ps.foldl (fun s p => maskPattern id ['*', '*', '*'] p s) (x ++ y) =
      ps.foldl (fun s p => maskPattern id ['*', '*', '*'] p s) x ++ y := by
  induction ps generalizing x with
  | nil => rfl
  | cons p ps ih =>
    obtain ⟨hOpen, hAvoid⟩ := hps p List.mem_cons_self
    have hOne : maskPattern id ['*', '*', '*'] p (x ++ y) = maskPattern id ['*', '*', '*'] p x ++ y :=
      replaceAllFunc_append_of_avoids hOpen hAvoid hy
    rw [List.foldl_cons, hOne]
    exact ih fun q hq => hps q (List.mem_cons_of_mem p hq)

theorem solid_foldl_maskPattern (hps : ∀ p ∈ ps, p.re.avoids lineEnds = true) (hs : Solid lineEnds s) :
    Solid lineEnds (ps.foldl (fun s p => maskPattern id ['*', '*', '*'] p s) s) := by
  induction ps generalizing s with
  | nil => exact hs
  | cons p ps ih =>
    apply ih fun q hq => hps q (List.mem_cons_of_mem p hq)
    have hMatch (m : List Char) (hm : Solid lineEnds (m.map id)) :
        Solid lineEnds ((maskMatch id ['*', '*', '*'] p m).map id) := by
      rw [List.map_id] at hm ⊢
      exact solid_maskMatch p hm
    have hMasked : Solid lineEnds ((maskPattern id ['*', '*', '*'] p s).map id) :=
      solid_replaceAllFunc (hps p List.mem_cons_self) (maskMatch_ne_nil id _ (List.cons_ne_nil _ _) p) hMatch
        (by rwa [List.map_id]) 0
    rwa [List.map_id] at hMasked

theorem foldl_maskPattern_eq_or_star :
    ps.foldl (fun s p => maskPattern id ['*', '*', '*'] p s) s = s ∨
      '*' ∈ ps.foldl (fun s p => maskPattern id ['*', '*', '*'] p s) s := by
  induction ps using List.reverseRecOn with
  | nil => exact .inl rfl
  | append_singleton ps p ih =>
    have hOne (t : List Char) : maskPattern id ['*', '*', '*'] p t = t ∨ '*' ∈ maskPattern id ['*', '*', '*'] p t :=
      replaceAllFunc_eq_or_mem (star_mem_maskMatch p)
    rw [List.foldl_append, List.foldl_cons, List.foldl_nil]
    rcases hOne (ps.foldl (fun s p => maskPattern id ['*', '*', '*'] p s) s) with hSame | hStar
    · rw [hSame]
      exact ih
    · exact .inr hStar

theorem foldl_maskPattern_of_dull (hps : ∀ p ∈ ps, p.re.escapes dull = true) (hs : ∀ c ∈ s, c ∈ dull) :
    ps.foldl (fun s p => maskPattern id ['*', '*', '*'] p s) s = s := by
  induction ps with
  | nil => rfl
  | cons p ps ih =>
    have hOne : maskPattern id ['*', '*', '*'] p s = s := replaceAllFunc_of_escapes (hps p List.mem_cons_self) hs
    rw [List.foldl_cons, hOne]
    exact ih fun q hq => hps q (List.mem_cons_of_mem p hq)

end Patterns

variable {s x y : List Char}

/-- A line end is not part of a secret. -/
theorem maskSecrets_append (hy : ∀ c ∈ y, c ∈ lineEnds) : maskSecrets (x ++ y) = maskSecrets x ++ y :=
  foldl_maskPattern_append patterns_openEnded_avoid hy

theorem solid_maskSecrets (hs : Solid lineEnds s) : Solid lineEnds (maskSecrets s) :=
  solid_foldl_maskPattern (fun p hp => (patterns_openEnded_avoid p hp).2) hs

theorem maskSecrets_eq_or_star (s : List Char) : maskSecrets s = s ∨ '*' ∈ maskSecrets s :=
  foldl_maskPattern_eq_or_star

theorem maskSecrets_of_dull (hs : ∀ c ∈ s, c ∈ dull) : maskSecrets s = s :=
  foldl_maskPattern_of_dull patterns_escape hs

end ManyAiCli.SessionLog
