import Mathlib.Data.List.Infix
import Mathlib.Tactic.Common

/-! Patterns after SQL's `LIKE … ESCAPE …`: `%` stands for any text, `_` for any character and a character
after the escape for itself. The letters of ASCII are the same in either case. -/

namespace ManyAiCli.Text.Like

def fold (c : Char) : Char := if 'A' ≤ c ∧ c ≤ 'Z' then Char.ofNat (c.toNat + 32) else c

inductive Token
  | many
  | one
  | char (c : Char)
  deriving DecidableEq, Repr

def token (c : Char) : Token := if c = '%' then .many else if c = '_' then .one else .char c

/-- The tokens of a pattern, the first character of which may be escaped; there are none if the
pattern ends with the escape. -/
def tokens (escape : Char) : Bool → List Char → Option (List Token)
  | false, [] => some []
  | true, [] => none
  | true, c :: cs => (tokens escape false cs).map (.char c :: ·)
  | false, c :: cs =>
    if c = escape then tokens escape true cs else (tokens escape false cs).map (token c :: ·)

def takes : List Token → List Char → Bool
  | [], s => s = []
  | .many :: ts, s => s.tails.any (takes ts)
  | .one :: ts, s => s ≠ [] && takes ts s.tail
  | .char c :: ts, s => s.head?.any (fold · = fold c) && takes ts s.tail

def like (escape : Char) (pattern s : List Char) : Bool := (tokens escape false pattern).any (takes · s)

/-- The text with an escape before each character that is not for itself. -/
def escaped (escape : Char) (q : List Char) : List Char :=
  q.flatMap fun c => if c = escape ∨ c = '%' ∨ c = '_' then [escape, c] else [c]

variable {escape : Char} {ts : List Token} {s q : List Char}

theorem takes_many : takes (.many :: ts) s = true ↔ ∃ a b, s = a ++ b ∧ takes ts b = true := by
  rw [takes, List.any_eq_true]
  constructor
  · rintro ⟨b, hb, ht⟩
    obtain ⟨a, rfl⟩ := (List.mem_tails b s).1 hb
    exact ⟨a, b, rfl, ht⟩
  · rintro ⟨a, b, rfl, ht⟩
    exact ⟨b, (List.mem_tails b _).2 (List.suffix_append a b), ht⟩

/-- A literal takes a text that is the same up to case. -/
theorem takes_chars : takes (q.map .char ++ ts) s = true ↔
    ∃ a b, s = a ++ b ∧ a.map fold = q.map fold ∧ takes ts b = true := by
  induction q generalizing s with
  | nil =>
    constructor
    · exact fun h => ⟨[], s, rfl, rfl, h⟩
    · rintro ⟨a, b, rfl, ha, ht⟩
      rw [List.map_eq_nil_iff.1 ha]
      exact ht
  | cons c q ih =>
    rw [List.map_cons, List.cons_append, takes, Bool.and_eq_true]
    cases s with
    | nil =>
      constructor
      · rintro ⟨h, -⟩
        exact Bool.noConfusion h
      · rintro ⟨a, b, hs, ha, -⟩
        rw [(List.append_eq_nil_iff.1 hs.symm).1] at ha
        exact nomatch ha
    | cons d s =>
      rw [List.tail_cons, ih, List.head?_cons, Option.any_some, decide_eq_true_eq]
      constructor
      · rintro ⟨hd, a, b, rfl, ha, ht⟩
        exact ⟨d :: a, b, rfl, by rw [List.map_cons, List.map_cons, hd, ha], ht⟩
      · rintro ⟨_ | ⟨x, a⟩, b, hs, ha, ht⟩
        · exact nomatch ha
        · obtain ⟨rfl, rfl⟩ := List.cons_eq_cons.1 hs
          obtain ⟨hx, ha⟩ := List.cons_eq_cons.1 ha
          exact ⟨hx, a, b, rfl, ha, ht⟩

theorem tokens_escaped (q rest : List Char) :
    tokens escape false (escaped escape q ++ rest) =
      (tokens escape false rest).map (q.map .char ++ ·) := by
  induction q with
  | nil =>
    rw [escaped, List.flatMap_nil, List.nil_append]
    cases tokens escape false rest <;> rfl
  | cons c q ih =>
    rw [escaped, List.flatMap_cons, ← escaped, List.append_assoc]
    split_ifs with hc
    · rw [List.cons_append, List.cons_append, List.nil_append, tokens, if_pos rfl, tokens, ih, Option.map_map]
      rfl
    · push Not at hc
      rw [List.cons_append, List.nil_append, tokens, if_neg hc.1, ih, Option.map_map, token, if_neg hc.2.1,
        if_neg hc.2.2]
      rfl

/-- Between two `%`, an escaped text is looked for as it is, up to case. -/
theorem like_escaped (hmany : escape ≠ '%') :
    like escape ('%' :: escaped escape q ++ ['%']) s = true ↔ ∃ a m b, s = a ++ m ++ b ∧ m.map fold = q.map fold := by
  have hlast : tokens escape false ['%'] = some [.many] := by
    rw [tokens, if_neg hmany.symm]
    rfl
  have htokens : tokens escape false ('%' :: escaped escape q ++ ['%']) = some (.many :: (q.map .char ++ [.many])) := by
    rw [List.cons_append, tokens, if_neg hmany.symm, tokens_escaped, hlast]
    rfl
  rw [like, htokens, Option.any_some, takes_many]
  simp only [takes_chars, takes_many]
  constructor
  · rintro ⟨a, _, rfl, m, b, rfl, hm, -⟩
    exact ⟨a, m, b, by rw [List.append_assoc], hm⟩
  · rintro ⟨a, m, b, rfl, hm⟩
    exact ⟨a, m ++ b, by rw [List.append_assoc], m, b, rfl, hm, b, [], (List.append_nil b).symm, rfl⟩

end ManyAiCli.Text.Like
