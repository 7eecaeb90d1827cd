import ManyAiCli.Approval.Summary
import ManyAiCli.Text.Cut
import ManyAiCli.Text.Trim

/-! Risk tiers of composed commands. A signal of a high risk is found anywhere in a
command, an entry of the list of low risks only at its beginning, and there as a mere
prefix. -/

namespace ManyAiCli.Approval

open Text

def ApprovalRiskTier.rank : ApprovalRiskTier → ℕ
  | .low => 0
  | .mid => 1
  | .high => 2

def shellSeparators : List String := [";", "&&", "||", "|", "&"]

/-- Two commands in one, with blanks around the separator. -/
def compose (c₁ : List Char) (left : ℕ) (op : String) (right : ℕ) (c₂ : List Char) : List Char :=
  c₁ ++ List.replicate left ' ' ++ op.toList ++ (List.replicate right ' ' ++ c₂)

/-- The text that is looked at. -/
def value (c : List Char) : List Char := toLower (trimSpace c)

/-- It has a signal of a high risk. -/
def Signalled (c : List Char) : Prop := ∃ signal ∈ highSignals, signal.toList <:+: value c

/-- It is an entry of the list of low risks or begins with one. -/
def Listed (c : List Char) : Prop :=
  ∃ pre ∈ lowPrefixes, value c = trimSpace pre.toList ∨ pre.toList <+: value c

/-- The text in front of the separator, with its blanks, begins with an entry of the list. -/
def Opens (c₁ : List Char) (left : ℕ) : Prop :=
  ∃ pre ∈ lowPrefixes, pre.toList <+: toLower ((c₁ ++ List.replicate left ' ').dropWhile isSpace)

/-- An entry of the list stands at the beginning and its word ends there. -/
def BeginsWithEntry (ends : Char → Bool) (c : List Char) : Prop :=
  ∃ pre ∈ lowPrefixes, ∃ rest, value c = trimSpace pre.toList ++ rest ∧ ∀ x ∈ rest.head?, ends x = true

/-- An entry of the list stands at the beginning and its word goes on. -/
def Glued (ends : Char → Bool) (c : List Char) : Prop :=
  ∃ pre ∈ lowPrefixes, ∃ x rest, value c = pre.toList ++ x :: rest ∧ trimSpace pre.toList = pre.toList ∧
    ends x = false

/-- A composition has at least the risk of each of its commands. -/
def Monotone (c₁ : List Char) (left : ℕ) (op : String) (right : ℕ) (c₂ : List Char) : Prop :=
  (classifyRisk c₁).rank ≤ (classifyRisk (compose c₁ left op right c₂)).rank ∧
    (classifyRisk c₂).rank ≤ (classifyRisk (compose c₁ left op right c₂)).rank

instance (c₁ c₂ : List Char) (left right : ℕ) (op : String) : Decidable (Monotone c₁ left op right c₂) :=
  inferInstanceAs (Decidable (_ ∧ _))

variable {c c₁ c₂ : List Char} {left right : ℕ} {op : String}

/-! ### The three tiers -/

theorem classifyRisk_high (h : Signalled c) : classifyRisk c = .high := by
  obtain ⟨signal, hmem, hin⟩ := h
  have hne : value c ≠ [] := by
    intro hnil
    rw [hnil, List.infix_nil] at hin
    exact absurd hin ((by decide : ∀ s ∈ highSignals, s.toList ≠ []) signal hmem)
  have hany : (highSignals.any fun signal => contains (value c) signal.toList) = true :=
    List.any_eq_true.2 ⟨signal, hmem, contains_iff.2 hin⟩
  rw [classifyRisk]
  exact (if_neg hne).trans (if_pos hany)

theorem listed_iff : Listed c ↔ (lowPrefixes.any fun pre =>
    value c = trimSpace pre.toList || hasPrefix (value c) pre.toList) = true := by
  simp [Listed, hasPrefix]

theorem not_listed_of_nil (h : value c = []) : ¬ Listed c := by
  rw [listed_iff, h]
  decide

theorem classifyRisk_of_not_signalled (h : ¬ Signalled c) [Decidable (Listed c)] :
    classifyRisk c = if Listed c then .low else .mid := by
  have hany : ¬ (highSignals.any fun signal => contains (value c) signal.toList) = true := by
    rw [List.any_eq_true]
    simp only [contains_iff]
    exact h
  by_cases hnil : value c = []
  · rw [if_neg (not_listed_of_nil hnil), classifyRisk]
    exact if_pos hnil
  · rw [classifyRisk]
    refine (if_neg hnil).trans ((if_neg hany).trans ?_)
    simp only [listed_iff]
    rfl

theorem classifyRisk_low (h : ¬ Signalled c) (hl : Listed c) : classifyRisk c = .low := by
  classical rw [classifyRisk_of_not_signalled h, if_pos hl]

theorem classifyRisk_mid (h : ¬ Signalled c) (hl : ¬ Listed c) : classifyRisk c = .mid := by
  classical rw [classifyRisk_of_not_signalled h, if_neg hl]

theorem rank_le (h : ¬ Signalled c) : (classifyRisk c).rank ≤ 1 := by
  by_cases hl : Listed c
  · rw [classifyRisk_low h hl]
    exact Nat.zero_le 1
  · rw [classifyRisk_mid h hl]
    exact Nat.le_refl 1

theorem low_iff : classifyRisk c = .low ↔ ¬ Signalled c ∧ Listed c := by
  by_cases h : Signalled c
  · simp [classifyRisk_high h, h]
  · by_cases hl : Listed c
    · simp [classifyRisk_low h hl, h, hl]
    · simp [classifyRisk_mid h hl, hl]

/-! ### Trimming -/

theorem trimSpace_inside (a s : List Char) : trimSpace s <:+: (a ++ s).rdropWhile isSpace := by
  rw [trimSpace, trim, trimRight]
  cases hs : s.dropWhile isSpace with
  | nil => exact List.nil_infix
  | cons x d =>
    have hx : isSpace x = false := by
      have := List.head?_dropWhile_not isSpace s
      simpa [hs] using this
    rw [← List.takeWhile_append_dropWhile (p := isSpace) (l := s), hs, ← List.append_assoc,
      rdropWhile_append_cons hx]
    exact List.IsSuffix.isInfix ⟨_, by rw [← List.nil_append (x :: d), rdropWhile_append_cons hx]; rfl⟩

theorem isSpace_of_letter {x : Char} (h : 65 ≤ x.toNat) (h' : x.toNat ≤ 122) : isSpace x = false := by
  simp only [isSpace, Bool.or_eq_false_iff, Bool.and_eq_false_iff, decide_eq_false_iff_not]
  omega

theorem isSpace_lowerChar (x : Char) : isSpace (lowerChar x) = isSpace x := by
  rw [lowerChar]
  split_ifs with h hi hk
  · have hlow : 65 ≤ x.toNat := h.1
    have hhigh : x.toNat ≤ 90 := h.2
    have hval : (Char.ofNat (x.toNat + 32)).toNat = x.toNat + 32 := by
      rw [Char.ofNat, dif_pos (Or.inl (by omega))]
      rfl
    rw [isSpace_of_letter hlow (by omega), isSpace_of_letter (by omega) (by omega)]
  · rw [hi]
    decide
  · rw [hk]
    decide
  · rfl

theorem toLower_rdropWhile (s : List Char) : (toLower s).rdropWhile isSpace = toLower (s.rdropWhile isSpace) := by
  have hsame : isSpace ∘ lowerChar = isSpace := funext isSpace_lowerChar
  rw [toLower, toLower, List.rdropWhile, ← List.map_reverse, List.dropWhile_map, hsame,
    ← List.map_reverse, List.rdropWhile]

/-! ### The value of a composition -/

theorem blanks_isSpace (n : ℕ) : ∀ x ∈ List.replicate n ' ', isSpace x = true := by
  intro x hx
  rw [List.eq_of_mem_replicate hx]
  decide

/-- A separator keeps blanks on its sides from being trimmed away. -/
theorem value_compose (c₁ : List Char) (left right : ℕ) (c₂ : List Char) (hop : op ∈ shellSeparators) :
    ∃ sep ∈ [';', '&', '|'], ∃ after,
    value (compose c₁ left op right c₂) =
      toLower ((c₁ ++ List.replicate left ' ').dropWhile isSpace) ++ sep :: after ∧ value c₂ <:+: after := by
  obtain ⟨sep, ops, hsep, hops, hspace, hlower⟩ : ∃ sep ops, sep ∈ [';', '&', '|'] ∧ op.toList = sep :: ops ∧
      isSpace sep = false ∧ lowerChar sep = sep := by
    simp only [shellSeparators, List.mem_cons, List.not_mem_nil, or_false] at hop
    rcases hop with rfl | rfl | rfl | rfl | rfl
    · exact ⟨';', [], by decide⟩
    · exact ⟨'&', ['&'], by decide⟩
    · exact ⟨'|', ['|'], by decide⟩
    · exact ⟨'|', [], by decide⟩
    · exact ⟨'&', [], by decide⟩
  refine ⟨sep, hsep, toLower ((ops ++ List.replicate right ' ' ++ c₂).rdropWhile isSpace), ?_,
    (trimSpace_inside _ c₂).map lowerChar⟩
  rw [value, compose, hops, trimSpace, trim, trimRight, List.append_assoc, List.cons_append,
    dropWhile_append_cons hspace, rdropWhile_append_cons hspace]
  simp [toLower, hlower]

theorem value_eq (n : ℕ) :
    value c = (toLower ((c ++ List.replicate n ' ').dropWhile isSpace)).rdropWhile isSpace := by
  rw [toLower_rdropWhile, value, ← trimSpace_append_of_pos (blanks_isSpace n) c]
  rfl

theorem signalled_of_infix {d : List Char} (h : value c <:+: value d) (hc : Signalled c) : Signalled d := by
  obtain ⟨signal, hmem, hin⟩ := hc
  exact ⟨signal, hmem, hin.trans h⟩

theorem signalled_compose_left (hop : op ∈ shellSeparators) (h : Signalled c₁) :
    Signalled (compose c₁ left op right c₂) := by
  obtain ⟨sep, -, after, heq, -⟩ := value_compose c₁ left right c₂ hop
  refine signalled_of_infix ?_ h
  rw [heq, value_eq left]
  exact ((List.rdropWhile_prefix ..).trans (List.prefix_append ..)).isInfix

theorem signalled_compose_right (hop : op ∈ shellSeparators) (h : Signalled c₂) :
    Signalled (compose c₁ left op right c₂) := by
  obtain ⟨sep, -, after, heq, hin⟩ := value_compose c₁ left right c₂ hop
  refine signalled_of_infix ?_ h
  rw [heq]
  exact hin.trans ((List.suffix_cons ..).trans (List.suffix_append ..)).isInfix

/-! ### The list of low risks -/

theorem trimSpace_entry : ∀ pre ∈ lowPrefixes, trimSpace pre.toList = pre.toList.rdropWhile isSpace := by
  decide

theorem entry_cases : ∀ pre ∈ lowPrefixes,
    trimSpace pre.toList = pre.toList ∨ pre.toList = trimSpace pre.toList ++ [' '] := by
  decide

/-- The entries as lists. -/
def entryTexts : List (List Char) :=
  [['c', 'a', 't', ' '], ['h', 'e', 'a', 'd', ' '], ['t', 'a', 'i', 'l', ' '], ['l', 's'], ['d', 'i', 'r'],
    ['p', 'w', 'd'], ['g', 'i', 't', ' ', 's', 't', 'a', 't', 'u', 's'],
    ['g', 'i', 't', ' ', 'd', 'i', 'f', 'f'], ['g', 'i', 't', ' ', 'l', 'o', 'g'],
    ['g', 'i', 't', ' ', 's', 'h', 'o', 'w'], ['g', 'i', 't', ' ', 'b', 'r', 'a', 'n', 'c', 'h'],
    ['f', 'i', 'n', 'd', ' '], ['r', 'g', ' '], ['g', 'r', 'e', 'p', ' '], ['t', 'y', 'p', 'e', ' ']]

theorem toList_mem_entryTexts : ∀ pre ∈ lowPrefixes, pre.toList ∈ entryTexts := by
  simp [lowPrefixes, entryTexts]

theorem entry_eq_of_starts : ∀ pre ∈ lowPrefixes, ∀ pre' ∈ lowPrefixes,
    trimSpace pre.toList <+: trimSpace pre'.toList → trimSpace pre.toList = trimSpace pre'.toList := by
  have hsame : ∀ a ∈ entryTexts, ∀ b ∈ entryTexts, trimSpace a <+: trimSpace b → trimSpace a = trimSpace b := by
    decide +kernel
  exact fun pre h pre' h' => hsame _ (toList_mem_entryTexts pre h) _ (toList_mem_entryTexts pre' h')

/-- No entry has a separator in it. -/
theorem sep_not_mem_entry : ∀ sep ∈ [';', '&', '|'], ∀ pre ∈ lowPrefixes,
    sep ∉ pre.toList ∧ sep ∉ trimSpace pre.toList := by
  have htexts : ∀ a ∈ entryTexts, ∀ sep ∈ [';', '&', '|'], sep ∉ a := by simp [entryTexts]
  intro sep h pre h'
  have hnot : sep ∉ pre.toList := htexts _ (toList_mem_entryTexts pre h') sep h
  have hin : trimSpace pre.toList <:+: pre.toList.rdropWhile isSpace := trimSpace_inside [] pre.toList
  exact ⟨hnot, fun hmem => hnot ((List.rdropWhile_prefix _ _).subset (hin.subset hmem))⟩

theorem listed_of_opens (h : Opens c left) : Listed c := by
  obtain ⟨pre, hmem, hpre⟩ := h
  refine ⟨pre, hmem, ?_⟩
  rw [value_eq left, trimSpace_entry pre hmem]
  exact (prefix_rdropWhile hpre).symm

theorem listed_compose (hop : op ∈ shellSeparators) :
    Listed (compose c₁ left op right c₂) ↔ Opens c₁ left := by
  obtain ⟨sep, hsep, after, heq, -⟩ := value_compose c₁ left right c₂ hop
  constructor
  · rintro ⟨pre, hmem, hval | hpre⟩
    · have hin : sep ∈ trimSpace pre.toList := by
        rw [← hval, heq]
        exact List.mem_append_right _ (List.mem_cons_self ..)
      exact absurd hin (sep_not_mem_entry sep hsep pre hmem).2
    · rw [heq] at hpre
      exact ⟨pre, hmem, prefix_of_prefix_append_cons (sep_not_mem_entry sep hsep pre hmem).1 hpre⟩
  · rintro ⟨pre, hmem, hpre⟩
    exact ⟨pre, hmem, .inr (heq ▸ hpre.trans (List.prefix_append ..))⟩

/-! ### The risk of a composition -/

theorem monotone_iff (hop : op ∈ shellSeparators) : Monotone c₁ left op right c₂ ↔
    Signalled (compose c₁ left op right c₂) ∨ Listed c₂ ∨ ¬ Opens c₁ left := by
  by_cases hs : Signalled (compose c₁ left op right c₂)
  · refine ⟨fun _ => .inl hs, fun _ => ?_⟩
    have htop : ∀ r : ApprovalRiskTier, r.rank ≤ ApprovalRiskTier.high.rank := by
      intro r
      cases r <;> decide
    rw [Monotone, classifyRisk_high hs]
    exact ⟨htop _, htop _⟩
  · have hs₁ : ¬ Signalled c₁ := fun h => hs (signalled_compose_left hop h)
    have hs₂ : ¬ Signalled c₂ := fun h => hs (signalled_compose_right hop h)
    by_cases ho : Opens c₁ left
    · have hlow : (classifyRisk (compose c₁ left op right c₂)).rank = 0 := by
        rw [classifyRisk_low hs ((listed_compose hop).2 ho)]
        rfl
      have hlow₁ : (classifyRisk c₁).rank = 0 := by
        rw [classifyRisk_low hs₁ (listed_of_opens ho)]
        rfl
      rw [Monotone, hlow, hlow₁]
      by_cases hl : Listed c₂
      · simp [classifyRisk_low hs₂ hl, hl, ApprovalRiskTier.rank]
      · simp [classifyRisk_mid hs₂ hl, hl, hs, ho, ApprovalRiskTier.rank]
    · refine ⟨fun _ => .inr (.inr ho), fun _ => ?_⟩
      rw [Monotone, classifyRisk_mid hs (fun h => ho ((listed_compose hop).1 h))]
      exact ⟨rank_le hs₁, rank_le hs₂⟩

theorem beginsWithEntry_iff {ends : Char → Bool} (hends : ends ' ' = true) :
    (classifyRisk c = .low → BeginsWithEntry ends c) ↔ Signalled c ∨ ¬ Glued ends c := by
  constructor
  · intro h
    by_contra hcon
    rw [not_or, not_not] at hcon
    obtain ⟨hs, pre, hmem, x, rest, heq, hbare, hx⟩ := hcon
    have hlow : classifyRisk c = .low := low_iff.2 ⟨hs, pre, hmem, .inr ⟨x :: rest, heq.symm⟩⟩
    obtain ⟨pre', hmem', rest', heq', hend⟩ := h hlow
    have hsame : trimSpace pre'.toList = trimSpace pre.toList := by
      rcases List.prefix_or_prefix_of_prefix ⟨rest', heq'.symm⟩ ⟨x :: rest, heq.symm⟩ with hp | hp
      · exact entry_eq_of_starts pre' hmem' pre hmem (hbare.symm ▸ hp)
      · exact (entry_eq_of_starts pre hmem pre' hmem' (hbare.symm ▸ hp)).symm
    rw [hsame, hbare, heq, List.append_cancel_left_eq] at heq'
    rw [hend x (by simp [← heq'])] at hx
    exact Bool.false_ne_true hx.symm
  · intro h hlow
    obtain ⟨hs, pre, hmem, hl⟩ := low_iff.1 hlow
    have hg : ¬ Glued ends c := h.resolve_left hs
    rcases hl with hval | ⟨rest, heq⟩
    · exact ⟨pre, hmem, [], by rw [hval, List.append_nil], by simp⟩
    · rcases entry_cases pre hmem with hbare | hblank
      · refine ⟨pre, hmem, rest, by rw [hbare, heq], ?_⟩
        intro x hx
        cases hr : rest with
        | nil => simp [hr] at hx
        | cons y ys =>
          rw [hr, List.head?_cons, Option.mem_some_iff] at hx
          by_contra hend
          exact hg ⟨pre, hmem, y, ys, by rw [← heq, hr], hbare, by simpa [hx] using hend⟩
      · refine ⟨pre, hmem, ' ' :: rest, ?_, ?_⟩
        · rw [← heq, hblank, List.append_assoc, List.singleton_append, ← hblank]
        · simpa using hends

/-- A composition has less risk than one of its commands exactly when it begins with an
entry of the list, its second command is not in the list and no signal is found. A command
is low without a whole word of the list exactly when it goes on right after an entry and no
signal is found. -/
theorem composed_risk_iff (c₁ : List Char) (left right : ℕ) (c₂ c : List Char) {ends : Char → Bool}
    (hop : op ∈ shellSeparators) (hends : ends ' ' = true) :
    (Monotone c₁ left op right c₂ ↔
      Signalled (compose c₁ left op right c₂) ∨ Listed c₂ ∨ ¬ Opens c₁ left) ∧
    ((classifyRisk c = .low → BeginsWithEntry ends c) ↔ Signalled c ∨ ¬ Glued ends c) :=
  ⟨monotone_iff hop, beginsWithEntry_iff hends⟩

theorem composed_risk_of_list : Monotone "ls".toList 1 "|" 1 "cat a".toList ∧
    (classifyRisk "rm -rf lib".toList = .low → BeginsWithEntry isSpace "rm -rf lib".toList) := by
  have hop : "|" ∈ shellSeparators := by decide
  have hblank : isSpace ' ' = true := rfl
  have hlisted : Listed "cat a".toList := ⟨"cat ", by decide, .inr (by decide)⟩
  have hsignal : Signalled "rm -rf lib".toList := ⟨"rm -rf", by decide, by decide⟩
  have h := composed_risk_iff "ls".toList 1 1 "cat a".toList "rm -rf lib".toList hop hblank
  exact ⟨h.1.2 (.inr (.inl hlisted)), h.2.2 (.inl hsignal)⟩

/-- An unknown command behind one of the list is low, and so is an unknown command that
begins like one. -/
theorem unknown_becomes_low :
    ¬ Monotone "ls".toList 0 ";" 1 "foo".toList ∧
    classifyRisk "lsblk".toList = .low ∧ ¬ BeginsWithEntry isSpace "lsblk".toList := by
  have hlow : classifyRisk "lsblk".toList = .low := by decide
  refine ⟨by decide, hlow, fun h => ?_⟩
  rcases (beginsWithEntry_iff (by decide)).1 fun _ => h with hs | hg
  · exact (low_iff.1 hlow).1 hs
  · exact hg ⟨"ls", by decide, 'b', ['l', 'k'], by decide⟩

end ManyAiCli.Approval
