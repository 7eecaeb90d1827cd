import ManyAiCli.Text.Cut
import ManyAiCli.Text.Trim
import Mathlib.Data.Char

/-! The records of `git log` and `git show` with the refs of a commit (`git_log.go`, `git_show.go`,
`git_common.go`). The decoration is cut at commas and arrows, and what kind a ref is of is guessed
from its short name. Its parts come back if and only if no name has what the reader takes for git's
own punctuation. -/

namespace ManyAiCli.Hub.GitLog

open ManyAiCli.Text

abbrev Text := List Char

/-! ### The reader -/

/-- `"local"`, `"remote"` and `"tag"`. -/
inductive RefKind
  | localBranch
  | remote
  | tag
deriving DecidableEq

structure GitRef where
  kind : RefKind
  name : Text
deriving DecidableEq

def arrow : Text := ['-', '>']

def headName : Text := ['H', 'E', 'A', 'D']

def tagMark : Text := ['t', 'a', 'g', ':']

/-- The `switch`. -/
def classify (p : Text) : Option GitRef :=
  if p = [] ∨ p = headName then none
  else if hasPrefix p tagMark then
    let name := trimSpace (trimPrefix p tagMark)
    if name ≠ [] then some ⟨.tag, name⟩ else none
  else if '/' ∈ p then some ⟨.remote, p⟩
  else some ⟨.localBranch, p⟩

/-- A turn of the loop. -/
def parsePart (p : Text) : Option GitRef :=
  let p := trimSpace p
  if p = [] then none
  else
    match index arrow p with
    | some idx => classify (trimSpace (p.drop (idx + 2)))
    | none => classify p

def parseDecorate (decorate : Text) : List GitRef :=
  let decorate := trimSpace decorate
  if decorate = [] then [] else (decorate.splitOn ',').filterMap parsePart

/-- `strings.SplitN`. -/
def splitN (sep : Char) : ℕ → Text → List Text
  | 0, _ => []
  | 1, s => [s]
  | n + 2, s =>
    if sep ∈ s then s.takeWhile (· ≠ sep) :: splitN sep (n + 1) ((s.dropWhile (· ≠ sep)).drop 1) else [s]

structure GitLogCommit where
  hash : Text
  shortHash : Text
  parents : List Text
  authorName : Text
  authorEmail : Text
  authorDate : Text
  refs : List GitRef
  subject : Text
deriving DecidableEq

def parseParents (field : Text) : List Text :=
  let pf := trimSpace field
  if pf ≠ [] then fields pf else []

def gitLogFieldCount : ℕ := 8

def parseLine (line : Text) : Option GitLogCommit :=
  let line := trimRight (· = '\r') line
  if line = [] then none
  else
    match splitN '\t' gitLogFieldCount line with
    | [hash, shortHash, parents, authorName, authorEmail, authorDate, decorate, subject] =>
      some
        { hash, shortHash, parents := parseParents parents, authorName, authorEmail, authorDate,
          refs := parseDecorate decorate, subject }
    | _ => none

def parseGitLog (raw : Text) : List GitLogCommit :=
  if raw = [] then [] else (splitLines raw).filterMap parseLine

structure GitShowMeta where
  hash : Text
  parents : List Text
  authorName : Text
  authorEmail : Text
  authorDate : Text
  subject : Text
  body : Text
  refs : List GitRef

def unitSeparator : Char := '\x1f'

inductive GitShowError
  | malformed
deriving DecidableEq

/-- `errMalformedGitShowMeta` is the only error. -/
def parseGitShowMeta (raw : Text) : Except GitShowError GitShowMeta :=
  let raw := trimRight (fun c => c = '\n' || c = '\r') raw
  let headPart := raw.takeWhile (· ≠ unitSeparator)
  let body := trimSpace ((raw.dropWhile (· ≠ unitSeparator)).drop 1)
  match splitN '\t' 7 headPart with
  | [hash, parents, authorName, authorEmail, authorDate, decorate, subject] =>
    .ok
      { hash, parents := parseParents parents, authorName, authorEmail, authorDate, subject, body,
        refs := parseDecorate decorate }
  | _ => .error .malformed

/-! ### What git prints -/

/-- What is used of git's rules for a ref's name. -/
def IsRefName (s : Text) : Prop := s ≠ [] ∧ ∀ c ∈ s, ' ' < c ∧ c ≠ ':'

instance : DecidablePred IsRefName := fun s =>
  have := List.decidableBAll (fun c => ' ' < c ∧ c ≠ ':') s
  inferInstanceAs (Decidable (_ ∧ _))

abbrev RefName := { s : Text // IsRefName s }

/-- A ref of a commit. -/
inductive Decoration
  /-- A detached `HEAD`. -/
  | head
  /-- The branch `HEAD` is attached to. -/
  | attached (branch : RefName)
  | localBranch (branch : RefName)
  | remote (branch : RefName)
  | tag (name : RefName)

/-- With `--decorate=short`. -/
def Decoration.text : Decoration → Text
  | .head => headName
  | .attached branch => headName ++ ' ' :: (arrow ++ ' ' :: branch.1)
  | .localBranch branch => branch.1
  | .remote branch => branch.1
  | .tag name => tagMark ++ ' ' :: name.1

/-- `%D`. -/
def decorate : List Decoration → Text
  | [] => []
  | [d] => d.text
  | d :: ds => d.text ++ ',' :: ' ' :: decorate ds

/-- The kind and the name; `HEAD` itself is no entry. -/
def Decoration.ref : Decoration → Option GitRef
  | .head => none
  | .attached branch => some ⟨.localBranch, branch.1⟩
  | .localBranch branch => some ⟨.localBranch, branch.1⟩
  | .remote branch => some ⟨.remote, branch.1⟩
  | .tag name => some ⟨.tag, name.1⟩

/-- Printable ASCII, as hashes and dates are of. -/
def IsPlain (s : Text) : Prop := ∀ c ∈ s, ' ' < c ∧ c < '\x7f'

instance : DecidablePred IsPlain := fun s => List.decidableBAll _ s

/-- Without a tab or a line break. -/
def IsField (s : Text) : Prop := ∀ c ∈ s, c ≠ '\t' ∧ c ≠ '\n' ∧ c ≠ '\r'

instance : DecidablePred IsField := fun s => List.decidableBAll _ s

structure Commit where
  hash : Text
  shortHash : Text
  parents : List Text
  authorName : Text
  authorEmail : Text
  authorDate : Text
  refs : List Decoration
  subject : Text
  plain : IsPlain hash ∧ IsPlain shortHash ∧ IsPlain authorDate
  plainParents : ∀ p ∈ parents, p ≠ [] ∧ IsPlain p
  author : IsField authorName ∧ IsField authorEmail
  oneLine : '\n' ∉ subject ∧ subject.getLast? ≠ some '\r'

/-- Fields with a tab after each, and what comes after them. -/
def tabbed (fs : List Text) (last : Text) : Text := fs.foldr (fun f rest => f ++ '\t' :: rest) last

namespace Commit

variable (c : Commit)

def parentField : Text := [' '].intercalate c.parents

/-- `gitLogPrettyFormat`. -/
def logLine : Text :=
  tabbed [c.hash, c.shortHash, c.parentField, c.authorName, c.authorEmail, c.authorDate,
    decorate c.refs] c.subject

/-- `gitShowMetaFormat`. -/
def showText (body : Text) : Text :=
  tabbed [c.hash, c.parentField, c.authorName, c.authorEmail, c.authorDate, decorate c.refs]
    (c.subject ++ unitSeparator :: body)

def expectedRefs : List GitRef := c.refs.filterMap Decoration.ref

def expected : GitLogCommit :=
  { hash := c.hash
    shortHash := c.shortHash
    parents := c.parents
    authorName := c.authorName
    authorEmail := c.authorEmail
    authorDate := c.authorDate
    refs := c.expectedRefs
    subject := c.subject }

end Commit

/-- The output of `git log`. -/
def logText (commits : List Commit) : Text := ['\n'].intercalate (commits.map Commit.logLine)

/-! ### When it is read as it was -/

/-- A name that is neither cut nor trimmed. -/
def Whole (name : Text) : Prop := ',' ∉ name ∧ trimSpace name = name

/-- Where the reader sees the ref that git printed. -/
def Decoration.Decodes : Decoration → Prop
  | .head => True
  | .attached branch => Whole branch.1 ∧ branch.1 ≠ headName ∧ '/' ∉ branch.1
  | .localBranch branch => Whole branch.1 ∧ branch.1 ≠ headName ∧ '/' ∉ branch.1 ∧ ¬ arrow <:+: branch.1
  | .remote branch => Whole branch.1 ∧ '/' ∈ branch.1 ∧ ¬ arrow <:+: branch.1
  | .tag name => Whole name.1 ∧ ¬ arrow <:+: name.1

/-- The record of `git show` is cut behind the author. -/
def Commit.ShowsAuthor (c : Commit) : Prop := unitSeparator ∉ c.authorName ∧ unitSeparator ∉ c.authorEmail

/-! ### One part -/

section Part

variable {name p q : Text} {k : RefKind}

theorem parsePart_trimSpace (p : Text) : parsePart (trimSpace p) = parsePart p := by
  simp only [parsePart, trimSpace_trimSpace]

theorem parsePart_append {a : Text} (ha : ∀ x ∈ a, isSpace x = true) (p : Text) :
    parsePart (a ++ p) = parsePart p := by
  rw [← parsePart_trimSpace, trimSpace_of_pos_append ha, parsePart_trimSpace]

theorem parsePart_append_right {b : Text} (hb : ∀ x ∈ b, isSpace x = true) (p : Text) :
    parsePart (p ++ b) = parsePart p := by
  rw [← parsePart_trimSpace, trimSpace_append_of_pos hb, parsePart_trimSpace]

theorem classify_nil : classify [] = none := by simp [classify]

theorem not_tagMark (h : ':' ∉ p) : hasPrefix p tagMark = false := by
  rw [hasPrefix, Bool.eq_false_iff]
  intro hMark
  exact h ((List.isPrefixOf_iff_prefix.1 hMark).subset (by decide))

/-- Without a colon only a branch can come out. -/
theorem classify_eq_some_iff (hp : ':' ∉ p) {r : GitRef} :
    classify p = some r ↔
      p ≠ [] ∧ p ≠ headName ∧ r = ⟨if '/' ∈ p then .remote else .localBranch, p⟩ := by
  rw [classify, not_tagMark hp]
  by_cases h : p = [] ∨ p = headName
  · rw [if_pos h]
    exact iff_of_false (fun hNone => Option.some_ne_none r hNone.symm) fun hr => h.elim hr.1 hr.2.1
  · rw [if_neg h]
    obtain ⟨hNil, hHead⟩ := not_or.1 h
    rw [and_iff_right hNil, and_iff_right hHead, if_neg Bool.false_ne_true]
    split_ifs <;> exact Option.some_inj.trans eq_comm

theorem classify_name_subset {r : GitRef} (h : classify p = some r) : r.name ⊆ p := by
  simp only [classify] at h
  split_ifs at h with hNil hMark
  · cases h
    have hDrop : trimPrefix p tagMark ⊆ p := by
      rw [trimPrefix, if_pos hMark]
      exact List.drop_subset _ p
    exact List.Subset.trans (trimSpace_within _).subset hDrop
  · cases h
    exact List.Subset.refl p
  · cases h
    exact List.Subset.refl p

theorem parsePart_name_subset {r : GitRef} (h : parsePart p = some r) : r.name ⊆ p := by
  simp only [parsePart] at h
  split_ifs at h
  have hTrim : trimSpace p ⊆ p := (trimSpace_within p).subset
  split at h
  · refine List.Subset.trans (classify_name_subset h) (List.Subset.trans (trimSpace_within _).subset ?_)
    exact List.Subset.trans (List.drop_subset _ _) hTrim
  · exact List.Subset.trans (classify_name_subset h) hTrim

/-- A branch by its name alone. -/
theorem parsePart_branch_iff (hne : p ≠ []) (hp : ':' ∉ p) (k : RefKind) :
    parsePart p = some ⟨k, p⟩ ↔
      trimSpace p = p ∧ p ≠ headName ∧ ¬ arrow <:+: p ∧ k = if '/' ∈ p then .remote else .localBranch := by
  have hColon : ':' ∉ trimSpace p := fun h => hp ((trimSpace_within p).subset h)
  by_cases hArrow : arrow <:+: trimSpace p
  · have hNot : ¬ (trimSpace p = p ∧ p ≠ headName ∧ ¬ arrow <:+: p ∧ k = if '/' ∈ p then .remote
    else .localBranch) :=
      fun h => h.2.2.1 (h.1 ▸ hArrow)
    refine iff_of_false (fun h => ?_) hNot
    simp only [parsePart] at h
    split_ifs at h with hNil
    obtain ⟨idx, hIdx⟩ := Option.isSome_iff_exists.1 (index_isSome_iff.2 hArrow)
    rw [hIdx] at h
    have hDrop : ':' ∉ trimSpace ((trimSpace p).drop (idx + 2)) := fun hMem =>
      hColon (List.drop_subset _ _ ((trimSpace_within _).subset hMem))
    obtain ⟨-, -, hEq⟩ := (classify_eq_some_iff hDrop).1 h
    have hLength := congrArg (fun r : GitRef => r.name.length) hEq
    have hShort := ((trimSpace_within ((trimSpace p).drop (idx + 2))).length_le)
    have hTrim := (trimSpace_within p).length_le
    have hPos := List.length_pos_of_ne_nil hNil
    simp only at hLength
    rw [List.length_drop] at hShort
    omega
  · have hParse : parsePart p = classify (trimSpace p) := by
      simp only [parsePart, index_eq_none_iff.2 hArrow]
      split_ifs with hNil
      · rw [hNil, classify_nil]
      · rfl
    rw [hParse, classify_eq_some_iff hColon]
    constructor
    · rintro ⟨-, hHead, hEq⟩
      obtain ⟨hKind, hName⟩ := GitRef.mk.injEq .. ▸ hEq
      rw [← hName] at hArrow hHead hKind
      exact ⟨hName.symm, hHead, hArrow, hKind⟩
    · rintro ⟨hTrim, hHead, -, hKind⟩
      rw [hTrim]
      exact ⟨hne, hHead, by rw [hKind]⟩

end Part

/-! ### One ref -/

theorem RefName.not_colon (n : RefName) : ':' ∉ n.1 := fun h => (n.2.2 ':' h).2 rfl

theorem parsePart_head : parsePart headName = none := by decide

/-- `HEAD -> ` is taken off at its own arrow. -/
theorem parsePart_attached (b : Text) :
    parsePart (headName ++ ' ' :: (arrow ++ ' ' :: b)) = classify (trimSpace b) := by
  have hText : headName ++ ' ' :: (arrow ++ ' ' :: b) =
    'H' :: (['E', 'A', 'D', ' ', '-'] ++ '>' :: ' ' :: b) := rfl
  have hTrim : trimSpace (headName ++ ' ' :: (arrow ++ ' ' :: b)) =
      'H' :: (['E', 'A', 'D', ' ', '-'] ++ '>' :: trimRight isSpace (' ' :: b)) := by
    rw [hText, trimSpace_append_cons (by decide) (by decide)]
  have hRest : trimSpace (trimRight isSpace (' ' :: b)) = trimSpace b := by
    rw [trimSpace_trimRight, trimSpace_cons (by decide)]
  simp only [parsePart, hTrim]
  simp [index, arrow, hRest]

/-- What is not trimmed stays behind a blank. -/
theorem trimRight_blank_cons {t : Text} (hne : t ≠ []) (h : trimSpace t = t) :
    trimRight isSpace (' ' :: t) = ' ' :: t := by
  have hRight : t.rdropWhile isSpace = t := by
    conv_lhs => rw [← h]
    conv_rhs => rw [← h]
    exact List.rdropWhile_idempotent ..
  rw [trimRight, List.rdropWhile_eq_self_iff]
  intro _
  rw [List.getLast_cons hne]
  exact List.rdropWhile_eq_self_iff.1 hRight hne

theorem arrow_infix_blank_cons {t : Text} : arrow <:+: ' ' :: t ↔ arrow <:+: t := by
  rw [List.infix_cons_iff]
  exact or_iff_right fun h => absurd (List.cons_prefix_cons.1 h).1 (by decide)

theorem index_tagMark (w : Text) : index arrow (tagMark ++ w) = (index arrow w).map (· + 4) := by
  simp [index, arrow, tagMark, Function.comp_def]

theorem parsePart_tag_iff {t : Text} (ht : ':' ∉ t) (hne : t ≠ []) :
    parsePart (tagMark ++ ' ' :: t) = some ⟨.tag, t⟩ ↔ trimSpace t = t ∧ ¬ arrow <:+: t := by
  obtain ⟨w, hw⟩ : ∃ w, w = trimRight isSpace (' ' :: t) := ⟨_, rfl⟩
  have hTrim : trimSpace (tagMark ++ ' ' :: t) = tagMark ++ w := by
    have hText : tagMark ++ ' ' :: t = 't' :: (['a', 'g'] ++ ':' :: ' ' :: t) := rfl
    rw [hText, trimSpace_append_cons (by decide) (by decide), hw]
    rfl
  have hRest : trimSpace w = trimSpace t := by rw [hw, trimSpace_trimRight, trimSpace_cons (by decide)]
  have hKept (h : trimSpace t = t) : arrow <:+: w ↔ arrow <:+: t := by
    rw [hw, trimRight_blank_cons hne h, arrow_infix_blank_cons]
  have hNil : tagMark ++ w ≠ [] := List.cons_ne_nil _ _
  simp only [parsePart, hTrim, if_neg hNil, index_tagMark]
  by_cases hArrow : arrow <:+: w
  · obtain ⟨idx, hIdx⟩ := Option.isSome_iff_exists.1 (index_isSome_iff.2 hArrow)
    have hDrop : (tagMark ++ w).drop (idx + 4 + 2) = w.drop (idx + 2) := rfl
    have hColon : ':' ∉ trimSpace (w.drop (idx + 2)) := fun h => by
      have hMem : ':' ∈ w := List.drop_subset _ _ ((trimSpace_within _).subset h)
      rw [hw] at hMem
      rcases List.mem_cons.1 ((List.rdropWhile_prefix ..).subset hMem) with hBlank | hMem
      · exact absurd hBlank (by decide)
      · exact ht hMem
    refine iff_of_false (fun h => ?_) fun h => h.2 ((hKept h.1).1 hArrow)
    simp only [hIdx, Option.map_some, hDrop] at h
    obtain ⟨-, -, hEq⟩ := (classify_eq_some_iff hColon).1 h
    have hKind : RefKind.tag = _ := congrArg GitRef.kind hEq
    split_ifs at hKind
  · have hHead : ¬ (tagMark ++ w = [] ∨ tagMark ++ w = headName) := by
      simp [tagMark, headName]
    have hMark : hasPrefix (tagMark ++ w) tagMark = true := List.isPrefixOf_iff_prefix.2 (List.prefix_append ..)
    have hName : trimSpace (trimPrefix (tagMark ++ w) tagMark) = trimSpace t := by
      rw [trimPrefix, if_pos hMark, List.drop_left, hRest]
    simp only [index_eq_none_iff.2 hArrow, Option.map_none, classify, if_neg hHead, hMark, if_true, hName]
    constructor
    · intro h
      split_ifs at h
      have hSame : trimSpace t = t := congrArg GitRef.name (Option.some.inj h)
      exact ⟨hSame, fun hIn => hArrow ((hKept hSame).2 hIn)⟩
    · intro h
      rw [h.1, if_pos hne]

/-- A ref without a comma is read as it is exactly when it decodes. -/
theorem parsePart_text_iff {d : Decoration} (h : ',' ∉ d.text) : parsePart d.text = d.ref ↔ d.Decodes := by
  cases d with
  | head => exact iff_of_true parsePart_head trivial
  | attached b =>
    have hComma : ',' ∉ b.1 := fun hMem => h (by simp [Decoration.text, hMem])
    have hColon : ':' ∉ trimSpace b.1 := fun hMem => b.not_colon ((trimSpace_within _).subset hMem)
    rw [Decoration.text, parsePart_attached, Decoration.ref, classify_eq_some_iff hColon]
    constructor
    · rintro ⟨-, hHead, hEq⟩
      obtain ⟨hKind, hName⟩ := GitRef.mk.injEq .. ▸ hEq
      rw [← hName] at hHead hKind
      refine ⟨⟨hComma, hName.symm⟩, hHead, fun hSlash => ?_⟩
      rw [if_pos hSlash] at hKind
      cases hKind
    · rintro ⟨⟨-, hTrim⟩, hHead, hSlash⟩
      rw [hTrim, if_neg hSlash]
      exact ⟨b.2.1, hHead, rfl⟩
  | localBranch b =>
    rw [Decoration.text, Decoration.ref, parsePart_branch_iff b.2.1 b.not_colon]
    constructor
    · rintro ⟨hTrim, hHead, hArrow, hKind⟩
      refine ⟨⟨h, hTrim⟩, hHead, fun hSlash => ?_, hArrow⟩
      rw [if_pos hSlash] at hKind
      cases hKind
    · rintro ⟨⟨-, hTrim⟩, hHead, hSlash, hArrow⟩
      exact ⟨hTrim, hHead, hArrow, (if_neg hSlash).symm⟩
  | remote b =>
    rw [Decoration.text, Decoration.ref, parsePart_branch_iff b.2.1 b.not_colon]
    constructor
    · rintro ⟨hTrim, -, hArrow, hKind⟩
      refine ⟨⟨h, hTrim⟩, ?_, hArrow⟩
      by_contra hSlash
      rw [if_neg hSlash] at hKind
      cases hKind
    · rintro ⟨⟨-, hTrim⟩, hSlash, hArrow⟩
      refine ⟨hTrim, ?_, hArrow, (if_pos hSlash).symm⟩
      rintro hHead
      exact absurd (hHead ▸ hSlash) (by decide)
  | tag t =>
    have hComma : ',' ∉ t.1 := fun hMem => h (by simp [Decoration.text, hMem])
    rw [Decoration.text, Decoration.ref, parsePart_tag_iff t.not_colon t.2.1]
    exact ⟨fun hTag => ⟨⟨hComma, hTag.1⟩, hTag.2⟩, fun hTag => ⟨hTag.1.2, hTag.2⟩⟩

/-! ### The decoration -/

/-- The loop over what stands between commas. -/
def parts (s : Text) : List GitRef := (s.splitOn ',').filterMap parsePart

theorem filterMap_cons_toList {α β : Type*} (f : α → Option β) (a : α) (l : List α) :
    (a :: l).filterMap f = (f a).toList ++ l.filterMap f := by
  cases h : f a with
  | none => rw [List.filterMap_cons_none h]; rfl
  | some r => rw [List.filterMap_cons_some h]; rfl

theorem parts_of_not_mem {s : Text} (h : ',' ∉ s) : parts s = (parsePart s).toList := by
  rw [parts, List.splitOn_eq_singleton h, filterMap_cons_toList, List.filterMap_nil, List.append_nil]

theorem parts_append_comma {u : Text} (h : ',' ∉ u) (v : Text) :
    parts (u ++ ',' :: v) = (parsePart u).toList ++ parts v := by
  rw [parts, List.splitOn_append_cons_self_of_not_mem h, filterMap_cons_toList]
  rfl

theorem comma_not_space {a : Text} (ha : ∀ x ∈ a, isSpace x = true) : ',' ∉ a := fun h =>
  absurd (ha ',' h) (by decide)

theorem parts_of_pos_append {a : Text} (ha : ∀ x ∈ a, isSpace x = true) (s : Text) :
    parts (a ++ s) = parts s := by
  by_cases hs : ',' ∈ s
  · obtain ⟨u, v, rfl, hu⟩ := List.eq_append_cons_of_mem hs
    have hau : ',' ∉ a ++ u := by simp [comma_not_space ha, hu]
    rw [← List.append_assoc, parts_append_comma hau, parts_append_comma hu, parsePart_append ha]
  · rw [parts_of_not_mem (by simp [comma_not_space ha, hs]), parts_of_not_mem hs, parsePart_append ha]

theorem parts_append_of_pos {b : Text} (hb : ∀ x ∈ b, isSpace x = true) (s : Text) :
    parts (s ++ b) = parts s := by
  induction hn : s.length using Nat.strongRecOn generalizing s with
  | ind n ih =>
    by_cases hs : ',' ∈ s
    · obtain ⟨u, v, rfl, hu⟩ := List.eq_append_cons_of_mem hs
      have hLess : v.length < n := by
        rw [← hn, List.length_append, List.length_cons]
        omega
      rw [List.append_assoc, List.cons_append, parts_append_comma hu, parts_append_comma hu, ih _ hLess v rfl]
    · rw [parts_of_not_mem (by simp [comma_not_space hb, hs]), parts_of_not_mem hs, parsePart_append_right hb]

theorem parseDecorate_eq (s : Text) : parseDecorate s = parts s := by
  obtain ⟨a, b, ha, hb, hs⟩ := exists_eq_append_trimSpace s
  have hTrim : parts s = parts (trimSpace s) := by
    conv_lhs => rw [hs, parts_of_pos_append ha, parts_append_of_pos hb]
  rw [hTrim]
  simp only [parseDecorate]
  split_ifs with hNil
  · rw [hNil]
    decide
  · rfl

/-- Without commas each ref is a part. -/
theorem parts_decorate {ds : List Decoration} (h : ∀ d ∈ ds, ',' ∉ d.text) :
    parts (decorate ds) = ds.filterMap fun d => parsePart d.text := by
  induction ds with
  | nil => decide
  | cons d ds ih =>
    obtain ⟨hd, hds⟩ := List.forall_mem_cons.1 h
    cases ds with
    | nil => rw [decorate, parts_of_not_mem hd, filterMap_cons_toList, List.filterMap_nil, List.append_nil]
    | cons d' ds =>
      have hBlank : parts (' ' :: decorate (d' :: ds)) = parts (decorate (d' :: ds)) :=
        parts_of_pos_append (a := [' ']) (List.forall_mem_singleton.2 rfl) _
      rw [decorate, parts_append_comma hd, hBlank, ih hds, filterMap_cons_toList _ d]
      exact List.cons_ne_nil _ _

theorem not_comma_of_mem_parts {s : Text} {r : GitRef} (h : r ∈ parts s) : ',' ∉ r.name := by
  obtain ⟨p, hp, hr⟩ := List.mem_filterMap.1 h
  exact fun hMem => not_mem_of_mem_splitOn hp (parsePart_name_subset hr hMem)

theorem Decoration.not_comma_iff (d : Decoration) : ',' ∉ d.text ↔ ∀ r, d.ref = some r → ',' ∉ r.name := by
  cases d <;> simp [text, ref, headName, arrow, tagMark]

theorem Decoration.Decodes.not_comma {d : Decoration} (h : d.Decodes) : ',' ∉ d.text := by
  rw [Decoration.not_comma_iff]
  intro r hr
  cases d with
  | head => cases hr
  | attached b => cases hr; exact h.1.1
  | localBranch b => cases hr; exact h.1.1
  | remote b => cases hr; exact h.1.1
  | tag t => cases hr; exact h.1.1

/-- What gives nothing more than the other gives the same list only where it gives the same. -/
theorem eq_of_filterMap_eq {α β : Type*} {f g : α → Option β} {l : List α}
    (h : ∀ a ∈ l, g a = none → f a = none) (heq : l.filterMap f = l.filterMap g) : ∀ a ∈ l, f a = g a := by
  have hLength (l : List α) (h : ∀ a ∈ l, g a = none → f a = none) :
    (l.filterMap f).length ≤ (l.filterMap g).length := by
    induction l with
    | nil => exact le_rfl
    | cons a l ih =>
      have hRest := ih fun a ha => h a (List.mem_cons_of_mem _ ha)
      cases hg : g a with
      | none => rwa [List.filterMap_cons_none hg, List.filterMap_cons_none (h a List.mem_cons_self hg)]
      | some y =>
        rw [List.filterMap_cons_some hg, List.length_cons]
        cases hf : f a with
        | none => rw [List.filterMap_cons_none hf]; omega
        | some x => rw [List.filterMap_cons_some hf, List.length_cons]; omega
  induction l with
  | nil => exact fun a ha => absurd ha List.not_mem_nil
  | cons a l ih =>
    have hTail : ∀ b ∈ l, g b = none → f b = none := fun b hb => h b (List.mem_cons_of_mem _ hb)
    cases hg : g a with
    | none =>
      have hf := h a List.mem_cons_self hg
      rw [List.filterMap_cons_none hg, List.filterMap_cons_none hf] at heq
      exact List.forall_mem_cons.2 ⟨hf.trans hg.symm, ih hTail heq⟩
    | some y =>
      rw [List.filterMap_cons_some hg] at heq
      cases hf : f a with
      | none =>
        rw [List.filterMap_cons_none hf] at heq
        have hLong := hLength l hTail
        rw [heq, List.length_cons] at hLong
        omega
      | some x =>
        rw [List.filterMap_cons_some hf, List.cons.injEq] at heq
        exact List.forall_mem_cons.2 ⟨hf.trans (heq.1 ▸ hg.symm), ih hTail heq.2⟩

/-- The refs are those printed exactly when each decodes. -/
theorem parseDecorate_iff (ds : List Decoration) :
    parseDecorate (decorate ds) = ds.filterMap Decoration.ref ↔ ∀ d ∈ ds, d.Decodes := by
  rw [parseDecorate_eq]
  constructor
  · intro heq
    have hComma : ∀ d ∈ ds, ',' ∉ d.text := fun d hd => by
      rw [Decoration.not_comma_iff]
      intro r hr
      exact not_comma_of_mem_parts (heq ▸ List.mem_filterMap.2 ⟨d, hd, hr⟩)
    rw [parts_decorate hComma] at heq
    have hHead : ∀ d ∈ ds, d.ref = none → parsePart d.text = none := by
      intro d _ hd
      cases d with
      | head => exact parsePart_head
      | attached b => cases hd
      | localBranch b => cases hd
      | remote b => cases hd
      | tag t => cases hd
    exact fun d hd => (parsePart_text_iff (hComma d hd)).1 (eq_of_filterMap_eq hHead heq d hd)
  · intro h
    rw [parts_decorate fun d hd => (h d hd).not_comma]
    exact List.filterMap_congr fun d hd => (parsePart_text_iff (h d hd).not_comma).2 (h d hd)

/-! ### Fields -/

section Fields

variable {fs : List Text} {last : Text}

theorem splitN_append_cons {sep : Char} {a : Text} (h : sep ∉ a) (n : ℕ) (rest : Text) :
    splitN sep (n + 2) (a ++ sep :: rest) = a :: splitN sep (n + 1) rest := by
  have hNe : ∀ c ∈ a, decide (c ≠ sep) = true := fun c hc => decide_eq_true fun hEq => h (hEq ▸ hc)
  have hMem : sep ∈ a ++ sep :: rest := by simp
  rw [splitN, if_pos hMem, List.takeWhile_append_of_pos hNe, List.dropWhile_append_of_pos hNe]
  simp

theorem splitN_tabbed (h : ∀ f ∈ fs, '\t' ∉ f) :
    splitN '\t' (fs.length + 1) (tabbed fs last) = fs ++ [last] := by
  induction fs with
  | nil => rfl
  | cons f fs ih =>
    obtain ⟨hf, hfs⟩ := List.forall_mem_cons.1 h
    have hTabbed : tabbed (f :: fs) last = f ++ '\t' :: tabbed fs last := rfl
    rw [hTabbed, List.length_cons, splitN_append_cons hf, ih hfs]
    rfl

theorem length_splitN_le (sep : Char) (n : ℕ) (s : Text) : (splitN sep n s).length ≤ s.count sep + 1 := by
  induction n using Nat.strongRecOn generalizing s with
  | ind n ih =>
    match n with
    | 0 => exact Nat.zero_le _
    | 1 => exact Nat.le_add_left ..
    | n + 2 =>
      rw [splitN]
      split_ifs with hMem
      · obtain ⟨a, rest, rfl, ha⟩ := List.eq_append_cons_of_mem hMem
        have hNe : ∀ c ∈ a, decide (c ≠ sep) = true := fun c hc => decide_eq_true fun hEq => ha (hEq ▸ hc)
        have hRest := ih (n + 1) (by omega) rest
        rw [List.dropWhile_append_of_pos hNe]
        simp only [List.length_cons, List.count_append, List.count_cons_self]
        simp only [ne_eq, not_true_eq_false, decide_false, Bool.false_eq_true, not_false_eq_true,
          List.dropWhile_cons_of_neg, List.drop_one, List.tail_cons]
        omega
      · exact Nat.le_add_left ..

theorem trimRight_tabbed {p : Char → Bool} (hp : p '\t' = false) :
    trimRight p (tabbed fs last) = tabbed fs (trimRight p last) := by
  induction fs with
  | nil => rfl
  | cons f fs ih =>
    have hTabbed (l : Text) : tabbed (f :: fs) l = f ++ '\t' :: tabbed fs l := rfl
    rw [hTabbed, hTabbed, trimRight, rdropWhile_append_cons hp, ← trimRight, ih]

theorem of_mem_tabbed {c : Char} (h : c ∈ tabbed fs last) : (∃ f ∈ fs, c ∈ f) ∨ c = '\t' ∨ c ∈ last := by
  induction fs with
  | nil => exact .inr (.inr h)
  | cons f fs ih =>
    have hTabbed : tabbed (f :: fs) last = f ++ '\t' :: tabbed fs last := rfl
    rw [hTabbed, List.mem_append, List.mem_cons] at h
    rcases h with hf | rfl | h
    · exact .inl ⟨f, List.mem_cons_self, hf⟩
    · exact .inr (.inl rfl)
    · exact (ih h).imp_left fun ⟨g, hg, hc⟩ => ⟨g, List.mem_cons_of_mem _ hg, hc⟩

theorem takeWhile_tabbed {c : Char} (hc : c ≠ '\t') (h : ∀ f ∈ fs, c ∉ f) :
    (tabbed fs last).takeWhile (· ≠ c) = tabbed fs (last.takeWhile (· ≠ c)) := by
  induction fs with
  | nil => rfl
  | cons f fs ih =>
    obtain ⟨hf, hfs⟩ := List.forall_mem_cons.1 h
    have hTabbed (l : Text) : tabbed (f :: fs) l = f ++ '\t' :: tabbed fs l := rfl
    have hNe : ∀ x ∈ f, decide (x ≠ c) = true := fun x hx => decide_eq_true fun hEq => hf (hEq ▸ hx)
    rw [hTabbed, hTabbed, List.takeWhile_append_of_pos hNe, List.takeWhile_cons_of_pos (by simp [hc.symm]),
      ih hfs]

end Fields

/-! ### Parents -/

theorem fields_append_cons {c : Char} (hc : isSpace c = true) (x y : Text) :
    fields (x ++ c :: y) = fields x ++ fields y := by
  rw [fields, List.splitOnP_append_cons x y hc, List.filter_append, fields, fields]

theorem fields_of_pos {s : Text} (h : ∀ c ∈ s, isSpace c = true) : fields s = [] := by
  induction s with
  | nil => rfl
  | cons c s ih =>
    obtain ⟨hc, hs⟩ := List.forall_mem_cons.1 h
    have hCut := fields_append_cons hc [] s
    rw [ih hs] at hCut
    exact hCut

theorem fields_word {w : Text} (hne : w ≠ []) (h : ∀ c ∈ w, isSpace c = false) : fields w = [w] := by
  rw [fields, List.splitOnP_eq_singleton h]
  simp [hne]

theorem isSpace_of_plain {s : Text} (h : IsPlain s) : ∀ c ∈ s, isSpace c = false := by
  intro c hc
  obtain ⟨hLow, hHigh⟩ := h c hc
  have hLow' : 0x20 < c.toNat := hLow
  have hHigh' : c.toNat < 0x7f := hHigh
  simp only [isSpace, Bool.or_eq_false_iff, Bool.and_eq_false_iff, decide_eq_false_iff_not]
  omega

theorem fields_trimSpace (s : Text) : fields (trimSpace s) = fields s := by
  have hFront {a : Text} (ha : ∀ c ∈ a, isSpace c = true) (s : Text) : fields (a ++ s) = fields s := by
    induction a with
    | nil => rfl
    | cons c a ih =>
      obtain ⟨hc, ha⟩ := List.forall_mem_cons.1 ha
      have hCut := fields_append_cons hc [] (a ++ s)
      rwa [ih ha] at hCut
  have hBack {b : Text} (hb : ∀ c ∈ b, isSpace c = true) (s : Text) : fields (s ++ b) = fields s := by
    cases b with
    | nil => rw [List.append_nil]
    | cons c b =>
      obtain ⟨hc, hb⟩ := List.forall_mem_cons.1 hb
      rw [fields_append_cons hc, fields_of_pos hb, List.append_nil]
  obtain ⟨a, b, ha, hb, hs⟩ := exists_eq_append_trimSpace s
  conv_rhs => rw [hs, hFront ha, hBack hb]

theorem parseParents_eq (s : Text) : parseParents s = fields s := by
  simp only [parseParents]
  split_ifs with h
  · exact fields_trimSpace s
  · rw [← fields_trimSpace, not_not.1 h]
    rfl

theorem parseParents_intercalate {parents : List Text} (h : ∀ p ∈ parents, p ≠ [] ∧ IsPlain p) :
    parseParents ([' '].intercalate parents) = parents := by
  rw [parseParents_eq]
  induction parents with
  | nil => rfl
  | cons p ps ih =>
    obtain ⟨⟨hNe, hPlain⟩, hps⟩ := List.forall_mem_cons.1 h
    cases ps with
    | nil => rw [List.intercalate_singleton, fields_word hNe (isSpace_of_plain hPlain)]
    | cons q ps =>
      rw [List.intercalate_cons_cons, List.append_assoc, List.singleton_append, fields_append_cons (by decide),
        fields_word hNe (isSpace_of_plain hPlain), ih hps]
      rfl

/-! ### Records -/

/-- Without control characters. -/
def IsPrinted (s : Text) : Prop := ∀ c ∈ s, ' ' ≤ c

instance : DecidablePred IsPrinted := fun s => List.decidableBAll _ s

theorem IsPlain.printed {s : Text} (h : IsPlain s) : IsPrinted s := fun c hc => (h c hc).1.le

theorem IsPrinted.not_mem {s : Text} (h : IsPrinted s) {c : Char} (hc : c < ' ') : c ∉ s := fun hMem =>
  absurd hc (not_lt.2 (h c hMem))

theorem IsPrinted.append {s t : Text} (hs : IsPrinted s) (ht : IsPrinted t) : IsPrinted (s ++ t) := fun c hc =>
  (List.mem_append.1 hc).elim (hs c) (ht c)

theorem Decoration.printed (d : Decoration) : IsPrinted d.text := by
  have hName (n : RefName) : IsPrinted n.1 := fun c hc => (n.2.2 c hc).1.le
  cases d with
  | head => exact (by decide : IsPrinted headName)
  | attached b =>
    exact (by decide : IsPrinted (headName ++ ' ' :: (arrow ++ [' ']))).append (hName b)
  | localBranch b => exact hName b
  | remote b => exact hName b
  | tag t =>
    exact (by decide : IsPrinted (tagMark ++ [' '])).append (hName t)

theorem printed_decorate (ds : List Decoration) : IsPrinted (decorate ds) := by
  induction ds with
  | nil => exact fun c hc => absurd hc List.not_mem_nil
  | cons d ds ih =>
    cases ds with
    | nil => exact d.printed
    | cons d' ds =>
      have hCut : IsPrinted [',', ' '] := by decide
      exact d.printed.append (hCut.append ih)

theorem printed_intercalate {ps : List Text} (h : ∀ p ∈ ps, IsPrinted p) :
    IsPrinted ([' '].intercalate ps) := by
  induction ps with
  | nil => exact fun c hc => absurd hc List.not_mem_nil
  | cons p ps ih =>
    obtain ⟨hp, hps⟩ := List.forall_mem_cons.1 h
    cases ps with
    | nil => rwa [List.intercalate_singleton]
    | cons q ps =>
      rw [List.intercalate_cons_cons]
      exact (hp.append (by decide : IsPrinted [' '])).append (ih hps)

namespace Commit

variable (c : Commit)

theorem printed_parentField : IsPrinted c.parentField :=
  printed_intercalate fun p hp => (c.plainParents p hp).2.printed

/-- The fields before the subject have no tab, and no line break. -/
theorem fields_clean {x : Char} (hx : x = '\t' ∨ x = '\n') :
    ∀ f ∈ [c.hash, c.shortHash, c.parentField, c.authorName, c.authorEmail, c.authorDate, decorate c.refs],
      x ∉ f := by
  have hLow : x < ' ' := by rcases hx with rfl | rfl <;> decide
  have hField {s : Text} (hs : IsField s) : x ∉ s := fun hMem => by
    rcases hx with rfl | rfl
    · exact (hs _ hMem).1 rfl
    · exact (hs _ hMem).2.1 rfl
  simp only [List.forall_mem_cons]
  exact ⟨c.plain.1.printed.not_mem hLow, c.plain.2.1.printed.not_mem hLow, c.printed_parentField.not_mem hLow,
    hField c.author.1, hField c.author.2, c.plain.2.2.printed.not_mem hLow, (printed_decorate _).not_mem hLow,
    fun _ h => absurd h List.not_mem_nil⟩

theorem newline_not_mem_logLine : '\n' ∉ c.logLine := by
  intro h
  rcases of_mem_tabbed h with ⟨f, hf, hMem⟩ | hTab | hMem
  · exact c.fields_clean (.inr rfl) f hf hMem
  · exact absurd hTab (by decide)
  · exact c.oneLine.1 hMem

theorem parseParents_parentField :
    parseParents c.parentField = c.parents := parseParents_intercalate c.plainParents

/-- A line of the log gives its commit, but for the refs. -/
theorem parseLine_logLine :
    parseLine c.logLine = some { c.expected with refs := parseDecorate (decorate c.refs) } := by
  have hSubject : trimRight (· = '\r') c.subject = c.subject := by
    rw [trimRight, List.rdropWhile_eq_self_iff]
    intro hNe hLast
    apply c.oneLine.2
    rw [List.getLast?_eq_getLast_of_ne_nil hNe, of_decide_eq_true hLast]
  have hTrim : trimRight (· = '\r') c.logLine = c.logLine := by
    rw [logLine, trimRight_tabbed (by decide), hSubject]
  have hNe : c.logLine ≠ [] := by
    have hTab : '\t' ∈ c.logLine := List.mem_append_right c.hash List.mem_cons_self
    exact List.ne_nil_of_mem hTab
  have hSplit : splitN '\t' gitLogFieldCount c.logLine =
      [c.hash, c.shortHash, c.parentField, c.authorName, c.authorEmail, c.authorDate, decorate c.refs,
        c.subject] :=
    splitN_tabbed (c.fields_clean (.inl rfl))
  simp only [parseLine, hTrim, if_neg hNe, hSplit, c.parseParents_parentField]
  rfl

end Commit

theorem parseGitLog_logText (commits : List Commit) :
    parseGitLog (logText commits) =
      commits.map fun c => { c.expected with refs := parseDecorate (decorate c.refs) } := by
  by_cases hNil : commits = []
  · subst hNil
    rfl
  · have hLines : splitLines (logText commits) = commits.map Commit.logLine := by
      rw [splitLines, logText, List.splitOn_intercalate]
      · intro l hl
        obtain ⟨c, -, rfl⟩ := List.mem_map.1 hl
        exact c.newline_not_mem_logLine
      · exact fun h => hNil (List.map_eq_nil_iff.1 h)
    have hText : logText commits ≠ [] := by
      intro h
      have hSplit := hLines
      rw [h] at hSplit
      obtain ⟨c, cs, rfl⟩ := List.exists_cons_of_ne_nil hNil
      have hFirst : c.logLine = [] := (List.cons.inj hSplit.symm).1
      have hTab : '\t' ∈ c.logLine := List.mem_append_right c.hash List.mem_cons_self
      exact absurd (hFirst ▸ hTab) List.not_mem_nil
    rw [parseGitLog, if_neg hText, hLines, List.filterMap_map]
    rw [← List.filterMap_eq_map]
    exact List.filterMap_congr fun c _ => c.parseLine_logLine

namespace Commit

variable (c : Commit)

/-- With the author whole, `git show` gives the commit's refs as they are read. -/
theorem refs_of_show (h : c.ShowsAuthor) (body : Text) :
    (parseGitShowMeta (c.showText body)).map GitShowMeta.refs = .ok (parseDecorate (decorate c.refs)) := by
  have hLow : unitSeparator < ' ' := by decide
  have hClean : ∀ f ∈ [c.hash, c.parentField, c.authorName, c.authorEmail, c.authorDate, decorate c.refs],
      unitSeparator ∉ f := by
    simp only [List.forall_mem_cons]
    exact ⟨c.plain.1.printed.not_mem hLow, c.printed_parentField.not_mem hLow, h.1, h.2,
      c.plain.2.2.printed.not_mem hLow, (printed_decorate _).not_mem hLow, fun _ h => absurd h List.not_mem_nil⟩
  have hTabs : ∀ f ∈ [c.hash, c.parentField, c.authorName, c.authorEmail, c.authorDate, decorate c.refs],
      '\t' ∉ f := by
    have hAll := c.fields_clean (.inl rfl)
    simp only [List.forall_mem_cons] at hAll ⊢
    exact ⟨hAll.1, hAll.2.2⟩
  have hTrim : trimRight (fun c => c = '\n' || c = '\r') (c.showText body) =
      tabbed [c.hash, c.parentField, c.authorName, c.authorEmail, c.authorDate, decorate c.refs]
        (c.subject ++ unitSeparator :: trimRight (fun c => c = '\n' || c = '\r') body) := by
    rw [showText, trimRight_tabbed (by decide), trimRight, rdropWhile_append_cons (by decide), ← trimRight]
  have hHead (rest : Text) :
      (tabbed [c.hash, c.parentField, c.authorName, c.authorEmail, c.authorDate, decorate c.refs]
        (c.subject ++ unitSeparator :: rest)).takeWhile (· ≠ unitSeparator) =
      tabbed [c.hash, c.parentField, c.authorName, c.authorEmail, c.authorDate, decorate c.refs]
        ((c.subject ++ unitSeparator :: rest).takeWhile (· ≠ unitSeparator)) :=
    takeWhile_tabbed (by decide) hClean
  have hSplit (last : Text) :
      splitN '\t' 7
        (tabbed [c.hash, c.parentField, c.authorName, c.authorEmail, c.authorDate, decorate c.refs] last) =
      [c.hash, c.parentField, c.authorName, c.authorEmail, c.authorDate, decorate c.refs, last] :=
    splitN_tabbed hTabs
  simp only [parseGitShowMeta, hTrim, hHead, hSplit]
  rfl

/-- Cut behind the author, the record has too few fields. -/
theorem show_malformed (h : ¬ c.ShowsAuthor) (body : Text) :
    parseGitShowMeta (c.showText body) = .error .malformed := by
  obtain ⟨front, hFront⟩ :
    ∃ front, front = tabbed [c.hash, c.parentField, c.authorName] c.authorEmail := ⟨_, rfl⟩
  obtain ⟨rest, hRest⟩ : ∃ rest, rest = tabbed [c.authorDate, decorate c.refs]
      (c.subject ++ unitSeparator :: trimRight (fun c => c = '\n' || c = '\r') body) := ⟨_, rfl⟩
  have hTrim : trimRight (fun c => c = '\n' || c = '\r') (c.showText body) = front ++ '\t' :: rest := by
    rw [showText, trimRight_tabbed (by decide), trimRight, rdropWhile_append_cons (by decide), ← trimRight,
      hFront, hRest]
    simp [tabbed]
  have hMem : unitSeparator ∈ front := by
    rw [hFront]
    simp only [ShowsAuthor, not_and_or, not_not] at h
    simp only [tabbed, List.foldr_cons, List.foldr_nil, List.mem_append, List.mem_cons]
    tauto
  have hTabs : front.count '\t' = 3 := by
    have hAll := c.fields_clean (.inl rfl)
    simp only [List.forall_mem_cons] at hAll
    rw [hFront]
    simp [tabbed, List.count_eq_zero_of_not_mem hAll.1, List.count_eq_zero_of_not_mem hAll.2.2.1,
      List.count_eq_zero_of_not_mem hAll.2.2.2.1, List.count_eq_zero_of_not_mem hAll.2.2.2.2.1]
  obtain ⟨a, b, hab, ha⟩ := List.eq_append_cons_of_mem hMem
  have hHead : (front ++ '\t' :: rest).takeWhile (· ≠ unitSeparator) = a := by
    have hNe : ∀ x ∈ a, decide (x ≠ unitSeparator) = true := fun x hx => decide_eq_true fun hEq => ha (hEq ▸ hx)
    rw [hab, List.append_assoc, List.takeWhile_append_of_pos hNe]
    simp
  have hLength : (splitN '\t' 7 a).length ≤ 4 := by
    have hCount : a.count '\t' ≤ front.count '\t' := by
      rw [hab, List.count_append]
      exact Nat.le_add_right ..
    have hSplit := length_splitN_le '\t' 7 a
    omega
  simp only [parseGitShowMeta, hTrim, hHead]
  split
  · rename_i hSeven
    rw [hSeven] at hLength
    simp at hLength
  · rfl

end Commit

/-- The log and each of its commits shown come back with their refs exactly when every ref decodes
and no author has the separator of `git show`. -/
theorem records_come_back_iff (commits : List Commit) :
    (parseGitLog (logText commits) = commits.map Commit.expected ∧
      ∀ c ∈ commits, ∀ body, (parseGitShowMeta (c.showText body)).map GitShowMeta.refs = .ok c.expectedRefs) ↔
    ∀ c ∈ commits, c.ShowsAuthor ∧ ∀ d ∈ c.refs, d.Decodes := by
  have hLog (c : Commit) : { c.expected with refs := parseDecorate (decorate c.refs) } = c.expected ↔
      parseDecorate (decorate c.refs) = c.refs.filterMap Decoration.ref := by
    simp [Commit.expected, Commit.expectedRefs]
  rw [parseGitLog_logText, List.map_inj_left]
  constructor
  · rintro ⟨hRefs, hShow⟩ c hc
    refine ⟨?_, (parseDecorate_iff c.refs).1 ((hLog c).1 (hRefs c hc))⟩
    by_contra hNot
    have hBody := hShow c hc []
    rw [c.show_malformed hNot] at hBody
    cases hBody
  · intro h
    have hRefs (c : Commit) (hc : c ∈ commits) : parseDecorate (decorate c.refs) = c.expectedRefs :=
      (parseDecorate_iff c.refs).2 (h c hc).2
    refine ⟨fun c hc => (hLog c).2 (hRefs c hc), fun c hc body => ?_⟩
    rw [c.refs_of_show (h c hc).1, hRefs c hc]

/-- A commit with a branch whose name has a slash. -/
def featureCommit : Commit where
  hash := ['a', 'b']
  shortHash := ['a']
  parents := []
  authorName := ['A']
  authorEmail := ['e']
  authorDate := ['2']
  refs := [.attached ⟨['f', '/', 'x'], by decide⟩, .tag ⟨['v', ',', '1'], by decide⟩]
  subject := ['s', '\t']
  plain := by decide
  plainParents := by decide
  author := by decide
  oneLine := by decide

/-- The branch is read as a remote one, and the tag is cut in two. -/
theorem feature_as_remote :
    (parseGitLog (logText [featureCommit])).map GitLogCommit.refs =
        [[⟨.remote, ['f', '/', 'x']⟩, ⟨.tag, ['v']⟩, ⟨.localBranch, ['1']⟩]] ∧
      [featureCommit].map Commit.expectedRefs = [[⟨.localBranch, ['f', '/', 'x']⟩, ⟨.tag, ['v', ',', '1']⟩]] ∧
      parseGitLog (logText [featureCommit]) ≠ [featureCommit].map Commit.expected := by
  decide

end ManyAiCli.Hub.GitLog
