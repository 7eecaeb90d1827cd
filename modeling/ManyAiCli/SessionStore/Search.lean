import ManyAiCli.SessionStore.HistoryIndex
import ManyAiCli.Text.Like
import ManyAiCli.Text.Parts
import ManyAiCli.Text.Phrases
import Mathlib.Data.List.Sort

/-! A search asks the full text index, and where that fails it looks for the query with `LIKE`. What the
user has typed goes into both as it is: a quote, an operator or a wildcard of theirs must not be one. -/

namespace ManyAiCli.SessionStore.History

open Tables Text

/-! ### The queries -/

def likeEscaper (c : Char) : List Char :=
  if c = '\\' then ['\\', '\\'] else if c = '%' then ['\\', '%'] else if c = '_' then ['\\', '_'] else [c]

def likePattern (query : Str) : Str := ['%'] ++ query.flatMap likeEscaper ++ ['%']

/-- A text as SQLite reads it, up to the first NUL. -/
def cText (s : Str) : Str := s.takeWhile (· ≠ Char.ofNat 0)

/-- `text LIKE pattern ESCAPE '\'` -/
def sqlLike (pattern text : Str) : Bool := Like.like '\\' (cText pattern) (cText text)

def doubleQuotes (c : Char) : List Char := if c = '"' then ['"', '"'] else [c]

def ftsQuery (q : Str) : Str :=
  let parts := if fields q = [] then [q] else fields q
  let quoted := ((parts.map trimSpace).filter (· ≠ [])).map fun p => ['"'] ++ p.flatMap doubleQuotes ++ ['"']
  if quoted = [] then ['"', '"'] else [' ', 'A', 'N', 'D', ' '].intercalate quoted

/-! ### The search -/

/-- The first hit is no older. -/
def NoOlder (a b : SearchHit) : Prop := b.message.id ≤ a.message.id

instance : DecidableRel NoOlder := fun a b => inferInstanceAs (Decidable (b.message.id ≤ a.message.id))

instance : Std.Total NoOlder := ⟨fun a b => Nat.le_total b.message.id a.message.id⟩

instance : IsTrans SearchHit NoOlder := ⟨fun _ _ _ hab hbc => Nat.le_trans hbc hab⟩

/-- `ORDER BY m.id DESC LIMIT ?` -/
def newestFirst (limit : ℕ) (hits : List SearchHit) : List SearchHit := (hits.insertionSort NoOlder).take limit

def Store.searchLike (db : Store) (query : Str) (limit : ℕ) : List SearchHit :=
  newestFirst limit <| (db.messages.rows.filter fun m => sqlLike (likePattern query) m.val.text).flatMap fun m =>
    (db.sessions.rows.filter fun q => q.id = m.owner).map fun q => ⟨m, q⟩

def searchLimit (limit : ℤ) : ℕ := if limit ≤ 0 ∨ 100 < limit then 50 else limit.toNat

/-- `SearchMessages`; the answer of the index is given, and is `none` where it fails. -/
def Store.searchMessages (db : Store) (index : Str → ℕ → Option (List SearchHit)) (query : Str) (limit : ℤ) :
    List SearchHit :=
  if trimSpace query = [] then []
  else match index (ftsQuery (trimSpace query)) (searchLimit limit) with
    | some hits => hits
    | none => db.searchLike (trimSpace query) (searchLimit limit)

/-! ### What `LIKE` finds -/

/-- The text holds the query, up to the case of the letters of ASCII. -/
def Holds (query text : Str) : Prop := ∃ a m b, cText text = a ++ m ++ b ∧ m.map Like.fold = query.map Like.fold

theorem flatMap_likeEscaper (query : Str) : query.flatMap likeEscaper = Like.escaped '\\' query := by
  rw [Like.escaped]
  congr 1
  funext c
  rw [likeEscaper]
  split_ifs <;> simp_all

theorem cText_eq_self {s : Str} (h : Char.ofNat 0 ∉ s) : cText s = s := by
  rw [cText, List.takeWhile_eq_self_iff]
  intro c hc
  apply decide_eq_true
  rintro rfl
  exact h hc

theorem mem_likeEscaper {c d : Char} (h : c ∈ likeEscaper d) : c = d ∨ c = '\\' := by
  rw [likeEscaper] at h
  split_ifs at h <;> simp only [List.mem_cons, List.not_mem_nil, or_false] at h <;> grind

theorem cText_likePattern {query : Str} (h : Char.ofNat 0 ∉ query) : cText (likePattern query) = likePattern query := by
  apply cText_eq_self
  intro hmem
  rw [likePattern, List.mem_append, List.mem_append, List.mem_flatMap] at hmem
  rcases hmem with (hmem | ⟨d, hd, hmem⟩) | hmem
  · exact absurd hmem (by decide)
  · rcases mem_likeEscaper hmem with rfl | hslash
    · exact h hd
    · exact absurd hslash (by decide)
  · exact absurd hmem (by decide)

/-- No character of the query is a wildcard. -/
theorem sqlLike_likePattern {query text : Str} (h : Char.ofNat 0 ∉ query) :
    sqlLike (likePattern query) text = true ↔ Holds query text := by
  rw [sqlLike, cText_likePattern h, likePattern, flatMap_likeEscaper]
  exact Like.like_escaped (by decide)

/-! ### The newest ones -/

variable {T : Texts} {db : Store} {limit : ℕ} {hits : List SearchHit}

theorem newestFirst_sorted (hn : (hits.map (·.message.id)).Nodup) :
    (hits.insertionSort NoOlder).Pairwise fun a b => b.message.id < a.message.id := by
  have hle := List.pairwise_insertionSort NoOlder hits
  have hperm : ((hits.insertionSort NoOlder).map (·.message.id)).Nodup :=
    ((List.perm_insertionSort NoOlder hits).map _).nodup_iff.2 hn
  have hne := List.pairwise_map.1 hperm
  exact (hle.and hne).imp fun h => Nat.lt_of_le_of_ne h.1 (Ne.symm h.2)

theorem mem_newestFirst {hit : SearchHit} (h : hit ∈ newestFirst limit hits) : hit ∈ hits :=
  (List.mem_insertionSort NoOlder).1 (List.mem_of_mem_take h)

/-- A hit that is not there is older than the ones that fill the answer. -/
theorem mem_newestFirst_or (hn : (hits.map (·.message.id)).Nodup) {hit : SearchHit} (h : hit ∈ hits) :
    hit ∈ newestFirst limit hits ∨ (newestFirst limit hits).length = limit ∧
      ∀ other ∈ newestFirst limit hits, hit.message.id < other.message.id := by
  have hsorted := newestFirst_sorted hn
  have hmem := (List.mem_insertionSort NoOlder).2 h
  rw [← List.take_append_drop limit (hits.insertionSort NoOlder)] at hsorted hmem
  rcases List.mem_append.1 hmem with hmem | hmem
  · exact .inl hmem
  · have hlong := List.length_pos_of_mem hmem
    rw [List.length_drop] at hlong
    refine .inr ⟨?_, fun other hother => (List.pairwise_append.1 hsorted).2.2 other hother hit hmem⟩
    rw [newestFirst, List.length_take]
    omega

/-! ### One hit for a message -/

/-- Where the keys are distinct, a key is that of one entry. -/
theorem filter_eq_singleton {α β : Type} [DecidableEq β] {f : α → β} {xs : List α} (hn : (xs.map f).Nodup) {x : α}
    (hx : x ∈ xs) : xs.filter (fun y => f y = f x) = [x] := by
  induction xs with
  | nil => exact nomatch hx
  | cons y ys ih =>
    obtain ⟨hy, hn⟩ := List.nodup_cons.1 hn
    rw [List.filter_cons]
    rcases List.mem_cons.1 hx with rfl | hx
    · rw [if_pos (decide_eq_true rfl), List.filter_eq_nil_iff.2]
      intro z hz hfz
      rw [← of_decide_eq_true hfz] at hy
      exact hy (List.mem_map_of_mem hz)
    · rw [if_neg, ih hn hx]
      intro hyx
      rw [of_decide_eq_true hyx] at hy
      exact hy (List.mem_map_of_mem hx)

/-- Each message is joined with its session. -/
theorem Store.Sound.map_message (hs : db.Sound) (p : Owned MessageRow → Bool) :
    ((db.messages.rows.filter p).flatMap fun m =>
      (db.sessions.rows.filter fun q => q.id = m.owner).map fun q => (⟨m, q⟩ : SearchHit)).map (·.message) =
      db.messages.rows.filter p := by
  rw [List.map_flatMap]
  have hone : ∀ m ∈ db.messages.rows.filter p,
      ((db.sessions.rows.filter fun q => q.id = m.owner).map fun q => (⟨m, q⟩ : SearchHit)).map (·.message) = [m] := by
    intro m hm
    obtain ⟨q, hq, hid⟩ := List.mem_map.1 (hs.owners .messages m (List.mem_filter.1 hm).1)
    rw [← hid, filter_eq_singleton db.sessions.ids_nodup hq]
    rfl
  rw [List.flatMap_congr hone, List.flatMap_singleton']

/-- In every state that the store gets to, a search without the index answers with the newest messages that
hold the query, wildcards and all, each with its session; what it leaves out is older than a full answer. -/
theorem searchMessages_newest {run : List Act} {s : State} {es : List Event}
    (h : Runs.exec (step T) State.empty run = some (s, es)) {query : Str} (hnul : Char.ofNat 0 ∉ query)
    (hquery : trimSpace query ≠ []) (limit : ℤ) :
    ((s.store.searchMessages (fun _ _ => none) query limit).Pairwise fun a b => b.message.id < a.message.id) ∧
    (s.store.searchMessages (fun _ _ => none) query limit).length ≤ searchLimit limit ∧
    (∀ hit ∈ s.store.searchMessages (fun _ _ => none) query limit,
      hit.message ∈ s.store.messages.rows ∧ Holds (trimSpace query) hit.message.val.text ∧
      hit.session ∈ s.store.sessions.rows ∧ hit.session.id = hit.message.owner) ∧
    ∀ m ∈ s.store.messages.rows, Holds (trimSpace query) m.val.text →
      (∃ hit ∈ s.store.searchMessages (fun _ _ => none) query limit, hit.message = m) ∨
      (s.store.searchMessages (fun _ _ => none) query limit).length = searchLimit limit ∧
        ∀ hit ∈ s.store.searchMessages (fun _ _ => none) query limit, m.id < hit.message.id := by
  have hs := (indexInv_run h).sound
  have hnul' : Char.ofNat 0 ∉ trimSpace query := fun hmem => hnul ((trimSpace_within query).subset hmem)
  rw [Store.searchMessages, if_neg hquery]
  show (Store.searchLike ..).Pairwise _ ∧ _
  have hmap := hs.map_message fun m => sqlLike (likePattern (trimSpace query)) m.val.text
  have hn : (((s.store.messages.rows.filter fun m => sqlLike (likePattern (trimSpace query)) m.val.text).flatMap fun m =>
      (s.store.sessions.rows.filter fun q => q.id = m.owner).map fun q => (⟨m, q⟩ : SearchHit)).map
        (·.message.id)).Nodup := by
    rw [← Function.comp_def (fun m : Owned MessageRow => m.id), ← List.map_map, hmap]
    exact s.store.messages.nodup.sublist (List.filter_sublist.map _)
  refine ⟨(newestFirst_sorted hn).sublist (List.take_sublist _ _), List.length_take_le _ _, fun hit hhit => ?_,
    fun m hm hholds => ?_⟩
  · obtain ⟨m, hm, hhit⟩ := List.mem_flatMap.1 (mem_newestFirst hhit)
    obtain ⟨q, hq, rfl⟩ := List.mem_map.1 hhit
    obtain ⟨hm, hlike⟩ := List.mem_filter.1 hm
    obtain ⟨hq, howner⟩ := List.mem_filter.1 hq
    exact ⟨hm, (sqlLike_likePattern hnul').1 hlike, hq, of_decide_eq_true howner⟩
  · have hmem : m ∈ s.store.messages.rows.filter fun m => sqlLike (likePattern (trimSpace query)) m.val.text :=
      List.mem_filter.2 ⟨hm, (sqlLike_likePattern hnul').2 hholds⟩
    rw [← hmap] at hmem
    obtain ⟨hit, hhit, rfl⟩ := List.mem_map.1 hmem
    rcases @mem_newestFirst_or (searchLimit limit) _ hn _ hhit with hin | hout
    · exact .inl ⟨hit, hin, rfl⟩
    · exact .inr hout

/-- An output with a wildcard in it is found by it, one without is not. -/
def twoOutputs : List Act := [
  .start { liveSessionID := 1, info := {}, label := [], state := [], jsonlPath := ['a'] },
  .call (.write 1 (.event 1 { typ := "pty_output".toList, text := ['5', '%'] } [])),
  .call (.write 1 (.event 1 { typ := "pty_output".toList, text := ['5', '0'] } [])),
  .resume 0 [] false, .resume 0 [] false, .resume 1 [] false, .resume 1 [] false]

theorem searchMessages_newest_wildcard : ∃ s es, Runs.exec (step plainTexts) State.empty twoOutputs = some (s, es) ∧
    s.store.messages.rows.length = 2 ∧ (∃ hit ∈ s.store.searchMessages (fun _ _ => none) ['%'] 0, hit.message.id = 1) ∧
    ∀ hit ∈ s.store.searchMessages (fun _ _ => none) ['%'] 0, Holds ['%'] hit.message.val.text := by
  obtain ⟨⟨s, es⟩, hrun⟩ : ∃ r, Runs.exec (step plainTexts) State.empty twoOutputs = some r := ⟨_, rfl⟩
  have hall : (Runs.exec (step plainTexts) State.empty twoOutputs).map (fun r =>
      (r.1.store.messages.rows.length, (r.1.store.searchMessages (fun _ _ => none) ['%'] 0).map (·.message.id))) =
      some (2, [1]) := by decide
  rw [hrun, Option.map_some, Option.some.injEq, Prod.mk.injEq] at hall
  obtain ⟨hlength, hids⟩ := hall
  obtain ⟨hit, hhit, hid⟩ := List.mem_map.1 (hids ▸ List.mem_singleton_self 1 :
    1 ∈ (s.store.searchMessages (fun _ _ => none) ['%'] 0).map (·.message.id))
  have hnul : Char.ofNat 0 ∉ ['%'] := by decide
  have h := searchMessages_newest hrun hnul (by decide) 0
  exact ⟨s, es, hrun, hlength, ⟨hit, hhit, hid⟩, fun hit hhit => (h.2.2.1 hit hhit).2.1⟩

/-! ### What the index is asked for -/

theorem mem_intercalate {α : Type} {sep : List α} {ls : List (List α)} {x : α} (h : x ∈ sep.intercalate ls) :
    x ∈ sep ∨ ∃ l ∈ ls, x ∈ l := by
  induction ls with
  | nil => exact nomatch h
  | cons l ls ih =>
    cases ls with
    | nil =>
      rw [List.intercalate_singleton] at h
      exact .inr ⟨l, List.mem_cons_self, h⟩
    | cons k ls =>
      rw [List.intercalate_cons_cons, List.mem_append, List.mem_append] at h
      rcases h with h | h
      · rcases h with h | h
        · exact .inr ⟨l, List.mem_cons_self, h⟩
        · exact .inl h
      · rcases ih h with h | ⟨l', hl', h⟩
        · exact .inl h
        · exact .inr ⟨l', List.mem_cons_of_mem _ hl', h⟩

/-- A query of words is that of its words, quoted. -/
theorem ftsQuery_eq {q : Str} (h : fields q ≠ []) :
    ftsQuery q = [' ', 'A', 'N', 'D', ' '].intercalate ((fields q).map Phrases.quoted) := by
  have hpart : ∀ p ∈ fields q, p ≠ [] ∧ trimSpace p = p := by
    intro p hp
    obtain ⟨hne, hno⟩ := isPart_of_mem_parts hp
    exact ⟨hne, trim_eq_self hno⟩
  have htrim : (fields q).map trimSpace = fields q :=
    (List.map_congr_left fun p hp => (hpart p hp).2).trans (List.map_id' _)
  have hfilter : (fields q).filter (· ≠ []) = fields q :=
    List.filter_eq_self.2 fun p hp => decide_eq_true (hpart p hp).1
  rw [ftsQuery, if_neg h, htrim, hfilter, if_neg fun hnil => h (List.map_eq_nil_iff.1 hnil)]
  rfl

/-- A character that is not in the text is in no word of it. -/
theorem not_mem_fields {q p : Str} {x : Char} (hx : x ∉ q) (hp : p ∈ fields q) : x ∉ p := by
  have hp : p ∈ parts (fun c => isSpace c || c = x) q := by
    rw [← parts_congr (p := isSpace)]
    · exact hp
    · intro c hc
      have hne : c ≠ x := fun h => hx (h ▸ hc)
      rw [decide_eq_false hne, Bool.or_false]
  intro hmem
  have hno : (isSpace x || decide (x = x)) = false := (isPart_of_mem_parts hp).2 x hmem
  rw [decide_eq_true rfl, Bool.or_true] at hno
  exact Bool.noConfusion hno

theorem mem_quoted {p : Str} {x : Char} (h : x ∈ Phrases.quoted p) : x = '"' ∨ x ∈ p := by
  rw [Phrases.quoted, List.mem_append, List.mem_append, List.mem_singleton, List.mem_flatMap] at h
  rcases h with (h | ⟨d, hd, h⟩) | h
  · exact .inl h
  · split_ifs at h with hquote
    · simp only [List.mem_cons, List.not_mem_nil, or_false, or_self] at h
      exact .inl h
    · exact .inr (List.mem_singleton.1 h ▸ hd)
  · exact .inl h

theorem fields_trimSpace (q : Str) : fields (trimSpace q) = fields q := by
  show parts isSpace (trimSpace q) = parts isSpace q
  rw [trimSpace, trim, trimRight, parts_rdropWhile, parts_dropWhile]

theorem fields_ne_nil {q : Str} (h : trimSpace q ≠ []) : fields q ≠ [] := by
  obtain ⟨c, t, hc⟩ := List.exists_cons_of_ne_nil h
  have hmem : c ∈ q := (trimSpace_within q).subset (hc ▸ List.mem_cons_self)
  obtain ⟨part, hpart, -⟩ := exists_mem_parts hmem (head_trim hc)
  exact List.ne_nil_of_mem hpart

/-- Whatever the user types, the index is asked for the words of it, all of them: no quote, operator or
keyword of the user's is one of the query language. -/
theorem ftsQuery_words {query : Str} (hnul : Char.ofNat 0 ∉ query) (hquery : trimSpace query ≠ []) :
    Phrases.phrases (cText (ftsQuery (trimSpace query))) = some (fields query) := by
  have hne := fields_ne_nil hquery
  rw [ftsQuery_eq (fields_trimSpace query ▸ hne), fields_trimSpace, cText_eq_self, Phrases.phrases_intercalate hne]
  intro hmem
  rcases mem_intercalate hmem with hsep | ⟨l, hl, hmem⟩
  · exact absurd hsep (by decide)
  · obtain ⟨p, hp, rfl⟩ := List.mem_map.1 hl
    rcases mem_quoted hmem with hquote | hin
    · exact absurd hquote (by decide)
    · exact not_mem_fields hnul hp hin

/-- The keyword and the quotes of the user are words. -/
theorem ftsQuery_words_keyword :
    Phrases.phrases (cText (ftsQuery (trimSpace [' ', 'a', '"', ' ', 'A', 'N', 'D', ' ']))) =
      some [['a', '"'], ['A', 'N', 'D']] :=
  ftsQuery_words (by decide) (by decide)

end ManyAiCli.SessionStore.History
