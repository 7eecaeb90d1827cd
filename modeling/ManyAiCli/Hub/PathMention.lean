import ManyAiCli.Hub.PathGuard
import ManyAiCli.Text.Strings

/-! A preview of a file outside the roots (`files_content.go`): it is read only, and it is given where the
user has mentioned the path in the chat. What counts as a mention is that a spelling of the path is
somewhere in the text of a user's message, also within a longer path. -/

namespace ManyAiCli.Hub.PathMention

open Files PathGuard

abbrev Str := List Char

/-! ### Spellings of a path -/

/-- The way from one clean path to another: out of what they do not share, and down. -/
def relNames : Path → Path → Path
  | b :: bs, t :: ts => if b = t then relNames bs ts else List.replicate (bs.length + 1) "..".toList ++ t :: ts
  | bs, ts => List.replicate bs.length "..".toList ++ ts

/-- `filepath.Rel` to an absolute path. -/
def rel (cwd target : Str) : Option Str :=
  if isAbs cwd then
    some (if clean cwd = clean target then ['.'] else ['/'].intercalate (relNames (clean cwd) (clean target)))
  else none

/-- `strings.ReplaceAll` of one separator by the other. -/
def slashes (p : Str) : Str := p.map fun c => if c = '\\' then '/' else c

def backslashes (p : Str) : Str := p.map fun c => if c = '/' then '\\' else c

def addBothSeps (out : List Str) (p : Str) : List Str :=
  if p = [] then out
  else if slashes p ≠ p then out ++ [p, slashes p]
  else if backslashes p ≠ p then out ++ [p, backslashes p]
  else out ++ [p]

def pathMentionVariants (absPath cwd : Str) : List Str :=
  let variants := addBothSeps [] absPath
  if cwd = [] then variants
  else
    match rel cwd absPath with
    | some r => if r ≠ [] ∧ r ≠ ['.'] then addBothSeps variants r else variants
    | none => variants

/-! ### The store -/

structure SessionRow where
  id : ℕ
  liveSessionID : ℤ
  ended : Bool

structure MessageRow where
  session : ℕ
  role : Str
  text : Option Str
  rawText : Option Str

/-- The tables, and which queries fail. -/
structure Store where
  sessions : List SessionRow
  messages : List MessageRow
  idFails : Bool
  queryFails : Str → Bool

/-- `instr(COALESCE(raw_text, ''), ?) > 0 OR instr(COALESCE(text, ''), ?) > 0` -/
def MessageRow.contains (m : MessageRow) (v : Str) : Bool :=
  Text.contains (m.rawText.getD []) v || Text.contains (m.text.getD []) v

/-- The newest row of the live session, or 0; `none` is an error. -/
def sessionIDForLive (db : Store) (live : ℤ) : Option ℕ :=
  if live ≤ 0 then some 0
  else if db.idFails then none
  else some (((db.sessions.filter fun r => r.liveSessionID = live && !r.ended).map (·.id)).foldl max 0)

/-- The query for one variant. -/
def mentioned (db : Store) (id : ℕ) (v : Str) : Bool :=
  db.messages.any fun m => m.session = id && m.role = "user".toList && m.contains v

def searchVariants (db : Store) (id : ℕ) : List Str → Option Bool
  | [] => some false
  | v :: vs =>
    if v = [] then searchVariants db id vs
    else if db.queryFails v then none
    else if mentioned db id v then some true
    else searchVariants db id vs

/-- `MessagesMentionText`. -/
def messagesMentionText (db : Store) (live : ℤ) (variants : List Str) : Option Bool :=
  match sessionIDForLive db live with
  | none => none
  | some 0 => some false
  | some id => searchVariants db id variants

/-! ### The handler -/

structure Server where
  store : Option Store
  hubCWD : Str
  /-- The directory of a session in memory. -/
  sessionCWD : ℤ → Option Str
  /-- Empty if there is none. -/
  attachDir : Str
  orchDir : Str
  fs : FileSystem
  /-- `unicode.ToLower`. -/
  lower : Char → Char

/-- The parameters of a request; a session that is no number is none. -/
structure Request where
  path : Str
  session : Option ℤ

def cwdForRequest (s : Server) (r : Request) : Str := ((r.session.bind s.sessionCWD).getD s.hubCWD)

/-- The next directory upwards with a `.git`, else the directory itself. -/
def findGitRoot (fs : FileSystem) (dir : Str) : Str :=
  if isAbs dir then
    (((clean dir).inits.reverse.find? fun q =>
      (fs.evalSymlinks (q ++ [".git".toList])).bind fs.get = some .dir).map pathText).getD dir
  else dir

def allowedRoots (s : Server) (r : Request) : List Str :=
  [cwdForRequest s r, findGitRoot s.fs (cwdForRequest s r), s.attachDir, s.orchDir]

def isPathMentionedInSession (s : Server) (r : Request) : Bool :=
  match s.store, r.session with
  | some db, some sid =>
    0 < sid && messagesMentionText db sid (pathMentionVariants r.path (cwdForRequest s r)) = some true
  | _, _ => false

structure HTTPError where
  status : ℕ
  msg : Str
  deriving DecidableEq

/-- The path, and whether it may only be read. -/
def resolveAllowedFilePath (s : Server) (r : Request) : Except HTTPError (Str × Bool) :=
  if r.path = [] then .error ⟨400, "path parameter is required".toList⟩
  else if isAbs r.path = false then .error ⟨400, "path must be an absolute path".toList⟩
  else if isPathUnderAllowedRoots s.lower s.fs r.path (allowedRoots s r) then .ok (r.path, false)
  else if isPathMentionedInSession s r then .ok (r.path, true)
  else .error ⟨403, "forbidden: path is outside allowed roots".toList⟩

/-! ### The relative path leads to the file -/

theorem cleanName_entry {n : Name} (hn : IsEntry n) (p : Path) : cleanName p n = p ++ [n] := by
  rw [cleanName, if_neg (FileSystem.isEntry_iff.1 hn).1, if_neg hn.2.2]

theorem foldl_entries {t : Path} (ht : ∀ n ∈ t, IsEntry n) (p : Path) : t.foldl cleanName p = p ++ t := by
  induction t generalizing p with
  | nil => rw [List.foldl_nil, List.append_nil]
  | cons n t ih =>
    rw [List.foldl_cons, cleanName_entry (ht n List.mem_cons_self),
      ih fun m hm => ht m (List.mem_cons_of_mem n hm), List.append_assoc, List.singleton_append]

/-- As many steps up as there are names. -/
theorem foldl_up (p : Path) (b : Path) :
    (List.replicate b.length "..".toList).foldl cleanName (p ++ b) = p := by
  induction b using List.reverseRecOn with
  | nil => rw [List.append_nil, List.length_nil, List.replicate_zero, List.foldl_nil]
  | append_singleton b n ih =>
    have hUp : cleanName (p ++ (b ++ [n])) "..".toList = p ++ b := by
      rw [← List.append_assoc]
      exact List.dropLast_concat
    rw [List.length_append, List.length_singleton, List.replicate_succ, List.foldl_cons, hUp, ih]

theorem foldl_apart (p b : Path) {t : Path} (ht : ∀ n ∈ t, IsEntry n) :
    (List.replicate b.length "..".toList ++ t).foldl cleanName (p ++ b) = p ++ t := by
  rw [List.foldl_append, foldl_up, foldl_entries ht]

theorem foldl_relNames (p b : Path) {t : Path} (ht : ∀ n ∈ t, IsEntry n) :
    (relNames b t).foldl cleanName (p ++ b) = p ++ t := by
  induction b generalizing p t with
  | nil => exact foldl_apart p [] ht
  | cons n b ih =>
    cases t with
    | nil => exact foldl_apart p (n :: b) ht
    | cons m t =>
      rw [relNames]
      split_ifs with hSame
      · have hNext := ih (p ++ [n]) fun k hk => ht k (List.mem_cons_of_mem m hk)
        rw [List.append_assoc, List.append_assoc, List.singleton_append, List.singleton_append] at hNext
        rw [hNext, hSame]
      · exact foldl_apart p (n :: b) ht

theorem relNames_ne_nil {b t : Path} (h : b ≠ t) : relNames b t ≠ [] := by
  induction b generalizing t with
  | nil =>
    intro hNil
    exact h (List.append_eq_nil_iff.1 hNil).2.symm
  | cons n b ih =>
    cases t with
    | nil => exact fun hNil => List.cons_ne_nil _ _ (List.append_eq_nil_iff.1 hNil).1
    | cons m t =>
      rw [relNames]
      split_ifs with hSame
      · exact ih fun hTail => h (by rw [hSame, hTail])
      · exact fun hNil => List.cons_ne_nil _ _ (List.append_eq_nil_iff.1 hNil).1

theorem mem_relNames {b t : Path} {n : Name} (h : n ∈ relNames b t) : n = "..".toList ∨ n ∈ t := by
  induction b generalizing t with
  | nil => exact (List.mem_append.1 h).imp List.eq_of_mem_replicate id
  | cons m b ih =>
    cases t with
    | nil => exact (List.mem_append.1 h).imp List.eq_of_mem_replicate id
    | cons k t =>
      rw [relNames] at h
      split_ifs at h
      · exact (ih h).imp id (List.mem_cons_of_mem k)
      · exact (List.mem_append.1 h).imp List.eq_of_mem_replicate id

/-- From the directory the relative path leads where the path does. -/
theorem join_rel {cwd target r : Str} (h : rel cwd target = some r) : join (clean cwd) r = clean target := by
  rw [rel] at h
  split_ifs at h with hAbs hSame
  · rw [← Option.some.inj h, hSame]
    rfl
  · have hSlash : ∀ n ∈ relNames (clean cwd) (clean target), '/' ∉ n := by
      intro n hn
      rcases mem_relNames hn with rfl | hn
      · decide
      · exact no_slash_of_mem_clean hn
    rw [← Option.some.inj h, join, names, List.splitOn_intercalate '/' hSlash (relNames_ne_nil hSame)]
    exact foldl_relNames [] (clean cwd) isEntry_of_mem_clean

/-! ### What is mentioned -/

/-- The path, or the way to it from the directory, with the separators as they are or all alike. -/
def IsSpelling (cwd path v : Str) : Prop :=
  ∃ p, (p = path ∨ rel cwd path = some p ∧ join (clean cwd) p = clean path) ∧
    (v = p ∨ v = slashes p ∨ v = backslashes p)

/-- A text of a message of the user in the session of the request. -/
def UserSaid (s : Server) (r : Request) (holds : Str → Prop) : Prop :=
  ∃ db sid id m, s.store = some db ∧ r.session = some sid ∧ sessionIDForLive db sid = some id ∧
    m ∈ db.messages ∧ m.session = id ∧ m.role = "user".toList ∧
    (holds (m.rawText.getD []) ∨ holds (m.text.getD []))

theorem mem_addBothSeps {out : List Str} {p v : Str} (h : v ∈ addBothSeps out p) :
    v ∈ out ∨ v = p ∨ v = slashes p ∨ v = backslashes p := by
  rw [addBothSeps] at h
  split_ifs at h
  · exact .inl h
  · rcases List.mem_append.1 h with h | h
    · exact .inl h
    · rcases List.mem_cons.1 h with rfl | h
      · exact .inr (.inl rfl)
      · exact .inr (.inr (.inl (List.mem_singleton.1 h)))
  · rcases List.mem_append.1 h with h | h
    · exact .inl h
    · rcases List.mem_cons.1 h with rfl | h
      · exact .inr (.inl rfl)
      · exact .inr (.inr (.inr (List.mem_singleton.1 h)))
  · rcases List.mem_append.1 h with h | h
    · exact .inl h
    · exact .inr (.inl (List.mem_singleton.1 h))

theorem isSpelling_of_mem {absPath cwd v : Str} (h : v ∈ pathMentionVariants absPath cwd) :
    IsSpelling cwd absPath v := by
  have hAbs (hv : v ∈ addBothSeps [] absPath) : IsSpelling cwd absPath v :=
    ⟨absPath, .inl rfl, (mem_addBothSeps hv).resolve_left List.not_mem_nil⟩
  rw [pathMentionVariants] at h
  split_ifs at h with hCwd
  · exact hAbs h
  cases hRel : rel cwd absPath with
  | none =>
    simp only [hRel] at h
    exact hAbs h
  | some r =>
    simp only [hRel] at h
    split_ifs at h
    · rcases mem_addBothSeps h with h | h
      · exact hAbs h
      · exact ⟨r, .inr ⟨hRel, join_rel hRel⟩, h⟩
    · exact hAbs h

theorem mentioned_of_search {db : Store} {id : ℕ} {vs : List Str} (h : searchVariants db id vs = some true) :
    ∃ v ∈ vs, v ≠ [] ∧ mentioned db id v = true := by
  induction vs with
  | nil => exact absurd (Option.some.inj h) Bool.false_ne_true
  | cons v vs ih =>
    have hLater (h : searchVariants db id vs = some true) : ∃ w ∈ v :: vs, w ≠ [] ∧ mentioned db id w = true := by
      obtain ⟨w, hw, hMentioned⟩ := ih h
      exact ⟨w, List.mem_cons_of_mem v hw, hMentioned⟩
    rw [searchVariants] at h
    split_ifs at h with hEmpty hFails hHere
    · exact hLater h
    · exact ⟨v, List.mem_cons_self, hEmpty, hHere⟩
    · exact hLater h

/-- A file outside the roots is given only to be read, and only where a spelling of its path is in the text
of a message of the user. -/
theorem readOnly_only_if_said (s : Server) (r : Request) (p : Str) (h : resolveAllowedFilePath s r = .ok (p, true)) :
    p = r.path ∧ isPathUnderAllowedRoots s.lower s.fs r.path (allowedRoots s r) = false ∧
      UserSaid s r fun text => ∃ v, IsSpelling (cwdForRequest s r) r.path v ∧ v ≠ [] ∧ v <:+: text := by
  rw [resolveAllowedFilePath] at h
  split_ifs at h with hEmpty hAbs hUnder hSaid
  · exact absurd (Prod.mk.inj (Except.ok.inj h)).2 Bool.false_ne_true
  refine ⟨(Prod.mk.inj (Except.ok.inj h)).1.symm, eq_false_of_ne_true hUnder, ?_⟩
  rw [isPathMentionedInSession] at hSaid
  split at hSaid
  next db sid hStore hSession =>
    rw [Bool.and_eq_true, decide_eq_true_eq, decide_eq_true_eq, messagesMentionText] at hSaid
    obtain ⟨-, hSaid⟩ := hSaid
    split at hSaid
    · exact absurd hSaid.symm (Option.some_ne_none _)
    · exact absurd (Option.some.inj hSaid) Bool.false_ne_true
    · next id hZero hID =>
      obtain ⟨v, hv, hNil, hMentioned⟩ := mentioned_of_search hSaid
      obtain ⟨m, hm, hMatch⟩ := List.any_eq_true.1 hMentioned
      rw [Bool.and_eq_true, Bool.and_eq_true, decide_eq_true_eq, decide_eq_true_eq, MessageRow.contains,
        Bool.or_eq_true, Text.contains_iff, Text.contains_iff] at hMatch
      obtain ⟨⟨hRow, hRole⟩, hText⟩ := hMatch
      have hSpelling := isSpelling_of_mem hv
      exact ⟨db, sid, id, m, hStore, hSession, hID, hm, hRow, hRole,
        hText.imp (fun hIn => ⟨v, hSpelling, hNil, hIn⟩) (fun hIn => ⟨v, hSpelling, hNil, hIn⟩)⟩
  next => exact absurd hSaid Bool.false_ne_true

/-- The user has mentioned `/ab`. -/
def saidLonger : Server where
  store := some ⟨[⟨1, 7, false⟩], [⟨1, "user".toList, some "/ab".toList, some "/ab".toList⟩], false, fun _ => false⟩
  hubCWD := "/w".toList
  sessionCWD _ := none
  attachDir := []
  orchDir := []
  fs := .ofEntries [] (by decide)
  lower := id

def askShorter : Request := ⟨"/a".toList, some 7⟩

theorem longer_opens_shorter : resolveAllowedFilePath saidLonger askShorter = .ok ("/a".toList, true) := by decide

theorem shorter_said : UserSaid saidLonger askShorter fun text =>
    ∃ v, IsSpelling (cwdForRequest saidLonger askShorter) askShorter.path v ∧ v ≠ [] ∧ v <:+: text :=
  (readOnly_only_if_said saidLonger askShorter _ longer_opens_shorter).2.2

/-! ### A mention within a longer path -/

def isPathChar (c : Char) : Bool := c.isAlphanum || c = '.' || c = '-' || c = '_' || c = '/' || c = '\\'

/-- No path goes on before or behind it. -/
def NamedIn (v text : Str) : Prop :=
  ∃ a b, text = a ++ v ++ b ∧ (∀ c, a.getLast? = some c → isPathChar c = false) ∧
    ∀ c, b.head? = some c → isPathChar c = false

theorem shorter_not_named {v : Str} (h : IsSpelling "/w".toList "/a".toList v) : ¬ NamedIn v "/ab".toList := by
  rintro ⟨a, b, hText, -, hBehind⟩
  have hRel : rel "/w".toList "/a".toList = some "../a".toList := by decide
  have hIn : Text.contains "/ab".toList v = true := Text.contains_iff.2 ⟨a, b, hText.symm⟩
  have hShorter : v = "/a".toList := by
    obtain ⟨p, rfl | ⟨hp, -⟩, rfl | rfl | rfl⟩ := h
    · rfl
    · rfl
    · exact absurd hIn (by decide)
    · rw [← Option.some.inj (hRel.symm.trans hp)] at hIn
      exact absurd hIn (by decide)
    · rw [← Option.some.inj (hRel.symm.trans hp)] at hIn
      exact absurd hIn (by decide)
    · rw [← Option.some.inj (hRel.symm.trans hp)] at hIn
      exact absurd hIn (by decide)
  subst hShorter
  have hLen : a.length + b.length = 1 := by
    have hAll := congrArg List.length hText
    rw [List.length_append, List.length_append] at hAll
    have hThree : "/ab".toList.length = 3 := rfl
    have hTwo : "/a".toList.length = 2 := rfl
    omega
  cases a with
  | nil =>
    have hCut : "/a".toList ++ ['b'] = "/a".toList ++ b := hText
    have hb : b = ['b'] := (List.append_cancel_left hCut).symm
    exact absurd (hBehind 'b' (by rw [hb]; rfl)) (by decide)
  | cons x a =>
    have hNil : a = [] ∧ b = [] := by
      rw [List.length_cons] at hLen
      exact ⟨List.eq_nil_of_length_eq_zero (by omega), List.eq_nil_of_length_eq_zero (by omega)⟩
    rw [hNil.1, hNil.2] at hText
    have hSecond : some 'a' = some '/' := congrArg (fun text => text[1]?) hText
    exact absurd hSecond (by decide)

/-- The mention of `/ab` opens `/a`, which the user has not named. -/
theorem mention_opens_other : ¬ ∀ (s : Server) (r : Request) (p : Str), resolveAllowedFilePath s r = .ok (p, true) →
    UserSaid s r fun text => ∃ v, IsSpelling (cwdForRequest s r) r.path v ∧ NamedIn v text := by
  intro h
  obtain ⟨db, sid, row, m, hStore, -, -, hm, -, -, hText⟩ := h saidLonger askShorter _ longer_opens_shorter
  obtain rfl := Option.some.inj hStore
  obtain rfl := List.mem_singleton.1 hm
  obtain ⟨v, hSpelling, hNamed⟩ : ∃ v, IsSpelling "/w".toList "/a".toList v ∧ NamedIn v "/ab".toList :=
    hText.elim id id
  exact shorter_not_named hSpelling hNamed

end ManyAiCli.Hub.PathMention
