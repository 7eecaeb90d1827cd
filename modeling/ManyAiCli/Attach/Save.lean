import ManyAiCli.Attach.Names
import ManyAiCli.Runs.Exclusive
import ManyAiCli.Runs.Jobs
import ManyAiCli.Runs.Machine
import ManyAiCli.Text.Rfc3339

/-! `Save` (`store.go`): the directory of the session, an exclusive file under a name that is tried with
a number until there is none of that name, the data, and a line for the provider. What goes wrong after
the file is there ends with its removal. Any number of calls run at the same time. -/

namespace ManyAiCli.Attach

open Text Runs

/-- What a call is given, below one base directory. -/
structure Request where
  sessionID : ℤ
  provider : String
  data : Bytes
  filename : Bytes
  deriving DecidableEq

structure Host where
  unicode : Unicode
  platform : Platform
  /-- `filepath.Join(baseDir, sessionID)`. -/
  dir : ℤ → Bytes

variable (H : Host)

namespace Host

/-- `filepath.Join` of a directory and the name of an entry in it. -/
def join (dir name : Bytes) : Bytes := dir ++ H.platform.separator :: name

def ext (r : Request) : Bytes := chosenExt H.platform r.filename r.data

def sanitizedName (r : Request) : Bytes := sanitizeFilename H.unicode H.platform r.filename (H.ext r)

def abs (r : Request) (name : Bytes) : Bytes := H.join (H.dir r.sessionID) name

/-- The rune it refuses, or what is injected. -/
def attachmentInject (provider : String) (abs : Bytes) : Except Char Bytes :=
  match (runes abs).find? fun r => isControl r || H.unicode.isFormat r with
  | some r => .error r
  | none => .ok <|
    if provider = "claude" then 0x40 :: abs ++ [0x20]
    else if provider = "codex" then 0x40 :: (abs.map fun b => if b = 0x5C then 0x2F else b) ++ [0x20]
    else abs ++ [0x20]

end Host

/-- `20060102150405`, and the nanoseconds with nine digits. -/
def baseName (now : Time) : List Char :=
  appendInt now.year 4 ++ appendInt now.month 2 ++ appendInt now.day 2 ++ appendInt now.hour 2 ++
    appendInt now.minute 2 ++ appendInt now.second 2 ++ '_' :: appendInt now.nsec 9

/-- With the number of the attempt, from the second on. -/
def savedName (baseName : List Char) (i : ℕ) (sanitizedName : Bytes) : Bytes :=
  if i = 0 then encode (baseName ++ ['_']) ++ sanitizedName
  else encode (baseName ++ '_' :: Nat.toDigits 10 i ++ ['_']) ++ sanitizedName

/-! ### The calls -/

inductive SaveError
  | mkdir
  | create (abs : Bytes)
  | write (abs : Bytes)
  | close (abs : Bytes)
  | inject (abs : Bytes) (r : Char)
  deriving DecidableEq

/-- Where a call is. -/
inductive Pc
  | begun
  | made
  | opening (baseName : List Char) (i : ℕ)
  | writing (name : Bytes)
  | closing (name : Bytes)
  | removing (name : Bytes) (error : SaveError)
  | saved (name inject : Bytes)
  /-- With the file that `os.Remove` has failed to take away. -/
  | failed (error : SaveError) (left : Option Bytes)
  deriving DecidableEq

/-- What the operating system answers. -/
inductive Outcome
  | mkdir (ok : Bool)
  | now (time : Time)
  | opened
  | exists
  | openFailed
  /-- An error after so many bytes, or all written. -/
  | write (failedAfter : Option ℕ)
  | close (ok : Bool)
  | remove (ok : Bool)

/-- The name of the file that is there because of the call. -/
def Pc.name : Pc → Option Bytes
  | .writing name | .closing name | .removing name _ | .saved name _ => some name
  | .failed _ left => left
  | _ => none

/-- The next place, and what becomes of which file of the session; `there` tells which there are. -/
def advance (there : Bytes → Bool) (r : Request) : Pc → Outcome → Option (Pc × Option (Bytes × Option Bytes))
  | .begun, .mkdir ok => some (if ok then .made else .failed .mkdir none, none)
  | .made, .now time => some (.opening (baseName time) 0, none)
  | .opening base i, .opened =>
    let name := savedName base i (H.sanitizedName r)
    if there name then none else some (.writing name, some (name, some []))
  | .opening base i, .exists => some (.opening base (i + 1), none)
  | .opening base i, .openFailed =>
    some (.failed (.create (H.abs r (savedName base i (H.sanitizedName r)))) none, none)
  | .writing name, .write none => some (.closing name, some (name, some r.data))
  | .writing name, .write (some n) =>
    some (.removing name (.write (H.abs r name)), some (name, some (r.data.take n)))
  | .closing name, .close true =>
    match H.attachmentInject r.provider (H.abs r name) with
    | .ok inject => some (.saved name inject, none)
    | .error c => some (.removing name (.inject (H.abs r name) c), none)
  | .closing name, .close false => some (.removing name (.close (H.abs r name)), none)
  | .removing name error, .remove ok =>
    if ok then some (.failed error none, some (name, none)) else some (.failed error (some name), none)
  | _, _ => none

/-- The files of the sessions, with what they hold. -/
abbrev Files := ℤ × Bytes → Option Bytes

structure State where
  files : Files
  calls : List (Request × Pc) := []

inductive Action
  | begins (r : Request)
  | goesOn (k : ℕ) (outcome : Outcome)

def Files.apply (files : Files) (sessionID : ℤ) : Option (Bytes × Option Bytes) → Files
  | none => files
  | some (name, content) => Function.update files (sessionID, name) content

def step (s : State) : Action → Option (State × List Empty)
  | .begins r => some ({ s with calls := s.calls ++ [(r, .begun)] }, [])
  | .goesOn k outcome =>
    match s.calls[k]? with
    | none => none
    | some (r, pc) =>
      (advance H (fun name => (s.files (r.sessionID, name)).isSome) r pc outcome).map fun next =>
        (⟨s.files.apply r.sessionID next.2, s.calls.set k (r, next.1)⟩, [])

/-! ### What a step does -/

variable {H} {s t : State} {r : Request} {pc pc' : Pc} {k : ℕ} {outcome : Outcome} {es : List Empty}
  {edit : Option (Bytes × Option Bytes)} {there : Bytes → Bool}

/-- A call makes its file, writes to it, takes it away, or leaves all files as they are. -/
inductive Effect (there : Bytes → Bool) (pc pc' : Pc) : Option (Bytes × Option Bytes) → Prop
  | stays (hname : pc'.name = pc.name) : Effect there pc pc' none
  | creates {name : Bytes} (hpc : pc.name = none) (hpc' : pc'.name = some name) (hthere : there name = false) :
    Effect there pc pc' (some (name, some []))
  | writes {name : Bytes} (content : Bytes) (hpc : pc.name = some name) (hpc' : pc'.name = some name) :
    Effect there pc pc' (some (name, some content))
  | removes {name : Bytes} (hpc : pc.name = some name) (hpc' : pc'.name = none) :
    Effect there pc pc' (some (name, none))

theorem effect_of_advance (h : advance H there r pc outcome = some (pc', edit)) : Effect there pc pc' edit := by
  revert h
  fun_cases advance H there r pc outcome with
  | case1 ok =>
    intro h
    obtain ⟨rfl, rfl⟩ := Prod.mk.inj (Option.some_inj.1 h)
    cases ok <;> exact .stays rfl
  | case3 base i name hThere => exact fun h => absurd h.symm (Option.some_ne_none _)
  | case4 base i name hThere =>
    intro h
    obtain ⟨rfl, rfl⟩ := Prod.mk.inj (Option.some_inj.1 h)
    exact .creates rfl rfl (Bool.eq_false_iff.2 hThere)
  | case7 name | case8 name n =>
    intro h
    obtain ⟨rfl, rfl⟩ := Prod.mk.inj (Option.some_inj.1 h)
    exact .writes _ rfl rfl
  | case12 name error =>
    intro h
    obtain ⟨rfl, rfl⟩ := Prod.mk.inj (Option.some_inj.1 h)
    exact .removes rfl rfl
  | case14 => exact fun h => absurd h.symm (Option.some_ne_none _)
  | _ =>
    intro h
    obtain ⟨rfl, rfl⟩ := Prod.mk.inj (Option.some_inj.1 h)
    exact .stays rfl

variable (H) in
/-- A name of a stored attachment. -/
def IsName (r : Request) (name : Bytes) : Prop := ∃ now i, name = savedName (baseName now) i (H.sanitizedName r)

variable (H) in
/-- What is known of a call at its place, with the files of its session. -/
def Pc.Fits (r : Request) (content : Bytes → Option Bytes) : Pc → Prop
  | .opening base _ => ∃ now, base = baseName now
  | .writing name | .removing name _ => IsName H r name
  | .closing name | .saved name _ => IsName H r name ∧ content name = some r.data
  | _ => True

/-- Only the file of the call matters. -/
theorem Pc.Fits.congr {content content' : Bytes → Option Bytes} (h : pc.Fits H r content)
    (heq : ∀ name, pc.name = some name → content' name = content name) : pc.Fits H r content' := by
  cases pc with
  | closing name => exact ⟨h.1, (heq name rfl).trans h.2⟩
  | saved name inject => exact ⟨h.1, (heq name rfl).trans h.2⟩
  | _ => exact h

theorem fits_of_advance {files : Files} (h : advance H there r pc outcome = some (pc', edit))
    (hFits : pc.Fits H r fun name => files (r.sessionID, name)) :
    pc'.Fits H r fun name => files.apply r.sessionID edit (r.sessionID, name) := by
  revert h hFits
  fun_cases advance H there r pc outcome with
  | case1 ok =>
    intro h _
    obtain ⟨rfl, rfl⟩ := Prod.mk.inj (Option.some_inj.1 h)
    cases ok <;> trivial
  | case2 now =>
    intro h _
    obtain ⟨rfl, rfl⟩ := Prod.mk.inj (Option.some_inj.1 h)
    exact ⟨now, rfl⟩
  | case3 base i name hThere => exact fun h => absurd h.symm (Option.some_ne_none _)
  | case4 base i name hThere =>
    rintro h ⟨now, rfl⟩
    obtain ⟨rfl, rfl⟩ := Prod.mk.inj (Option.some_inj.1 h)
    exact ⟨now, i, rfl⟩
  | case7 name =>
    intro h hName
    obtain ⟨rfl, rfl⟩ := Prod.mk.inj (Option.some_inj.1 h)
    exact ⟨hName, Function.update_self ..⟩
  | case10 name c hInject | case11 name =>
    intro h hFull
    obtain ⟨rfl, rfl⟩ := Prod.mk.inj (Option.some_inj.1 h)
    exact hFull.1
  | case6 base i | case12 name error | case13 name error ok hOk =>
    intro h _
    obtain ⟨rfl, rfl⟩ := Prod.mk.inj (Option.some_inj.1 h)
    trivial
  | case14 => exact fun h => absurd h.symm (Option.some_ne_none _)
  | _ =>
    intro h hSame
    obtain ⟨rfl, rfl⟩ := Prod.mk.inj (Option.some_inj.1 h)
    exact hSame

/-! ### Runs -/

/-- The file that is there because of a call. -/
def State.held (s : State) (k : ℕ) : Option (ℤ × Bytes) :=
  s.calls[k]?.bind fun call => call.2.name.map fun name => (call.1.sessionID, name)

theorem held_of_call (hk : s.calls[k]? = some (r, pc)) :
    s.held k = pc.name.map fun name => (r.sessionID, name) := by
  rw [State.held, hk, Option.bind_some]

theorem held_eq_some_iff {file : ℤ × Bytes} : s.held k = some file ↔
    ∃ r pc, s.calls[k]? = some (r, pc) ∧ r.sessionID = file.1 ∧ pc.name = some file.2 := by
  rw [State.held, Option.bind_eq_some_iff]
  constructor
  · rintro ⟨⟨r, pc⟩, hk, hheld⟩
    obtain ⟨name, hname, rfl⟩ := Option.map_eq_some_iff.1 hheld
    exact ⟨r, pc, hk, rfl, hname⟩
  · rintro ⟨r, pc, hk, hid, hname⟩
    refine ⟨(r, pc), hk, ?_⟩
    rw [hname, Option.map_some, hid]

theorem held_begins : State.held { s with calls := s.calls ++ [(r, .begun)] } = s.held := by
  funext k
  rw [State.held, State.held]
  rcases Nat.lt_trichotomy k s.calls.length with hk | rfl | hk
  · rw [List.getElem?_append_left hk]
  · rw [List.getElem?_append_right (Nat.le_refl _), Nat.sub_self, List.getElem?_eq_none (Nat.le_refl _)]
    rfl
  · rw [List.getElem?_eq_none (by rw [List.length_append, List.length_singleton]; omega),
      List.getElem?_eq_none (by omega)]

theorem held_goesOn (files : Files) (hk : s.calls[k]? = some (r, pc)) :
    State.held ⟨files, s.calls.set k (r, pc')⟩ =
      Function.update s.held k (pc'.name.map fun name => (r.sessionID, name)) := by
  obtain ⟨hLt, -⟩ := List.getElem?_eq_some_iff.1 hk
  funext j
  by_cases hj : j = k
  · rw [hj, Function.update_self]
    exact held_of_call (List.getElem?_set_self hLt)
  · rw [Function.update_of_ne hj, State.held, State.held, List.getElem?_set_ne (Ne.symm hj)]

theorem goesOn_of_step (h : step H s (.goesOn k outcome) = some (t, es)) :
    ∃ r pc pc' edit, s.calls[k]? = some (r, pc) ∧
      advance H (fun name => (s.files (r.sessionID, name)).isSome) r pc outcome = some (pc', edit) ∧
      t = ⟨s.files.apply r.sessionID edit, s.calls.set k (r, pc')⟩ := by
  rw [step] at h
  split at h
  · exact absurd h.symm (Option.some_ne_none _)
  · rename_i r pc hk
    obtain ⟨⟨pc', edit⟩, hAdvance, hNext⟩ := Option.map_eq_some_iff.1 h
    exact ⟨r, pc, pc', edit, hk, hAdvance, (Prod.mk.inj hNext).1.symm⟩

/-- Each new file is there because of one call, and what is known of the calls is so. -/
structure Lawful (H : Host) (files₀ : Files) (s : State) : Prop where
  exclusive : Exclusive files₀ s.files s.held
  fits : ∀ (k : ℕ) (r : Request) (pc : Pc), s.calls[k]? = some (r, pc) → pc.Fits H r fun name =>
    s.files (r.sessionID, name)

variable {files₀ : Files}

theorem lawful_initial : Lawful H files₀ { files := files₀ } where
  exclusive := Exclusive.initial files₀
  fits k r pc hk := by
    rw [List.getElem?_nil] at hk
    exact absurd hk.symm (Option.some_ne_none _)

/-- The files the other calls hold stay as they are. -/
theorem apply_of_ne {file : ℤ × Bytes} {sessionID : ℤ} {files : Files}
    (h : ∀ name content, edit = some (name, content) → file ≠ (sessionID, name)) :
    files.apply sessionID edit file = files file := by
  cases edit with
  | none => rfl
  | some e => exact Function.update_of_ne (h e.1 e.2 rfl) _ _

theorem Lawful.goesOn (h : Lawful H files₀ s) (hk : s.calls[k]? = some (r, pc))
    (hAdvance : advance H (fun name => (s.files (r.sessionID, name)).isSome) r pc outcome = some (pc', edit)) :
    Lawful H files₀ ⟨s.files.apply r.sessionID edit, s.calls.set k (r, pc')⟩ := by
  have hEffect := effect_of_advance hAdvance
  have hHeld := held_of_call hk
  constructor
  · rw [held_goesOn _ hk]
    cases hEffect with
    | stays hname =>
      rw [hname, ← hHeld, Function.update_eq_self]
      exact h.exclusive
    | creates hpc hpc' hthere =>
      rw [hpc, Option.map_none] at hHeld
      rw [hpc', Option.map_some]
      exact h.exclusive.create (Option.isSome_eq_false_iff.1 hthere |> Option.isNone_iff_eq_none.1) hHeld []
    | writes content hpc hpc' =>
      rw [hpc, Option.map_some] at hHeld
      rw [hpc', Option.map_some, ← hHeld, Function.update_eq_self]
      exact h.exclusive.write hHeld content
    | removes hpc hpc' =>
      rw [hpc, Option.map_some] at hHeld
      rw [hpc', Option.map_none]
      exact h.exclusive.remove hHeld
  · intro j r' pc'' hj
    rcases getElem?_set_cases hj with ⟨rfl, hNew⟩ | ⟨hne, hOld⟩
    · obtain ⟨rfl, rfl⟩ := Prod.mk.inj hNew
      exact fits_of_advance hAdvance (h.fits _ _ _ hk)
    · refine (h.fits j r' pc'' hOld).congr fun name hname => apply_of_ne fun name' content hEdit hEq => ?_
      have hHolds : s.held j = some (r.sessionID, name') := by
        rw [held_of_call hOld, hname, Option.map_some, hEq]
      subst hEdit
      cases hEffect with
      | creates hpc hpc' hthere =>
        exact (h.exclusive.present j _ hHolds).2
          (Option.isNone_iff_eq_none.1 (Option.isSome_eq_false_iff.1 hthere))
      | writes content hpc hpc' | removes hpc hpc' =>
        rw [hpc, Option.map_some] at hHeld
        exact hne (h.exclusive.distinct j k _ hHolds hHeld)

theorem lawful_step {a : Action} (h : Lawful H files₀ s) (hs : step H s a = some (t, es)) :
    Lawful H files₀ t := by
  cases a with
  | begins r =>
    obtain ⟨rfl, -⟩ := Prod.mk.inj (Option.some_inj.1 hs)
    constructor
    · rw [held_begins]
      exact h.exclusive
    · intro k r' pc hk
      rcases Nat.lt_or_ge k s.calls.length with hLt | hGe
      · rw [List.getElem?_append_left hLt] at hk
        exact h.fits k r' pc hk
      · rw [List.getElem?_append_right hGe] at hk
        obtain ⟨rfl, rfl⟩ := Prod.mk.inj (List.mem_singleton.1 (List.mem_of_getElem? hk))
        trivial
  | goesOn k outcome =>
    obtain ⟨r, pc, pc', edit, hk, hAdvance, rfl⟩ := goesOn_of_step hs
    exact h.goesOn hk hAdvance

theorem lawful_exec {as : List Action} (hx : exec (step H) { files := files₀ } as = some (s, es)) :
    Lawful H files₀ s :=
  exec_keeps (fun _ _ _ _ => lawful_step) lawful_initial hx

/-! ### The names -/

/-- A safe name: with the extension, of kept characters only, and with a proper sanitized part. -/
structure IsSafe (U : Unicode) (ext sanitized name : Bytes) : Prop where
  ends : ext <:+ name
  part : sanitized <:+ name
  allowed : ∀ r ∈ runes name, U.isLetter r = true ∨ U.isNumber r = true ∨ U.isMark r = true ∨ r = '_' ∨
    r = '-' ∨ r = '.'
  clean : ∀ r ∈ runes name, isControl r = false ∧ U.isFormat r = false
  single : ∀ b ∈ name, b ≠ 0x2F ∧ b ≠ 0x5C
  ne_nil : sanitized ≠ []
  no_dot : sanitized.head? ≠ some 0x2E
  short : sanitized.length ≤ maxSanitizedFilenameBytes
  valid : ∃ text, sanitized = encode text

theorem mem_appendInt {n : ℤ} {width : ℕ} {c : Char} (h : c ∈ appendInt n width) :
    c.isDigit = true ∨ c = '-' := by
  have hDigit : ∀ u < 10, (utod u).isDigit = true := by decide
  rw [appendInt] at h
  rcases List.mem_append.1 h with hSign | hDigits
  · split_ifs at hSign
    · exact .inr (List.mem_singleton.1 hSign)
    · exact absurd hSign List.not_mem_nil
  · left
    split_ifs at hDigits with hTwo hFour
    · simp only [List.mem_cons, List.not_mem_nil, or_false] at hDigits
      rcases hDigits with rfl | rfl <;> exact hDigit _ (by omega)
    · simp only [List.mem_cons, List.not_mem_nil, or_false] at hDigits
      rcases hDigits with rfl | rfl | rfl | rfl <;> exact hDigit _ (by omega)
    · rcases List.mem_append.1 hDigits with hZero | hNat
      · rw [List.eq_of_mem_replicate hZero]
        decide
      · exact Nat.isDigit_of_mem_toDigits (by decide) (by decide) hNat

theorem kept_of_mem_appendInt {U : Unicode} {n : ℤ} {width : ℕ} {c : Char} (h : c ∈ appendInt n width) :
    replaces U c = false := by
  rcases mem_appendInt h with hDigit | rfl
  · exact kept_of_isDigit hDigit
  · exact kept_ascii (.inr (.inr (.inr (.inl rfl))))

theorem kept_baseName (U : Unicode) (now : Time) : ∀ c ∈ baseName now, replaces U c = false := by
  have hLow : replaces U '_' = false := kept_ascii (.inr (.inr (.inl rfl)))
  simp only [baseName, List.forall_mem_append, List.forall_mem_cons]
  exact ⟨⟨⟨⟨⟨⟨fun c => kept_of_mem_appendInt, fun c => kept_of_mem_appendInt⟩, fun c => kept_of_mem_appendInt⟩,
    fun c => kept_of_mem_appendInt⟩, fun c => kept_of_mem_appendInt⟩, fun c => kept_of_mem_appendInt⟩, hLow,
    fun c => kept_of_mem_appendInt⟩

/-- What stands in front of the sanitized part. -/
theorem exists_front (U : Unicode) (now : Time) (i : ℕ) (sanitized : Bytes) :
    ∃ front, (∀ c ∈ front, replaces U c = false) ∧
      savedName (baseName now) i sanitized = encode front ++ sanitized := by
  have hLow : replaces U '_' = false := kept_ascii (.inr (.inr (.inl rfl)))
  have hBase := kept_baseName U now
  rw [savedName]
  split_ifs
  · exact ⟨baseName now ++ ['_'], List.forall_mem_append.2 ⟨hBase, List.forall_mem_singleton.2 hLow⟩, rfl⟩
  · refine ⟨baseName now ++ '_' :: Nat.toDigits 10 i ++ ['_'], ?_, rfl⟩
    have hDigits : ∀ c ∈ Nat.toDigits 10 i, replaces U c = false := by
      intro c hc
      have hDigit : c.isDigit = true := Nat.isDigit_of_mem_toDigits (by decide) (by decide) hc
      exact kept_of_isDigit hDigit
    simp only [List.forall_mem_append, List.forall_mem_cons]
    exact ⟨⟨hBase, hLow, hDigits⟩, hLow, fun c hc => absurd hc List.not_mem_nil⟩

theorem kept_of_isExtRune {U : Unicode} {c : Char} (h : isExtRune c = true) : replaces U c = false := by
  refine kept_ascii ?_
  simp only [isExtRune, Bool.or_eq_true, decide_eq_true_eq] at h
  rcases h with ((hLower | hDigit) | rfl) | rfl
  · exact .inl (Bool.or_eq_true_iff.2 (.inr hLower))
  · exact .inr (.inl hDigit)
  · exact .inr (.inr (.inl rfl))
  · exact .inr (.inr (.inr (.inl rfl)))

theorem IsName.isSafe {name : Bytes} (h : IsName H r name) :
    IsSafe H.unicode (H.ext r) (H.sanitizedName r) name := by
  obtain ⟨now, i, rfl⟩ := h
  obtain ⟨front, hFront, hName⟩ := exists_front H.unicode now i (H.sanitizedName r)
  have hExt : IsExt (H.ext r) := isExt_chosenExt r.filename r.data
  have hShort := hExt.length_le
  obtain ⟨t, ht, hStem⟩ := sanitizeFilename_spec (U := H.unicode) (P := H.platform) r.filename hExt
  have hSanitized : H.sanitizedName r = encode t ++ H.ext r := hStem
  obtain ⟨x, -, -, hx, hText⟩ := hExt
  have hWhole : savedName (baseName now) i (H.sanitizedName r) = encode (front ++ (t ++ '.' :: x)) := by
    rw [hName, hSanitized, hText, encode_append, encode_append]
  have hKept : ∀ c ∈ front ++ (t ++ '.' :: x), replaces H.unicode c = false := by
    simp only [List.forall_mem_append, List.forall_mem_cons]
    exact ⟨hFront, ht.kept, kept_ascii (.inr (.inr (.inr (.inr rfl)))), fun c hc => kept_of_isExtRune (hx c hc)⟩
  have hSlash (c : Char) (hc : c.toNat < 0x80) (hNot : ∀ d, replaces H.unicode d = false → d ≠ c) :
      ∀ b ∈ savedName (baseName now) i (H.sanitizedName r), b ≠ UInt8.ofNat c.toNat := by
    rintro b hb rfl
    have hNat : (UInt8.ofNat c.toNat).toNat = c.toNat := ofNat_toNat_of_lt (by omega)
    rw [hWhole] at hb
    obtain ⟨d, hd, hEq⟩ := (mem_encode (by omega)).1 hb
    exact hNot d (hKept d hd) (Char.toNat_inj.1 (hEq.symm.trans hNat))
  exact {
    ends := by
      rw [hName, hSanitized, ← List.append_assoc]
      exact List.suffix_append ..
    part := by
      rw [hName]
      exact List.suffix_append ..
    allowed := by
      rw [hWhole, runes_encode]
      exact fun c hc => (replaces_eq_false_iff.1 (hKept c hc)).1
    clean := by
      rw [hWhole, runes_encode]
      exact fun c hc => (replaces_eq_false_iff.1 (hKept c hc)).2
    single := fun b hb => ⟨hSlash '/' (by decide) (fun d hd => (kept_ne_slash hd).1) b hb,
      hSlash '\\' (by decide) (fun d hd => (kept_ne_slash hd).2) b hb⟩
    ne_nil := by
      rw [hSanitized]
      exact fun hNil => ht.ne_nil (encode_eq_nil.1 (List.append_eq_nil_iff.1 hNil).1)
    no_dot := by
      obtain ⟨c, t', hCons⟩ := List.exists_cons_of_ne_nil ht.ne_nil
      have hCut : isCut c = false := head_trim (ht.trimmed.trans hCons)
      have hDot : c ≠ '.' := by
        rintro rfl
        exact absurd hCut (by decide)
      obtain ⟨b, bs, hBytes⟩ := List.exists_cons_of_ne_nil (String.utf8EncodeChar_ne_nil (c := c))
      rw [hSanitized, hCons, encode_cons, hBytes, List.cons_append, List.cons_append, List.head?_cons]
      intro hHead
      obtain rfl := Option.some_inj.1 hHead
      have hMem : (0x2E : UInt8) ∈ String.utf8EncodeChar c := hBytes ▸ List.mem_cons_self ..
      exact hDot (Char.toNat_inj.1 ((mem_utf8EncodeChar (by decide) c).1 hMem).symm)
    short := by
      have hStemShort := ht.short
      rw [hSanitized, List.length_append]
      rw [maxSanitizedFilenameBytes] at hStemShort ⊢
      omega
    valid := ⟨t ++ '.' :: x, by rw [hSanitized, hText, encode_append]⟩ }

/-! ### All calls together -/

variable (s) in
/-- The call has failed and left its file, since `os.Remove` failed too. -/
def State.Leaves (k : ℕ) : Prop := ∃ r error name, s.calls[k]? = some (r, .failed error (some name))

theorem leaves_of_advance {error : SaveError} {name : Bytes}
    (h : advance H there r pc outcome = some (.failed error (some name), edit)) : outcome = .remove false := by
  revert h
  fun_cases advance H there r pc outcome with
  | case1 ok =>
    intro h
    cases ok <;> cases h
  | case13 n e ok hOk => exact fun _ => congrArg Outcome.remove (Bool.eq_false_iff.2 hOk)
  | _ =>
    intro h
    cases h

/-- A call leaves its file by a removal that fails, and by nothing else. -/
theorem leaves_of_step {a : Action} (hs : step H s a = some (t, es)) (h : t.Leaves k) :
    s.Leaves k ∨ a = .goesOn k (.remove false) := by
  obtain ⟨r, error, name, hk⟩ := h
  cases a with
  | begins r' =>
    obtain ⟨rfl, -⟩ := Prod.mk.inj (Option.some_inj.1 hs)
    left
    rcases Nat.lt_or_ge k s.calls.length with hLt | hGe
    · rw [List.getElem?_append_left hLt] at hk
      exact ⟨r, error, name, hk⟩
    · rw [List.getElem?_append_right hGe] at hk
      cases (List.mem_singleton.1 (List.mem_of_getElem? hk))
  | goesOn j outcome =>
    obtain ⟨r', pc', pc'', edit', hj, hAdvance, rfl⟩ := goesOn_of_step hs
    rcases getElem?_set_cases hk with ⟨rfl, hNew⟩ | ⟨hne, hOld⟩
    · obtain ⟨rfl, rfl⟩ := Prod.mk.inj hNew
      exact .inr (congrArg (Action.goesOn k) (leaves_of_advance hAdvance))
    · exact .inl ⟨r, error, name, hOld⟩

theorem leaves_of_exec {as : List Action} (hx : exec (step H) s as = some (t, es)) (h : t.Leaves k) :
    s.Leaves k ∨ Action.goesOn k (.remove false) ∈ as := by
  induction as generalizing s es with
  | nil =>
    rw [exec_nil] at hx
    obtain ⟨rfl, -⟩ := Prod.mk.inj (Option.some_inj.1 hx)
    exact .inl h
  | cons a as ih =>
    obtain ⟨u, es₁, es₂, hs, hu, -⟩ := exec_cons_eq_some.1 hx
    rcases ih hu with hLeaves | hMem
    · rcases leaves_of_step hs hLeaves with hLeaves | rfl
      · exact .inl hLeaves
      · exact .inr (List.mem_cons_self ..)
    · exact .inr (List.mem_cons_of_mem _ hMem)

/-- Whatever is saved at the same time, each `Save` that succeeds has made a file of its own under a safe
name and written the data to it, no other file has changed, and every file that has come to the
directories belongs to one call: one that is under way, one that has succeeded, or one that has failed
and whose removal of the file has failed. Sanitizing a name twice is sanitizing it once. -/
theorem saves_kept_apart (H : Host) (files₀ : Files) (as : List Action) (s : State)
    (hrun : exec (step H) { files := files₀ } as = some (s, [])) :
    (∀ (k : ℕ) (r : Request) (name inject : Bytes), s.calls[k]? = some (r, .saved name inject) →
      IsSafe H.unicode (H.ext r) (H.sanitizedName r) name ∧
      files₀ (r.sessionID, name) = none ∧ s.files (r.sessionID, name) = some r.data ∧
      ∀ (k' : ℕ) (r' : Request) (inject' : Bytes), s.calls[k']? = some (r', .saved name inject') →
        r'.sessionID = r.sessionID → k' = k) ∧
    (∀ file, files₀ file ≠ none → s.files file = files₀ file) ∧
    (∀ file, files₀ file = none → s.files file ≠ none →
      ∃ (k : ℕ) (r : Request) (pc : Pc), s.calls[k]? = some (r, pc) ∧ r.sessionID = file.1 ∧
        pc.name = some file.2 ∧
        ∀ error left, pc = .failed error left → Action.goesOn k (.remove false) ∈ as) ∧
    ∀ filename data name : Bytes,
      sanitizeFilename H.unicode H.platform
          (sanitizeFilename H.unicode H.platform name (chosenExt H.platform filename data))
          (chosenExt H.platform filename data) =
        sanitizeFilename H.unicode H.platform name (chosenExt H.platform filename data) := by
  have hLawful := lawful_exec hrun
  refine ⟨?_, hLawful.exclusive.kept, ?_, fun filename data name =>
    sanitizeFilename_idem name (isExt_chosenExt filename data)⟩
  · intro k r name inject hk
    have hHeld : s.held k = some (r.sessionID, name) := held_of_call hk
    obtain ⟨hName, hData⟩ := hLawful.fits k r _ hk
    refine ⟨hName.isSafe, (hLawful.exclusive.present k _ hHeld).1, hData, fun k' r' inject' hk' hid => ?_⟩
    have hHeld' : s.held k' = some (r.sessionID, name) := hid ▸ held_of_call hk'
    exact hLawful.exclusive.distinct k' k _ hHeld' hHeld
  · intro file hNone hSome
    obtain ⟨k, hk⟩ := hLawful.exclusive.owned file hNone hSome
    obtain ⟨r, pc, hk, hid, hname⟩ := held_eq_some_iff.1 hk
    refine ⟨k, r, pc, hk, hid, hname, ?_⟩
    rintro error left rfl
    have hLeft : left = some file.2 := hname
    have hLeaves : s.Leaves k := ⟨r, error, file.2, hLeft ▸ hk⟩
    refine (leaves_of_exec hrun hLeaves).resolve_left ?_
    rintro ⟨r', error', name', hNil⟩
    exact absurd hNil.symm (Option.some_ne_none _)

/-! ### Two calls at the same instant -/

/-- A platform with ASCII names and slashes. -/
def plainHost : Host where
  unicode :=
    { isLetter := isAsciiLetter
      isNumber := isAsciiDigit
      isMark := fun _ => false
      isFormat := fun _ => false
      isLetter_ascii := fun _ _ => rfl
      isNumber_ascii := fun _ _ => rfl
      isMark_ascii := fun _ _ => rfl
      isFormat_ascii := fun _ _ => rfl }
  platform :=
    { separator := 0x2F
      isPathSeparator := fun b => b = 0x2F
      volumeNameLen := fun _ => 0
      slashes := fun _ h => .inl (of_decide_eq_true h) }
  dir _ := encode ['/', 'a']

theorem january : 1 ≤ 1 ∧ 1 ≤ 12 := ⟨Nat.le_refl 1, by omega⟩

theorem firstOfJanuary : 1 ≤ 1 ∧ 1 ≤ Text.daysIn 1 (Text.isLeap 2026) :=
  ⟨Nat.le_refl 1, show 1 ≤ 31 by omega⟩

theorem midnight_hour : 0 < 24 := by omega

theorem midnight_minute : 0 < 60 := by omega

theorem seven_nsec : 7 < 1000000000 := by omega

def newYear : Time where
  year := 2026
  month := 1
  day := 1
  hour := 0
  minute := 0
  second := 0
  nsec := 7
  offset := 0
  month_range := january
  day_range := firstOfJanuary
  hour_lt := midnight_hour
  minute_lt := midnight_minute
  second_lt := midnight_minute
  nsec_lt := seven_nsec

/-- `../x y.PNG`. -/
def pngRequest (data : Bytes) : Request where
  sessionID := 7
  provider := "codex"
  data := data
  filename := encode "../x y.PNG".toList

def saveTwice : List Action :=
  [.begins (pngRequest [1]), .begins (pngRequest [2]), .goesOn 0 (.mkdir true), .goesOn 1 (.mkdir true),
   .goesOn 0 (.now newYear), .goesOn 1 (.now newYear), .goesOn 1 .opened, .goesOn 0 .exists, .goesOn 0 .opened,
   .goesOn 0 (.write none), .goesOn 1 (.write (some 0)), .goesOn 1 (.remove true), .goesOn 0 (.close true)]

/-- The first call meets the file of the second, and is saved under its second name. -/
theorem saveTwice_apart : ∃ s name inject,
    exec (step plainHost) { files := fun _ => none } saveTwice = some (s, []) ∧
      s.calls[0]? = some (pngRequest [1], .saved name inject) ∧
      IsSafe plainHost.unicode (plainHost.ext (pngRequest [1]))
        (plainHost.sanitizedName (pngRequest [1])) name ∧
      s.files (7, name) = some [1] := by
  have hx : ∃ s name inject, exec (step plainHost) { files := fun _ => none } saveTwice = some (s, []) ∧
      s.calls[0]? = some (pngRequest [1], .saved name inject) := ⟨_, _, _, rfl, rfl⟩
  obtain ⟨s, name, inject, hs, hk⟩ := hx
  obtain ⟨hSafe, -, hData, -⟩ :=
    (saves_kept_apart plainHost (fun _ => none) saveTwice s hs).1 0 _ name inject hk
  exact ⟨s, name, inject, hs, hk, hSafe, hData⟩

def unremoved : List Action :=
  [.begins (pngRequest [1]), .goesOn 0 (.mkdir true), .goesOn 0 (.now newYear), .goesOn 0 .opened,
   .goesOn 0 (.write (some 0)), .goesOn 0 (.remove false)]

/-- Neither the write nor the removal succeeds. -/
theorem failed_leaves_file : ¬ ∀ (as : List Action) (s : State),
    exec (step plainHost) { files := fun _ => none } as = some (s, []) →
      (∀ call ∈ s.calls, ∃ error left, call.2 = .failed error left) → ∀ file, s.files file = none := by
  intro h
  have hx : ∃ s error left, exec (step plainHost) { files := fun _ => none } unremoved = some (s, []) ∧
      s.calls = [(pngRequest [1], .failed error left)] ∧
      s.files (7, savedName (baseName newYear) 0 (plainHost.sanitizedName (pngRequest [1]))) = some [] :=
    ⟨_, _, _, rfl, rfl, rfl⟩
  obtain ⟨s, error, left, hs, hCalls, hFile⟩ := hx
  have hFailed : ∀ call ∈ s.calls, ∃ error left, call.2 = .failed error left := by
    rw [hCalls]
    exact fun call hCall => ⟨error, left, by rw [List.mem_singleton.1 hCall]⟩
  exact Option.some_ne_none _ (hFile.symm.trans (h unremoved s hs hFailed _))

end ManyAiCli.Attach
