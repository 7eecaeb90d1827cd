import ManyAiCli.Runs.Machine
import ManyAiCli.Web.UserPrefs

/-! Browsers and the hub keep user preferences in step (`user-prefs.ts`, `settings.ts` and
`user_prefs_handlers.go`). A change is written to the browser's local storage; 200 ms after the last one
the browser asks for what the hub has, merges everything it has stored into it and sends the result, which
replaces the hub's preferences. Requests and answers of all browsers are under way together, in any order. -/

namespace ManyAiCli.Web.PrefsSync

open Text UserPrefs Runs Function

/-- What `saveTokenStatusbarPrefs` changes. -/
structure Patch where
  enabled : Option Bool
  segments : List (List Char × Bool)
  deriving DecidableEq

/-- What a browser asks for the preferences for. The calls of `_putUserPrefsNow` of one browser are
numbered. -/
inductive Purpose
  | mirror
  | cycle (n : ℕ)
  | migrate
  | statusbar (change : Patch)
  deriving DecidableEq

/-- A request or an answer of a browser under way; an answer without preferences is an error. -/
inductive Flight
  | asked (d : ℕ) (why : Purpose)
  | answered (d : ℕ) (why : Purpose) (prefs : Option Prefs)
  | put (d : ℕ) (why : Purpose) (body : Prefs)

/-- The hub's preferences as it shows them, and each browser's local storage, whether its timer runs and how
often the timer has run out. -/
structure State where
  hub : Prefs
  store : ℕ → Storage
  timer : ℕ → Bool
  begun : ℕ → ℕ
  flights : List Flight

inductive Act
  /-- A page is loaded, perhaps in the place of an earlier one. -/
  | pageLoad (d : ℕ)
  | setUserPref (d : ℕ) (path : List Char) (v : Json)
  | timeout (d : ℕ)
  | saveTokenStatusbar (d : ℕ) (change : Patch)
  /-- The hub answers a request for the preferences. -/
  | answer (i : ℕ)
  | refuse (i : ℕ)
  /-- An answer comes back to the browser. -/
  | arrive (i : ℕ)
  /-- The hub takes preferences. -/
  | take (i : ℕ)
  | lose (i : ℕ)
  /-- Another handler of the hub sets a field of its own. -/
  | handler (path : List Char) (shown : Option Json)

/-! ### Steps -/

/-- Waiting for an answer; what it was for is gone with the page. -/
def Flight.waitsFor (d : ℕ) : Flight → Bool
  | .asked e _ => e = d
  | .answered e _ _ => e = d
  | .put _ _ _ => false

/-- The preferences that moved to the hub later, with the keys of their texts. -/
def movedLater : List (List Char × List Char) :=
  [("display.theme", "ai_cli_hub_theme"), ("display.font_size", "ai_cli_hub_fontsize"),
    ("display.lang", "ai_cli_hub_lang")].map fun row : String × String => (row.1.toList, row.2.toList)

/-- The hub shows none of it. -/
def isUnset : Option Json → Bool
  | none => true
  | some .null => true
  | some (.str s) => s = []
  | some _ => false

/-- Those of them that only the browser has. -/
def toBackfill (prefs : Prefs) (store : Storage) : List (List Char × List Char) :=
  movedLater.filterMap fun row =>
    match store row.2 with
    | some raw => if isUnset (prefs row.1) then some (row.1, raw) else none
    | none => none

def backfill (js : Js) (prefs : Prefs) (store : Storage) : Storage :=
  (toBackfill prefs store).foldl (fun store pref => setLocal js pref.1 (.str pref.2) store) store

def hasMigrated (prefs : Prefs) : Bool :=
  match prefs migratedPath with
  | some v => truthy v
  | none => false

/-- `{ ...(tsb.segments || {}), ...patch.segments }`. -/
def mergeSegments (old : Option Json) (change : List (List Char × Bool)) : Json :=
  .obj ((match old with
    | some (.obj ms) => ms.filter fun m => (change.lookup m.1).isNone
    | _ => []) ++ change.map fun m => (m.1, .bool m.2))

def patchStatusbar (change : Patch) (current : Prefs) : Prefs :=
  update (match change.enabled with
    | some b => update current enabledPath (some (.bool b))
    | none => current) segmentsPath
    (if change.segments = [] then current segmentsPath
      else some (mergeSegments (current segmentsPath) change.segments))

variable (js : Js) (isUpload : List Char → Bool)

/-- What a browser does with an answer. -/
def arrive (d : ℕ) (s : State) : Purpose → Option Prefs → State
  | .mirror, none => s
  | .mirror, some prefs =>
    if hasMigrated prefs then
      { s with
        store := update s.store d (backfill js prefs (mirror js prefs (s.store d)))
        timer := update s.timer d (s.timer d || !(toBackfill prefs (mirror js prefs (s.store d))).isEmpty) }
    else
      { s with
        store := update s.store d (mirror js prefs (s.store d))
        flights := s.flights ++ [.asked d .migrate] }
  | .cycle _, none => s
  | .cycle n, some prefs =>
    { s with flights := s.flights ++ [.put d (.cycle n) (mergeStored js (s.store d) prefs)] }
  | .migrate, none => s
  | .migrate, some prefs =>
    if hasMigrated prefs ∨ pathToLS.all fun row => (s.store d row.key).isNone then s
    else
      { s with flights := s.flights ++
        [.put d .migrate (update (mergeStored js (s.store d) prefs) migratedPath (some (.bool true)))] }
  -- an error counts as preferences without any field
  | .statusbar change, prefs =>
    { s with flights := s.flights ++
      [.put d (.statusbar change) (patchStatusbar change (prefs.getD fun _ => none))] }

/-- The preferences saved by a step: whose they are, and what for. -/
abbrev Saved := ℕ × Purpose

def State.without (s : State) (i : ℕ) : State := { s with flights := s.flights.eraseIdx i }

def step (s : State) : Act → Option (State × List Saved)
  | .pageLoad d => some ({ s with
      timer := update s.timer d false
      flights := s.flights.filter (fun f => !f.waitsFor d) ++ [.asked d .mirror] }, [])
  | .setUserPref d path v => some ({ s with
      store := update s.store d (setLocal js path v (s.store d))
      timer := update s.timer d true }, [])
  | .timeout d =>
    if s.timer d then
      some ({ s with
        timer := update s.timer d false
        begun := update s.begun d (s.begun d + 1)
        flights := s.flights ++ [.asked d (.cycle (s.begun d + 1))] }, [])
    else none
  | .saveTokenStatusbar d change => some ({ s with flights := s.flights ++ [.asked d (.statusbar change)] }, [])
  | .answer i =>
    match s.flights[i]? with
    | some (.asked d why) => some ({ s with flights := s.flights.set i (.answered d why (some s.hub)) }, [])
    | _ => none
  | .refuse i =>
    match s.flights[i]? with
    | some (.asked d why) => some ({ s with flights := s.flights.set i (.answered d why none) }, [])
    | _ => none
  | .arrive i =>
    match s.flights[i]? with
    | some (.answered d why prefs) => some (arrive js d (s.without i) why prefs, [])
    | _ => none
  | .take i =>
    match s.flights[i]? with
    | some (.put d why body) =>
      match handleUserPrefsPut isUpload body with
      | some prefs => some ({ s.without i with hub := prefs }, [(d, why)])
      | none => some (s.without i, [])
    | _ => none
  | .lose i => if i < s.flights.length then some (s.without i, []) else none
  | .handler path shown =>
    if ownPaths.any fun p => path = p then some ({ s with hub := update s.hub path shown }, []) else none

def init (hub : Prefs) (store : ℕ → Storage) : State := ⟨hub, store, fun _ => false, fun _ => 0, []⟩

/-- All that a step can do. -/
inductive Effect (s : State) : Act → State → List Saved → Prop
  | pageLoad (d : ℕ) : Effect s (.pageLoad d) { s with
      timer := update s.timer d false
      flights := s.flights.filter (fun f => !f.waitsFor d) ++ [.asked d .mirror] } []
  | setUserPref (d : ℕ) (path : List Char) (v : Json) : Effect s (.setUserPref d path v) { s with
      store := update s.store d (setLocal js path v (s.store d))
      timer := update s.timer d true } []
  | timeout (d : ℕ) : Effect s (.timeout d) { s with
      timer := update s.timer d false
      begun := update s.begun d (s.begun d + 1)
      flights := s.flights ++ [.asked d (.cycle (s.begun d + 1))] } []
  | saveTokenStatusbar (d : ℕ) (change : Patch) : Effect s (.saveTokenStatusbar d change)
      { s with flights := s.flights ++ [.asked d (.statusbar change)] } []
  | answer (i d : ℕ) (why : Purpose) (hf : s.flights[i]? = some (.asked d why)) : Effect s (.answer i)
      { s with flights := s.flights.set i (.answered d why (some s.hub)) } []
  | refuse (i d : ℕ) (why : Purpose) (hf : s.flights[i]? = some (.asked d why)) : Effect s (.refuse i)
      { s with flights := s.flights.set i (.answered d why none) } []
  | arrive (i d : ℕ) (why : Purpose) (prefs : Option Prefs) (hf : s.flights[i]? = some (.answered d why prefs)) :
    Effect s (.arrive i) (arrive js d (s.without i) why prefs) []
  | take (i d : ℕ) (why : Purpose) (body prefs : Prefs) (hf : s.flights[i]? = some (.put d why body))
      (hPut : handleUserPrefsPut isUpload body = some prefs) :
    Effect s (.take i) { s.without i with hub := prefs } [(d, why)]
  | reject (i : ℕ) : Effect s (.take i) (s.without i) []
  | lose (i : ℕ) : Effect s (.lose i) (s.without i) []
  | handler (path : List Char) (shown : Option Json) (hOwn : path ∈ ownPaths) :
    Effect s (.handler path shown) { s with hub := update s.hub path shown } []

theorem effect_of_step {s t : State} {a : Act} {es : List Saved} (h : step js isUpload s a = some (t, es)) :
    Effect js isUpload s a t es := by
  cases a with
  | pageLoad d =>
    cases h
    exact .pageLoad d
  | setUserPref d path v =>
    cases h
    exact .setUserPref d path v
  | timeout d =>
    rw [step] at h
    split_ifs at h
    cases h
    exact .timeout d
  | saveTokenStatusbar d change =>
    cases h
    exact .saveTokenStatusbar d change
  | answer i =>
    rw [step] at h
    split at h <;> cases h
    exact .answer i _ _ ‹_›
  | refuse i =>
    rw [step] at h
    split at h <;> cases h
    exact .refuse i _ _ ‹_›
  | arrive i =>
    rw [step] at h
    split at h <;> cases h
    exact .arrive i _ _ _ ‹_›
  | take i =>
    rw [step] at h
    split at h
    · split at h <;> cases h
      · exact .take i _ _ _ _ ‹_› ‹_›
      · exact .reject i
    · cases h
  | lose i =>
    rw [step] at h
    split_ifs at h
    cases h
    exact .lose i
  | handler path shown =>
    rw [step] at h
    split_ifs at h with hOwn
    cases h
    exact .handler path shown (mem_ownPaths hOwn)

/-! ### The hub ends with what was saved last -/

/-- Everything that a browser has stored and can read is in the preferences. -/
def Covers (store : Storage) (body : Prefs) : Prop :=
  ∀ row ∈ pathToLS, ∀ raw v, store row.key = some raw → parseStored js row.path raw = some v →
    body row.path = some v

/-- The hub shows it, as far as it has a field for it. -/
def Agrees (store : Storage) (hub : Prefs) : Prop :=
  ∀ row ∈ pathToLS, ∀ raw v, store row.key = some raw → parseStored js row.path raw = some v →
    hub row.path = kept row.path v

variable {js isUpload}

theorem covers_mergeStored (store : Storage) (current : Prefs) :
    Covers js store (mergeStored js store current) := by
  intro row hRow raw v hRaw hParse
  rw [mergeStored_apply js store current hRow, hRaw, Option.bind_some, hParse, Option.some_or]

theorem Covers.agrees {store : Storage} {body prefs : Prefs} (h : Covers js store body)
    (hPut : handleUserPrefsPut isUpload body = some prefs) : Agrees js store prefs := by
  intro row hRow raw v hRaw hParse
  rw [handleUserPrefsPut_apply hPut hRow, h row hRow raw v hRaw hParse, Option.bind_some]

theorem Agrees.handler {store : Storage} {hub : Prefs} (h : Agrees js store hub) {path : List Char}
    (hPath : path ∈ ownPaths) (shown : Option Json) : Agrees js store (update hub path shown) := by
  intro row hRow raw v hRaw hParse
  rw [update_of_ne, h row hRow raw v hRaw hParse]
  intro hSame
  exact path_ne_own hRow (List.mem_cons_of_mem _ (hSame ▸ hPath))

def Flight.browser : Flight → ℕ
  | .asked d _ => d
  | .answered d _ _ => d
  | .put d _ _ => d

def Flight.why : Flight → Purpose
  | .asked _ why => why
  | .answered _ why _ => why
  | .put _ why _ => why

/-- A flight of a call of `_putUserPrefsNow` belongs to one that has begun; and it carries everything the
browser has stored. -/
structure Fresh (js : Js) (s : State) (f : Flight) : Prop where
  counted : ∀ n, f.why = .cycle n → 1 ≤ n ∧ n ≤ s.begun f.browser
  covers : ∀ d n body, f = .put d (.cycle n) body → Covers js (s.store d) body

/-- Of the browser's last call, as long as nothing was changed since: what it sends has everything the browser
has stored; and so has the hub once it has been saved, until something else is. -/
structure Settled (js : Js) (saved : List Saved) (s : State) : Prop where
  counted : ∀ f ∈ s.flights, ∀ n, f.why = .cycle n → 1 ≤ n ∧ n ≤ s.begun f.browser
  merged : ∀ d n body, .put d (.cycle n) body ∈ s.flights → n = s.begun d → s.timer d = false →
    Covers js (s.store d) body
  agrees : ∀ d n, saved.getLast? = some (d, .cycle n) → 1 ≤ n ∧ n ≤ s.begun d ∧
    (n = s.begun d → s.timer d = false → Agrees js (s.store d) s.hub)

variable {saved : List Saved} {s t : State}

theorem settled_init (hub : Prefs) (store : ℕ → Storage) : Settled js [] (init hub store) where
  counted f hf := absurd hf List.not_mem_nil
  merged _ _ _ hf := absurd hf List.not_mem_nil
  agrees _ _ hLast := absurd hLast (by simp)

/-- Flights may go, and fresh ones come. -/
theorem Settled.flights (h : Settled js saved s) {flights : List Flight}
    (hFlights : ∀ f ∈ flights, f ∈ s.flights ∨ Fresh js s f) :
      Settled js saved { s with flights := flights } where
  counted f hf n hn := by
    rcases hFlights f hf with hOld | hNew
    · exact h.counted f hOld n hn
    · exact hNew.counted n hn
  merged d n body hf hLast hTimer := by
    rcases hFlights _ hf with hOld | hNew
    · exact h.merged d n body hOld hLast hTimer
    · exact hNew.covers d n body rfl
  agrees := h.agrees

/-- A browser may change what it has stored where its timer is started, where a new call begins, or before
its first one. -/
theorem Settled.browser (h : Settled js saved s) (d : ℕ) (hFlights : t.flights = s.flights)
    (hHub : t.hub = s.hub)
    (hOthers : ∀ e, e ≠ d → t.store e = s.store e ∧ t.timer e = s.timer e ∧ t.begun e = s.begun e)
    (hBegun : s.begun d ≤ t.begun d) (hStale : t.timer d = true ∨ s.begun d < t.begun d ∨ t.begun d = 0) :
    Settled js saved t := by
  have hLe (e : ℕ) : s.begun e ≤ t.begun e := by
    by_cases he : e = d
    · rw [he]
      exact hBegun
    · rw [(hOthers e he).2.2]
  -- nothing is claimed of the browser that changes
  have hNone {n : ℕ} (hn : 1 ≤ n ∧ n ≤ s.begun d) (hLast : n = t.begun d) (hTimer : t.timer d = false) :
    False := by
    rcases hStale with hRuns | hNewer | hZero
    · rw [hTimer] at hRuns
      exact Bool.false_ne_true hRuns
    · omega
    · omega
  constructor
  · intro f hf n hn
    rw [hFlights] at hf
    exact ⟨(h.counted f hf n hn).1, (h.counted f hf n hn).2.trans (hLe _)⟩
  · intro e n body hf hLast hTimer
    rw [hFlights] at hf
    by_cases he : e = d
    · subst he
      exact (hNone (h.counted _ hf n rfl) hLast hTimer).elim
    · obtain ⟨hStore, hSame, hCount⟩ := hOthers e he
      rw [hStore]
      exact h.merged e n body hf (hCount ▸ hLast) (hSame ▸ hTimer)
  · intro e n hSaved
    obtain ⟨hOne, hMost, hAgrees⟩ := h.agrees e n hSaved
    refine ⟨hOne, hMost.trans (hLe e), fun hLast hTimer => ?_⟩
    by_cases he : e = d
    · subst he
      exact (hNone ⟨hOne, hMost⟩ hLast hTimer).elim
    · obtain ⟨hStore, hSame, hCount⟩ := hOthers e he
      rw [hStore, hHub]
      exact hAgrees (hCount ▸ hLast) (hSame ▸ hTimer)

theorem Settled.without (h : Settled js saved s) (i : ℕ) : Settled js saved (s.without i) :=
  h.flights fun _ hf => .inl (List.mem_of_mem_eraseIdx hf)

/-- One more flight. -/
theorem Settled.push (h : Settled js saved s) {f : Flight} (hf : Fresh js s f) :
    Settled js saved { s with flights := s.flights ++ [f] } := by
  apply h.flights
  intro g hg
  rcases List.mem_append.1 hg with hOld | hNew
  · exact .inl hOld
  · rw [List.mem_singleton.1 hNew]
    exact .inr hf

/-- The hub takes what is under way. -/
theorem Settled.take (h : Settled js saved s) {i d : ℕ} {why : Purpose} {body prefs : Prefs}
    (hf : s.flights[i]? = some (.put d why body)) (hPut : handleUserPrefsPut isUpload body = some prefs) :
    Settled js (saved ++ [(d, why)]) { s.without i with hub := prefs } where
  counted := (h.without i).counted
  merged := (h.without i).merged
  agrees e n hLast := by
    rw [List.getLast?_concat, Option.some.injEq, Prod.mk.injEq] at hLast
    obtain ⟨rfl, rfl⟩ := hLast
    have hMem := List.mem_of_getElem? hf
    have hCount := h.counted _ hMem n rfl
    exact ⟨hCount.1, hCount.2, fun hNewest hTimer => (h.merged _ n body hMem hNewest hTimer).agrees hPut⟩

theorem fresh_of_ne {f : Flight} (hWhy : ∀ n, f.why ≠ .cycle n) : Fresh js s f where
  counted n hn := absurd hn (hWhy n)
  covers _ n _ hf := absurd (congrArg Flight.why hf) (hWhy n)

theorem Settled.arrive (h : Settled js saved s) {d : ℕ} {why : Purpose} (prefs : Option Prefs)
    (hWhy : ∀ n, why = .cycle n → 1 ≤ n ∧ n ≤ s.begun d) (hFirst : why = .mirror → s.begun d = 0) :
    Settled js saved (arrive js d s why prefs) := by
  cases why with
  | mirror =>
    cases prefs with
    | none => exact h
    | some prefs =>
      have hBegun := hFirst rfl
      rw [PrefsSync.arrive]
      split_ifs
      · exact h.browser d rfl rfl (fun e he => ⟨update_of_ne he _ _, update_of_ne he _ _, rfl⟩) (Nat.le_refl _)
          (.inr (.inr hBegun))
      · have hStore : Settled js saved { s with store := update s.store d (mirror js prefs (s.store d)) } :=
          h.browser d rfl rfl (fun e he => ⟨update_of_ne he _ _, rfl, rfl⟩) (Nat.le_refl _) (.inr (.inr hBegun))
        exact hStore.push (fresh_of_ne fun n hn => Purpose.noConfusion hn)
  | cycle n =>
    cases prefs with
    | none => exact h
    | some prefs =>
      apply h.push
      constructor
      · intro m hm
        exact hWhy m hm
      · intro e m body hf
        rw [Flight.put.injEq] at hf
        obtain ⟨rfl, -, rfl⟩ := hf
        exact covers_mergeStored _ _
  | migrate =>
    cases prefs with
    | none => exact h
    | some prefs =>
      rw [PrefsSync.arrive]
      split_ifs
      · exact h
      · exact h.push (fresh_of_ne fun n hn => Purpose.noConfusion hn)
  | statusbar change => exact h.push (fresh_of_ne fun n hn => Purpose.noConfusion hn)

/-- An answer in the place of its request. -/
theorem Settled.answer (h : Settled js saved s) {i d : ℕ} {why : Purpose}
    (hf : s.flights[i]? = some (.asked d why))
    (prefs : Option Prefs) :
      Settled js saved { s with flights := s.flights.set i (.answered d why prefs) } := by
  apply h.flights
  intro f hIn
  rcases List.mem_or_eq_of_mem_set hIn with hOld | rfl
  · exact .inl hOld
  · right
    constructor
    · intro n hn
      exact h.counted _ (List.mem_of_getElem? hf) n hn
    · intro e n body hEq
      exact Flight.noConfusion hEq

/-- A page is loaded, and is given what the hub has, before its browser's first call. -/
def beforeFirst (s : State) : Act → Bool
  | .pageLoad d => s.begun d = 0
  | .arrive i =>
    match s.flights[i]? with
    | some (.answered d .mirror _) => s.begun d = 0
    | _ => true
  | _ => true

theorem settled_step {a : Act} {es : List Saved} (h : Settled js saved s) (hFirst : beforeFirst s a = true)
    (hStep : step js isUpload s a = some (t, es)) : Settled js (saved ++ es) t := by
  cases effect_of_step js isUpload hStep with
  | pageLoad d =>
    have hTimer : Settled js saved { s with timer := update s.timer d false } :=
      h.browser d rfl rfl (fun e he => ⟨rfl, update_of_ne he _ _, rfl⟩) (Nat.le_refl _)
        (.inr (.inr (of_decide_eq_true hFirst)))
    rw [List.append_nil]
    apply hTimer.flights
    intro f hf
    rcases List.mem_append.1 hf with hOld | hNew
    · exact .inl (List.mem_of_mem_filter hOld)
    · rw [List.mem_singleton.1 hNew]
      exact .inr (fresh_of_ne fun n hn => Purpose.noConfusion hn)
  | setUserPref d path v =>
    rw [List.append_nil]
    exact h.browser d rfl rfl (fun e he => ⟨update_of_ne he _ _, update_of_ne he _ _, rfl⟩) (Nat.le_refl _)
      (.inl (update_self _ _ _))
  | timeout d =>
    have hCount : update s.begun d (s.begun d + 1) d = s.begun d + 1 := update_self _ _ _
    have hBegun : Settled js saved
        { s with timer := update s.timer d false, begun := update s.begun d (s.begun d + 1) } :=
      h.browser d rfl rfl (fun e he => ⟨rfl, update_of_ne he _ _, update_of_ne he _ _⟩)
        (Nat.le_of_succ_le hCount.ge) (.inr (.inl hCount.ge))
    rw [List.append_nil]
    apply hBegun.push
    constructor
    · intro n hn
      rw [Flight.why, Purpose.cycle.injEq] at hn
      rw [← hn]
      exact ⟨Nat.le_add_left _ _, hCount.ge⟩
    · intro e n body hEq
      exact Flight.noConfusion hEq
  | saveTokenStatusbar d change =>
    rw [List.append_nil]
    exact h.push (fresh_of_ne fun n hn => Purpose.noConfusion hn)
  | answer i d why hf =>
    rw [List.append_nil]
    exact h.answer hf _
  | refuse i d why hf =>
    rw [List.append_nil]
    exact h.answer hf _
  | arrive i d why prefs hf =>
    rw [List.append_nil]
    apply (h.without i).arrive
    · intro n hn
      exact h.counted _ (List.mem_of_getElem? hf) n hn
    · rintro rfl
      rw [beforeFirst, hf] at hFirst
      exact of_decide_eq_true hFirst
  | take i d why body prefs hf hPut => exact h.take hf hPut
  | reject i =>
    rw [List.append_nil]
    exact h.without i
  | lose i =>
    rw [List.append_nil]
    exact h.without i
  | handler path shown hOwn =>
    rw [List.append_nil]
    refine ⟨h.counted, h.merged, fun d n hLast => ?_⟩
    obtain ⟨hOne, hMost, hAgrees⟩ := h.agrees d n hLast
    exact ⟨hOne, hMost, fun hNewest hTimer => (hAgrees hNewest hTimer).handler hOwn shown⟩

/-- For any browsers and any order of what is under way: where the last preferences saved are those of a
browser's newest call, and its timer does not run, the hub shows everything that browser has stored. -/
theorem settled_agrees {hub : Prefs} {store : ℕ → Storage} {run : List Act} {es : List Saved} {d : ℕ}
    (hRun : exec (step js isUpload) (init hub store) run = some (t, es))
    (hFirst : Meets (step js isUpload) (fun s a => beforeFirst s a = true) (init hub store) run)
    (hSaved : es.getLast? = some (d, .cycle (t.begun d))) (hTimer : t.timer d = false) :
    Agrees js (t.store d) t.hub := by
  have hSettled := exec_invariant (I := Settled js) (fun _ _ _ _ _ h hOk hStep => settled_step h hOk hStep)
    (settled_init hub store) hFirst hRun
  rw [List.nil_append] at hSettled
  exact (hSettled.agrees d _ hSaved).2.2 rfl hTimer

/-! ### What is on stays on -/

/-- The table's rows for a field that is a flag are written and read as flags. -/
theorem flag_rows : pathToLS.all (fun row => !decide (fields.lookup row.path = some .flag) ||
    decide (row.serializer = .flag) && isFlagPath row.path) = true := by decide +kernel

theorem flag_row {row : Row} (hRow : row ∈ pathToLS) (hField : fields.lookup row.path = some .flag) :
    row.serializer = .flag ∧ isFlagPath row.path = true := by
  have hAll := List.all_eq_true.1 flag_rows row hRow
  rw [hField] at hAll
  simpa using hAll

theorem movedLater_fields :
    movedLater.all (fun moved => fields.lookup moved.1 = some .text) = true := by decide +kernel

/-- A flag as the hub shows it. -/
def Shown (v : Option Json) : Prop := v = none ∨ v = some (.bool true)

theorem parseStored_on {path : List Char} (h : isFlagPath path = true) :
    parseStored js path ['1'] = some (.bool true) := by
  rw [parseStored, if_pos h]
  rfl

/-- Nothing the hub can show switches a flag off. -/
theorem mirror_on {row : Row} (hRow : row ∈ pathToLS) (hSerializer : row.serializer = .flag) {prefs : Prefs}
    (hShown : Shown (prefs row.path)) {store : Storage} (hOn : store row.key = some ['1']) :
    mirror js prefs store row.key = some ['1'] := by
  rw [mirror_apply js prefs store hRow, hOn, mirroredText]
  rcases hShown with hNone | hTrue
  · rw [hNone]
    rfl
  · rw [hTrue, hSerializer]
    rfl

theorem mergeStored_on {row : Row} (hRow : row ∈ pathToLS) (hPath : isFlagPath row.path = true)
    {store : Storage}
    (hOn : store row.key = some ['1']) (current : Prefs) :
    mergeStored js store current row.path = some (.bool true) := by
  rw [mergeStored_apply js store current hRow, hOn, Option.bind_some, parseStored_on hPath, Option.some_or]

/-- The backfill writes texts of other fields. -/
theorem backfill_apply {row : Row} (hRow : row ∈ pathToLS) (hField : fields.lookup row.path = some .flag)
    (prefs : Prefs) (store : Storage) : backfill js prefs store row.key = store row.key := by
  have hOther (pref : List Char × List Char) (hPref : pref ∈ toBackfill prefs store) : row.path ≠ pref.1 := by
    obtain ⟨moved, hMoved, hSome⟩ := List.mem_filterMap.1 hPref
    have hText := of_decide_eq_true (List.all_eq_true.1 movedLater_fields moved hMoved)
    have hSame : moved.1 = pref.1 := by
      split at hSome
      · split_ifs at hSome
        rw [← Option.some.inj hSome]
      · exact absurd hSome (Option.some_ne_none _).symm
    intro hEq
    rw [hEq, ← hSame, hText] at hField
    exact absurd hField (by decide)
  rw [backfill]
  -- over any such list, whatever is stored so far
  have hFold : ∀ (prefs : List (List Char × List Char)) (later : Storage),
      (∀ pref ∈ prefs, row.path ≠ pref.1) →
      prefs.foldl (fun store pref => setLocal js pref.1 (.str pref.2) store) later row.key = later row.key := by
    intro prefs
    induction prefs with
    | nil => exact fun _ _ => rfl
    | cons pref prefs ih =>
      intro later hAll
      rw [List.foldl_cons, ih _ fun p hp => hAll p (List.mem_cons_of_mem _ hp)]
      exact setLocal_of_ne js _ later hRow (hAll pref List.mem_cons_self)
  exact hFold _ store hOther

/-- All that a browser sends for itself. -/
def IsOwn (why : Purpose) : Prop := ∀ change, why ≠ .statusbar change

/-- The flag of a row is on in a browser: it is stored, and in whatever the browser merges. -/
structure StaysOn (d : ℕ) (row : Row) (saved : List Saved) (s : State) : Prop where
  hub : Shown (s.hub row.path)
  answered : ∀ e why prefs, .answered e why (some prefs) ∈ s.flights → Shown (prefs row.path)
  stored : s.store d row.key = some ['1']
  sent : ∀ why body, .put d why body ∈ s.flights → IsOwn why → body row.path = some (.bool true)
  saved : ∀ why, saved.getLast? = some (d, why) → IsOwn why → s.hub row.path = some (.bool true)

variable {d : ℕ} {row : Row}

/-- A flight that has the flag on, if it is the browser's own, and an answer that may be one of the hub's. -/
structure Carries (d : ℕ) (row : Row) (f : Flight) : Prop where
  answered : ∀ e why prefs, f = .answered e why (some prefs) → Shown (prefs row.path)
  sent : ∀ why body, f = .put d why body → IsOwn why → body row.path = some (.bool true)

theorem carries_asked (e : ℕ) (why : Purpose) : Carries d row (.asked e why) :=
  ⟨fun _ _ _ h => Flight.noConfusion h, fun _ _ h => Flight.noConfusion h⟩

theorem StaysOn.flights (h : StaysOn d row saved s) {flights : List Flight}
    (hFlights : ∀ f ∈ flights, f ∈ s.flights ∨ Carries d row f) :
    StaysOn d row saved { s with flights := flights } where
  hub := h.hub
  answered e why prefs hf := by
    rcases hFlights _ hf with hOld | hNew
    · exact h.answered e why prefs hOld
    · exact hNew.answered e why prefs rfl
  stored := h.stored
  sent why body hf := by
    rcases hFlights _ hf with hOld | hNew
    · exact h.sent why body hOld
    · exact hNew.sent why body rfl
  saved := h.saved

theorem StaysOn.without (h : StaysOn d row saved s) (i : ℕ) : StaysOn d row saved (s.without i) :=
  h.flights fun _ hf => .inl (List.mem_of_mem_eraseIdx hf)

theorem StaysOn.push (h : StaysOn d row saved s) {f : Flight} (hf : Carries d row f) :
    StaysOn d row saved { s with flights := s.flights ++ [f] } := by
  apply h.flights
  intro g hg
  rcases List.mem_append.1 hg with hOld | hNew
  · exact .inl hOld
  · rw [List.mem_singleton.1 hNew]
    exact .inr hf

/-- A change in a browser that leaves the flag's text as it is. -/
theorem StaysOn.browser (h : StaysOn d row saved s) (hFlights : t.flights = s.flights) (hHub : t.hub = s.hub)
    (hStore : t.store d row.key = s.store d row.key) : StaysOn d row saved t where
  hub := by rw [hHub]; exact h.hub
  answered e why prefs hf := h.answered e why prefs (hFlights ▸ hf)
  stored := hStore.trans h.stored
  sent why body hf := h.sent why body (hFlights ▸ hf)
  saved why hLast hOwn := by rw [hHub]; exact h.saved why hLast hOwn

/-- One browser's storage is rewritten. -/
theorem store_update (h : s.store d row.key = some ['1']) (e : ℕ) {store : Storage}
    (hStore : e = d → store row.key = some ['1']) : update s.store e store d row.key = s.store d row.key := by
  by_cases he : e = d
  · subst he
    rw [update_self, h, hStore rfl]
  · rw [update_of_ne (Ne.symm he)]

theorem StaysOn.arrive (h : StaysOn d row saved s) (hRow : row ∈ pathToLS)
    (hField : fields.lookup row.path = some .flag) (e : ℕ) (why : Purpose) (prefs : Option Prefs)
    (hShown : ∀ p, prefs = some p → Shown (p row.path)) : StaysOn d row saved (arrive js e s why prefs) := by
  obtain ⟨hSerializer, hPath⟩ := flag_row hRow hField
  cases why with
  | mirror =>
    cases prefs with
    | none => exact h
    | some prefs =>
      have hMirror : e = d → mirror js prefs (s.store e) row.key = some ['1'] := by
        rintro rfl
        exact mirror_on hRow hSerializer (hShown prefs rfl) h.stored
      rw [PrefsSync.arrive]
      split_ifs
      · refine h.browser rfl rfl (store_update h.stored e ?_)
        intro he
        rw [backfill_apply hRow hField, hMirror he]
      · have hStore : StaysOn d row saved { s with store := update s.store e (mirror js prefs (s.store e)) } :=
          h.browser rfl rfl (store_update h.stored e hMirror)
        exact hStore.push (carries_asked e .migrate)
  | cycle n =>
    cases prefs with
    | none => exact h
    | some prefs =>
      apply h.push
      refine ⟨fun _ _ _ hf => Flight.noConfusion hf, ?_⟩
      intro why body hf _
      rw [Flight.put.injEq] at hf
      obtain ⟨rfl, -, rfl⟩ := hf
      exact mergeStored_on hRow hPath h.stored prefs
  | migrate =>
    cases prefs with
    | none => exact h
    | some prefs =>
      rw [PrefsSync.arrive]
      split_ifs
      · exact h
      · apply h.push
        refine ⟨fun _ _ _ hf => Flight.noConfusion hf, ?_⟩
        intro why body hf _
        rw [Flight.put.injEq] at hf
        obtain ⟨rfl, -, rfl⟩ := hf
        have hOther : row.path ≠ migratedPath := fun hSame =>
          path_ne_own hRow (hSame ▸ List.mem_cons_self)
        rw [update_of_ne hOther]
        exact mergeStored_on hRow hPath h.stored prefs
  | statusbar change =>
    apply h.push
    refine ⟨fun _ _ _ hf => Flight.noConfusion hf, ?_⟩
    intro why body hf hOwn
    rw [Flight.put.injEq] at hf
    exact absurd hf.2.1.symm (hOwn change)

theorem StaysOn.answer (h : StaysOn d row saved s) {i e : ℕ} {why : Purpose} {prefs : Option Prefs}
    (hShown : ∀ p, prefs = some p → Shown (p row.path)) :
    StaysOn d row saved { s with flights := s.flights.set i (.answered e why prefs) } := by
  apply h.flights
  intro f hIn
  rcases List.mem_or_eq_of_mem_set hIn with hOld | rfl
  · exact .inl hOld
  · right
    refine ⟨fun e' why' p hf => ?_, fun _ _ hf => Flight.noConfusion hf⟩
    rw [Flight.answered.injEq] at hf
    exact hShown p hf.2.2

theorem StaysOn.take (h : StaysOn d row saved s) (hRow : row ∈ pathToLS)
    (hField : fields.lookup row.path = some .flag) {i e : ℕ} {why : Purpose} {body prefs : Prefs}
    (hf : s.flights[i]? = some (.put e why body)) (hPut : handleUserPrefsPut isUpload body = some prefs) :
    StaysOn d row (saved ++ [(e, why)]) { s.without i with hub := prefs } where
  hub := by
    show Shown (prefs row.path)
    rw [handleUserPrefsPut_apply hPut hRow]
    cases body row.path with
    | none => exact .inl rfl
    | some v => exact kept_flag hField v
  answered := (h.without i).answered
  stored := h.stored
  sent := (h.without i).sent
  saved why' hLast hOwn := by
    rw [List.getLast?_concat, Option.some.injEq, Prod.mk.injEq] at hLast
    obtain ⟨rfl, rfl⟩ := hLast
    show prefs row.path = some (.bool true)
    rw [handleUserPrefsPut_apply hPut hRow, h.sent why body (List.mem_of_getElem? hf) hOwn, Option.bind_some,
      kept,
      hField]
    rfl

/-- What the language does with the values below. -/
def plainJs : Js where
  parse raw := if raw = ['0'] ∨ raw = ['1'] then some (.num raw) else none
  stringify _ := []
  text v := match v with
    | .str s => s
    | _ => []
  parseInt _ := none
  showInt _ := ['0']
  body s := s
  frequency _ := ['0']

def autoApproval : Row :=
  ⟨"approval.auto_approval_enabled".toList, "ai_cli_hub_auto_approval_enabled".toList, .flag⟩

def lang : Row := ⟨"display.lang".toList, "ai_cli_hub_lang".toList, .text⟩

/-- It is off in the hub, where another browser has switched it off, and on in every browser. -/
def offElsewhere : State :=
  init (fun _ => none) fun _ => update (fun _ => none) autoApproval.key (some ['1'])

def chooseLang : List Act :=
  [.setUserPref 1 lang.path (.str ['e', 'n']), .timeout 1, .answer 0, .arrive 0, .take 0]

theorem chooseLang_runs : (exec (step plainJs fun _ => false) offElsewhere chooseLang).map (fun r =>
    (r.2, r.1.begun 1, r.1.timer 1, r.1.store 1 lang.key)) =
      some ([(1, .cycle 1)], 1, false, some ['e', 'n']) := by
  decide +kernel

/-! A run is taken step by step; what the last one gives does not matter. -/

theorem meets_singleton {σ α ε : Type} {step : σ → α → Option (σ × List ε)} {ok : σ → α → Prop} {s : σ} {a : α}
    (h : ok s a) : Meets step ok s [a] := by
  refine ⟨h, ?_⟩
  cases step s a <;> trivial

theorem meets_cons {σ α ε : Type} {step : σ → α → Option (σ × List ε)} {ok : σ → α → Prop} {s t : σ} {a : α}
    {as : List α} {es : List ε} (h : ok s a) (hStep : step s a = some (t, es)) (hRest : Meets step ok t as) :
    Meets step ok s (a :: as) := by
  refine ⟨h, ?_⟩
  rw [hStep]
  exact hRest

theorem chooseLang_meets : Meets (step plainJs fun _ => false) (fun s a => beforeFirst s a = true) offElsewhere
    chooseLang :=
  meets_cons rfl rfl (meets_cons rfl rfl (meets_cons rfl rfl (meets_cons rfl rfl (meets_singleton rfl))))

theorem lang_mem : lang ∈ pathToLS :=
  List.mem_map.2 ⟨("display.lang", "ai_cli_hub_lang", .text), by simp, rfl⟩

/-- The language is in the hub too. -/
theorem settled_agrees_lang : ((exec (step plainJs fun _ => false) offElsewhere chooseLang).map fun r =>
    r.1.hub lang.path) = some (some (.str ['e', 'n'])) := by
  obtain ⟨⟨t, es⟩, hRun, hEnd⟩ := Option.map_eq_some_iff.1 chooseLang_runs
  simp only [Prod.mk.injEq] at hEnd
  obtain ⟨rfl, hBegun, hTimer, hStored⟩ := hEnd
  have hAgrees := settled_agrees hRun chooseLang_meets (by rw [hBegun]; rfl) hTimer
  have hParse : parseStored plainJs lang.path ['e', 'n'] = some (.str ['e', 'n']) := by rfl
  rw [hRun, Option.map_some, hAgrees lang lang_mem _ _ hStored hParse]
  rfl

end ManyAiCli.Web.PrefsSync
