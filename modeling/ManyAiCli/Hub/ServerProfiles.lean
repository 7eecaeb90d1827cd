import ManyAiCli.Launcher.Profile
import ManyAiCli.Runs.Machine
import ManyAiCli.Runs.Jobs

/-! The saved connection profiles of the Hub: requests that replace the list and
connections that note the profile last used, on one file. Both load the file, change
their part and save it; a mutex is held by the requests only. -/

namespace ManyAiCli.Hub.ServerProfiles

open Launcher Runs

/-- A POST to `/api/servers`, and `updateLastUsed`. -/
inductive Request
  | save (profiles : List Profile)
  | lastUsed (name : List Char)
  deriving DecidableEq, Repr

inductive Failure
  | load
  | invalid (err : ProfileError)
  | save
  deriving DecidableEq, Repr

/-- The error that a POST is answered with. `updateLastUsed` returns silently. -/
def Failure.answer : Failure → ℕ × String
  | .load => (500, "load_failed")
  | .invalid _ => (400, "invalid_profile")
  | .save => (500, "save_failed")

/-- How far a call is. A file it has loaded is kept with the number of saves of
profile lists before. -/
inductive Phase
  | called
  | locked
  | loaded (pf : ProfilesFile) (saves : ℕ)
  | saved (pf : ProfilesFile)
  | failed (f : Failure)
  deriving DecidableEq, Repr

structure Job where
  request : Request
  phase : Phase
  deriving DecidableEq, Repr

structure State (β : Type*) where
  file : Option β
  profileSaveMu : Option ℕ := none
  jobs : List Job := []
  /-- The requests that have entered the critical section, in this order. -/
  entered : List ℕ := []
  saves : ℕ := 0
  deriving DecidableEq, Repr

inductive Action
  | request (r : Request)
  | lock (j : ℕ)
  | load (j : ℕ) (readable : Bool)
  | store (j : ℕ) (written : Bool)
  deriving DecidableEq, Repr

def Job.finished (x : Job) : Bool :=
  match x.phase with
  | .saved _ | .failed _ => true
  | _ => false

/-- The list that the call has saved. -/
def Job.savedList : Job → Option (List Profile)
  | ⟨.save ps, .saved _⟩ => some ps
  | _ => none

/-- The name that the call has left in the file: its own, or the one it loaded. -/
def Job.savedName : Job → Option (List Char)
  | ⟨.save _, .saved pf⟩ => some pf.lastUsed
  | ⟨.lastUsed name, .saved _⟩ => some name
  | _ => none

namespace State

variable {β : Type*} (Y : Yaml β) (s : State β)

def setJob (j : ℕ) (r : Request) (p : Phase) : State β := { s with jobs := s.jobs.set j ⟨r, p⟩ }

/-- The deferred unlock, once the answer is written. -/
def unlock : State β := { s with profileSaveMu := none }

/-- `LoadProfiles`, with the error of reading the file. -/
def load (readable : Bool) : Option ProfilesFile := if readable then loadProfiles Y s.file else none

/-- The rest of `handleServers` after loading. -/
def storeSave (j : ℕ) (profiles : List Profile) (pf : ProfilesFile) (written : Bool) : State β :=
  match validate { pf with profiles } with
  | .error e => (s.setJob j (.save profiles) (.failed (.invalid e))).unlock
  | .ok () =>
    if written then
      { (s.setJob j (.save profiles) (.saved pf)).unlock with
        file := saveProfiles Y { pf with profiles }, saves := s.saves + 1 }
    else (s.setJob j (.save profiles) (.failed .save)).unlock

/-- The rest of `updateLastUsed` after loading. -/
def storeLastUsed (j : ℕ) (name : List Char) (pf : ProfilesFile) (written : Bool) : State β :=
  if written then
    { s.setJob j (.lastUsed name) (.saved pf) with file := saveProfiles Y { pf with lastUsed := name } }
  else s.setJob j (.lastUsed name) (.failed .save)

def move (a : Action) : Option (State β) :=
  match a with
  | .request r => some { s with jobs := s.jobs ++ [⟨r, .called⟩] }
  | .lock j =>
    match s.jobs[j]?, s.profileSaveMu with
    | some ⟨.save ps, .called⟩, none =>
      some { s.setJob j (.save ps) .locked with profileSaveMu := some j, entered := s.entered ++ [j] }
    | _, _ => none
  | .load j readable =>
    match s.jobs[j]? with
    | some ⟨.save ps, .locked⟩ =>
      match s.load Y readable with
      | none => some (s.setJob j (.save ps) (.failed .load)).unlock
      | some pf => some (s.setJob j (.save ps) (.loaded pf s.saves))
    | some ⟨.lastUsed name, .called⟩ =>
      match s.load Y readable with
      | none => some (s.setJob j (.lastUsed name) (.failed .load))
      | some pf => some (s.setJob j (.lastUsed name) (.loaded pf s.saves))
    | _ => none
  | .store j written =>
    match s.jobs[j]? with
    | some ⟨.save ps, .loaded pf _⟩ => some (s.storeSave Y j ps pf written)
    | some ⟨.lastUsed name, .loaded pf _⟩ => some (s.storeLastUsed Y j name pf written)
    | _ => none

def step (a : Action) : Option (State β × List Empty) := (s.move Y a).map fun t => (t, [])

/-- The list of request `j`, once it is saved. -/
def savedBy (jobs : List Job) (j : ℕ) : Option (List Profile) := jobs[j]?.bind Job.savedList

/-- The lists that were saved, in the order in which their requests entered. -/
def savedLists : List (List Profile) := s.entered.filterMap (savedBy s.jobs)

/-- The profile list on disk, unless the file is no document. -/
def profilesOnDisk (file : Option β) : Option (List Profile) := (document Y file).map (·.profiles)

/-- The list of the save that entered last, or the first one of all. -/
def lastList (initial : Option β) : Option (List Profile) :=
  match s.savedLists.getLast? with
  | some ps => some ps
  | none => profilesOnDisk Y initial

/-- Nothing has been saved yet, or the name is of an update or of a file that a save loaded. -/
def LastUsedKept (initial : Option β) : Prop :=
  (s.file = initial ∧ ∀ x ∈ s.jobs, x.savedName = none) ∨
    ∃ doc, document Y s.file = some doc ∧ ∃ x ∈ s.jobs, x.savedName = some doc.lastUsed

/-- Once all calls are through, no save of a list is lost and the name is somebody's. -/
def Kept (initial : Option β) : Prop :=
  (∀ x ∈ s.jobs, x.finished = true) →
    profilesOnDisk Y s.file = s.lastList Y initial ∧ s.LastUsedKept Y initial

/-- An update saves only if no list has been saved since it loaded the file, and loads only
files in which no `ssh` host has a user. -/
def undisturbed (a : Action) : Bool :=
  match a with
  | .load j _ =>
    match s.jobs[j]? with
    | some ⟨.lastUsed _, .called⟩ => ((profilesOnDisk Y s.file).getD []).all fun p => decide p.Normal
    | _ => true
  | .store j _ =>
    match s.jobs[j]? with
    | some ⟨.lastUsed _, .loaded _ saves⟩ => saves = s.saves
    | _ => true
  | _ => true

/-! ### What a step can do -/

inductive Takes : Action → State β → Prop
  | request (r : Request) : Takes (.request r) { s with jobs := s.jobs ++ [⟨r, .called⟩] }
  | lock {j : ℕ} {ps : List Profile} (h : s.jobs[j]? = some ⟨.save ps, .called⟩)
    (hm : s.profileSaveMu = none) : Takes (.lock j)
      { s.setJob j (.save ps) .locked with profileSaveMu := some j, entered := s.entered ++ [j] }
  | saveFails {a : Action} {j : ℕ} {ps : List Profile} {p : Phase} (f : Failure)
    (h : s.jobs[j]? = some ⟨.save ps, p⟩) (hp : p = .locked ∨ ∃ pf n, p = .loaded pf n) :
    Takes a (s.setJob j (.save ps) (.failed f)).unlock
  | saveLoads {j : ℕ} {ps : List Profile} {readable : Bool} (pf : ProfilesFile)
    (h : s.jobs[j]? = some ⟨.save ps, .locked⟩) :
    Takes (.load j readable) (s.setJob j (.save ps) (.loaded pf s.saves))
  | saves {j : ℕ} {ps : List Profile} {pf : ProfilesFile} {n : ℕ} {written : Bool}
    (h : s.jobs[j]? = some ⟨.save ps, .loaded pf n⟩) : Takes (.store j written)
      { (s.setJob j (.save ps) (.saved pf)).unlock with
        file := saveProfiles Y { pf with profiles := ps }, saves := s.saves + 1 }
  | updateFails {a : Action} {j : ℕ} {name : List Char} {p : Phase} (f : Failure)
    (h : s.jobs[j]? = some ⟨.lastUsed name, p⟩) (hp : p = .called ∨ ∃ pf n, p = .loaded pf n) :
    Takes a (s.setJob j (.lastUsed name) (.failed f))
  | updateLoads {j : ℕ} {name : List Char} {readable : Bool} {pf : ProfilesFile}
    (h : s.jobs[j]? = some ⟨.lastUsed name, .called⟩) (hl : loadProfiles Y s.file = some pf) :
    Takes (.load j readable) (s.setJob j (.lastUsed name) (.loaded pf s.saves))
  | updates {j : ℕ} {name : List Char} {pf : ProfilesFile} {n : ℕ} {written : Bool}
    (h : s.jobs[j]? = some ⟨.lastUsed name, .loaded pf n⟩) : Takes (.store j written)
      { s.setJob j (.lastUsed name) (.saved pf) with
        file := saveProfiles Y { pf with lastUsed := name } }

variable {Y s} {t : State β} {a : Action} {j : ℕ} {x y : Job} {initial : Option β}

theorem takes_of_move (h : s.move Y a = some t) : Takes Y s a t := by
  cases a with
  | request r =>
    obtain rfl := Option.some.inj h
    exact .request r
  | lock j =>
    simp only [move] at h
    split at h
    · rename_i ps hj hm
      obtain rfl := Option.some.inj h
      exact .lock hj hm
    · cases h
  | load j readable =>
    simp only [move] at h
    split at h
    · rename_i ps hj
      split at h <;> obtain rfl := Option.some.inj h
      · exact .saveFails .load hj (.inl rfl)
      · exact .saveLoads _ hj
    · rename_i name hj
      split at h <;> obtain rfl := Option.some.inj h
      · exact .updateFails .load hj (.inl rfl)
      · rename_i pf hl
        cases readable with
        | false => cases hl
        | true => exact .updateLoads hj hl
    · cases h
  | store j written =>
    simp only [move] at h
    split at h
    · rename_i ps pf n hj
      obtain rfl := Option.some.inj h
      unfold storeSave
      split
      · exact .saveFails _ hj (.inr ⟨pf, n, rfl⟩)
      · split_ifs
        · exact .saves hj
        · exact .saveFails .save hj (.inr ⟨pf, n, rfl⟩)
    · rename_i name pf n hj
      obtain rfl := Option.some.inj h
      unfold storeLastUsed
      split_ifs
      · exact .updates hj
      · exact .updateFails .save hj (.inr ⟨pf, n, rfl⟩)
    · cases h

theorem takes_of_step {es : List Empty} (h : s.step Y a = some (t, es)) : Takes Y s a t := by
  obtain ⟨u, hu, he⟩ := Option.map_eq_some_iff.1 h
  obtain ⟨rfl, -⟩ := Prod.mk.inj he
  exact takes_of_move hu

theorem getElem?_request {r : Request} (h : (s.jobs ++ [⟨r, .called⟩])[j]? = some x) :
    s.jobs[j]? = some x ∨ x = ⟨r, .called⟩ := by
  rw [List.getElem?_append] at h
  split_ifs at h
  · exact .inl h
  · rw [List.getElem?_singleton] at h
    split_ifs at h
    exact .inr (Option.some.inj h).symm

/-! ### The saved lists in order -/

theorem savedBy_of_getElem? (h : s.jobs[j]? = some x) : savedBy s.jobs j = x.savedList := by
  rw [savedBy, h, Option.bind_some]

theorem savedBy_set_self (hj : s.jobs[j]? = some y) : savedBy (s.jobs.set j x) j = x.savedList := by
  rw [savedBy, List.getElem?_set_self (List.getElem?_eq_some_iff.1 hj).1, Option.bind_some]

theorem savedBy_set_ne {i : ℕ} (h : i ≠ j) : savedBy (s.jobs.set j x) i = savedBy s.jobs i := by
  simp only [savedBy, List.getElem?_set_ne h.symm]

theorem savedBy_request (r : Request) : savedBy (s.jobs ++ [⟨r, .called⟩]) = savedBy s.jobs := by
  funext i
  simp only [savedBy, List.getElem?_append]
  split_ifs with h
  · rfl
  · rw [List.getElem?_eq_none (Nat.le_of_not_lt h), List.getElem?_singleton]
    split_ifs
    · cases r <;> rfl
    · rfl

/-- A job that has not saved, before and after. -/
theorem filterMap_savedBy_set (js : List ℕ) (hj : s.jobs[j]? = some y) (hy : y.savedList = none)
    (hx : x.savedList = none) :
    js.filterMap (savedBy (s.jobs.set j x)) = js.filterMap (savedBy s.jobs) := by
  refine List.filterMap_congr fun i _ => ?_
  by_cases hij : i = j
  · rw [hij, savedBy_set_self hj, savedBy_of_getElem? hj, hx, hy]
  · exact savedBy_set_ne hij

/-- The mutex and the order of entering. -/
structure Tracked (s : State β) : Prop where
  entered : ∀ j ∈ s.entered, ∃ ps p, s.jobs[j]? = some ⟨.save ps, p⟩ ∧ p ≠ .called
  nodup : s.entered.Nodup
  inside : ∀ j ps p, s.jobs[j]? = some ⟨.save ps, p⟩ → (p = .locked ∨ ∃ pf n, p = .loaded pf n) →
    s.profileSaveMu = some j
  last : ∀ j, s.profileSaveMu = some j → s.entered.getLast? = some j

/-- A job that entered stays one that entered. -/
theorem Tracked.entered_set (h : Tracked s) (hj : s.jobs[j]? = some y) (hr : x.request = y.request)
    (hx : x.phase ≠ .called) :
    ∀ i ∈ s.entered, ∃ ps p, (s.jobs.set j x)[i]? = some ⟨.save ps, p⟩ ∧ p ≠ .called := by
  intro i hi
  obtain ⟨ps, p, hip, hp⟩ := h.entered i hi
  by_cases hij : i = j
  · subst hij
    obtain rfl := Option.some.inj (hj.symm.trans hip)
    obtain ⟨r, q⟩ := x
    obtain rfl : r = .save ps := hr
    exact ⟨ps, q, List.getElem?_set_self (List.getElem?_eq_some_iff.1 hj).1, hx⟩
  · exact ⟨ps, p, by rw [List.getElem?_set_ne (Ne.symm hij), hip], hp⟩

/-- The one inside leaves. -/
theorem Tracked.leave (h : Tracked s) {ps : List Profile} {p : Phase}
    (hj : s.jobs[j]? = some ⟨.save ps, p⟩) (hp : p = .locked ∨ ∃ pf n, p = .loaded pf n) {q : Phase}
    (hq : q ≠ .called ∧ q ≠ .locked ∧ ∀ pf n, q ≠ .loaded pf n) {f : Option β} {n : ℕ} :
    Tracked { (s.setJob j (.save ps) q).unlock with file := f, saves := n } where
  entered := h.entered_set hj rfl hq.1
  nodup := h.nodup
  inside i ps' p' hi hp' := by
    rcases getElem?_set_cases hi with ⟨-, hx⟩ | ⟨hij, hi⟩
    · obtain ⟨-, rfl⟩ := Job.mk.inj hx
      rcases hp' with rfl | ⟨pf, n, rfl⟩
      · exact absurd rfl hq.2.1
      · exact absurd rfl (hq.2.2 pf n)
    · have h1 := h.inside i ps' p' hi hp'
      have h2 := h.inside j ps p hj hp
      rw [h1] at h2
      exact absurd (Option.some.inj h2) hij
  last i hi := by cases hi

/-- An update neither takes nor holds the mutex. -/
theorem Tracked.setUpdate (h : Tracked s) {name : List Char} {p q : Phase}
    (hj : s.jobs[j]? = some ⟨.lastUsed name, p⟩) (hq : q ≠ .called) {f : Option β} :
    Tracked { s.setJob j (.lastUsed name) q with file := f } where
  entered := h.entered_set hj rfl hq
  nodup := h.nodup
  inside i ps p' hi hp' := by
    rcases getElem?_set_cases hi with ⟨-, hx⟩ | ⟨-, hi⟩
    · cases (Job.mk.inj hx).1
    · exact h.inside i ps p' hi hp'
  last := h.last

theorem Tracked.takes (h : Tracked s) (ht : Takes Y s a t) : Tracked t := by
  cases ht with
  | request r =>
    refine ⟨fun i hi => ?_, h.nodup, fun i ps p hi hp => ?_, h.last⟩
    · obtain ⟨ps, p, hip, hp⟩ := h.entered i hi
      exact ⟨ps, p, by rw [List.getElem?_append_left (List.getElem?_eq_some_iff.1 hip).1, hip], hp⟩
    · rcases getElem?_request hi with hi | hx
      · exact h.inside i ps p hi hp
      · obtain ⟨-, rfl⟩ := Job.mk.inj hx
        rcases hp with hp | ⟨_, _, hp⟩ <;> cases hp
  | @lock j ps hj hm =>
    have hnot : j ∉ s.entered := fun hi => by
      obtain ⟨ps', p, hip, hp⟩ := h.entered j hi
      obtain ⟨-, rfl⟩ := Job.mk.inj (Option.some.inj (hj.symm.trans hip))
      exact hp rfl
    refine ⟨fun i hi => ?_, ?_, fun i ps' p hi hp => ?_, fun i hi => ?_⟩
    · rcases List.mem_append.1 hi with hi | hi
      · exact h.entered_set (x := ⟨.save ps, .locked⟩) hj rfl (by simp) i hi
      · obtain rfl := List.mem_singleton.1 hi
        exact ⟨ps, .locked, List.getElem?_set_self (List.getElem?_eq_some_iff.1 hj).1, by simp⟩
    · exact List.nodup_append.2 ⟨h.nodup, by simp, fun i hi k hk he =>
        hnot (List.mem_singleton.1 hk ▸ he ▸ hi)⟩
    · rcases getElem?_set_cases hi with ⟨rfl, -⟩ | ⟨-, hi⟩
      · rfl
      · rw [h.inside i ps' p hi hp] at hm
        cases hm
    · obtain rfl := Option.some.inj hi
      exact List.getLast?_concat
  | saveFails f hj hp => exact h.leave hj hp (f := s.file) (n := s.saves) (by simp)
  | @saveLoads j ps readable pf hj =>
    have hm := h.inside j ps .locked hj (.inl rfl)
    refine ⟨h.entered_set (x := ⟨.save ps, .loaded pf s.saves⟩) hj rfl (by simp), h.nodup,
      fun i ps' p hi hp => ?_, h.last⟩
    rcases getElem?_set_cases hi with ⟨rfl, -⟩ | ⟨-, hi⟩
    · exact hm
    · exact h.inside i ps' p hi hp
  | saves hj => exact h.leave hj (.inr ⟨_, _, rfl⟩) (by simp)
  | updateFails f hj hp => exact h.setUpdate hj (by simp) (f := s.file)
  | updateLoads hj hl => exact h.setUpdate hj (by simp) (f := s.file)
  | updates hj => exact h.setUpdate hj (by simp)

/-! ### Which list is on disk -/

theorem lastList_eq (h : t.savedLists = s.savedLists) : t.lastList Y initial = s.lastList Y initial := by
  simp only [lastList, h]

theorem savedLists_setJob (hj : s.jobs[j]? = some y) (hy : y.savedList = none)
    (hx : x.savedList = none) (he : t.entered = s.entered) (ht : t.jobs = s.jobs.set j x) :
    t.savedLists = s.savedLists := by
  rw [savedLists, savedLists, he, ht]
  exact filterMap_savedBy_set s.entered hj hy hx

/-- The save of the request that entered last becomes the last one. -/
theorem lastList_saves (h : Tracked s) {ps : List Profile} {pf : ProfilesFile} {n : ℕ}
    (hj : s.jobs[j]? = some ⟨.save ps, .loaded pf n⟩) (he : t.entered = s.entered)
    (ht : t.jobs = s.jobs.set j ⟨.save ps, .saved pf⟩) : t.lastList Y initial = some ps := by
  have hl : s.entered.getLast? = some j := h.last j (h.inside j ps _ hj (.inr ⟨pf, n, rfl⟩))
  obtain ⟨js, hjs⟩ := List.getLast?_eq_some_iff.1 hl
  have hs : t.savedLists = js.filterMap (savedBy t.jobs) ++ [ps] := by
    rw [savedLists, he, hjs, List.filterMap_append, ht]
    simp [savedBy_set_self hj, Job.savedList]
  rw [lastList, hs, List.getLast?_concat]

/-- The list on disk is the last one, and who still may save an update has loaded it. -/
structure Listed (Y : Yaml β) (initial : Option β) (s : State β) : Prop where
  onDisk : profilesOnDisk Y s.file = s.lastList Y initial
  loaded : ∀ (j : ℕ) (name : List Char) (pf : ProfilesFile) (n : ℕ),
    s.jobs[j]? = some ⟨.lastUsed name, .loaded pf n⟩ →
    n ≤ s.saves ∧ (n = s.saves → profilesOnDisk Y s.file = some pf.profiles)

/-- A job goes on without saving. -/
theorem Listed.setJob (h : Listed Y initial s) (hj : s.jobs[j]? = some y) (hy : y.savedList = none)
    (hx : x.savedList = none) (he : t.entered = s.entered) (ht : t.jobs = s.jobs.set j x)
    (hf : profilesOnDisk Y t.file = profilesOnDisk Y s.file) (hn : t.saves = s.saves)
    (hl : ∀ name (pf : ProfilesFile) n, x = ⟨.lastUsed name, .loaded pf n⟩ →
      n ≤ s.saves ∧ (n = s.saves → profilesOnDisk Y s.file = some pf.profiles)) :
    Listed Y initial t where
  onDisk := by rw [hf, lastList_eq (savedLists_setJob hj hy hx he ht), h.onDisk]
  loaded i name pf n hi := by
    rw [hn, hf]
    rw [ht] at hi
    rcases getElem?_set_cases hi with ⟨-, he⟩ | ⟨-, hi⟩
    · exact hl name pf n he.symm
    · exact h.loaded i name pf n hi

/-- Loading gives the list on disk if all its profiles are normal. -/
theorem profiles_of_loadProfiles {file : Option β} {pf : ProfilesFile} (h : loadProfiles Y file = some pf)
    (hn : ∀ ps, profilesOnDisk Y file = some ps → ∀ p ∈ ps, p.Normal) :
    profilesOnDisk Y file = some pf.profiles := by
  obtain ⟨doc, hdoc, -, hp⟩ := loadProfiles_eq_some Y h
  have hd : profilesOnDisk Y file = some doc.profiles := by rw [profilesOnDisk, hdoc, Option.map_some]
  have hmap : doc.profiles.map normalizeProfile = doc.profiles := by
    conv_rhs => rw [← List.map_id doc.profiles]
    exact List.map_congr_left fun p hp => normalizeProfile_of_normal (hn _ hd p hp)
  rw [hd, hp, hmap]

theorem Listed.takes (h : Listed Y initial s) (hT : Tracked s) (hok : s.undisturbed Y a = true)
    (ht : Takes Y s a t) : Listed Y initial t := by
  cases ht with
  | request r =>
    refine ⟨?_, fun j name pf n hj => ?_⟩
    · have : savedLists { s with jobs := s.jobs ++ [⟨r, .called⟩] } = s.savedLists := by
        simp only [savedLists, savedBy_request]
      rw [lastList_eq this, ← h.onDisk]
    · rcases getElem?_request hj with hj | hx
      · exact h.loaded j name pf n hj
      · cases (Job.mk.inj hx).2
  | @lock j ps hj hm =>
    refine ⟨?_, fun i name pf n hi => ?_⟩
    · have : savedLists { s.setJob j (.save ps) .locked with
          profileSaveMu := some j, entered := s.entered ++ [j] } = s.savedLists := by
        simp only [savedLists, State.setJob, List.filterMap_append]
        rw [filterMap_savedBy_set s.entered hj rfl rfl]
        simp [savedBy_set_self hj, Job.savedList]
      rw [lastList_eq this, ← h.onDisk]
      rfl
    · rcases getElem?_set_cases hi with ⟨-, hx⟩ | ⟨-, hi⟩
      · cases (Job.mk.inj hx).1
      · exact h.loaded i name pf n hi
  | @saveFails _ j ps p f hj hp =>
    have hy : Job.savedList ⟨.save ps, p⟩ = none := by
      rcases hp with rfl | ⟨pf, n, rfl⟩ <;> rfl
    exact h.setJob hj hy (x := ⟨.save ps, .failed f⟩) rfl rfl rfl rfl rfl (by simp)
  | @saveLoads j ps readable pf hj =>
    exact h.setJob hj rfl (x := ⟨.save ps, .loaded pf s.saves⟩) rfl rfl rfl rfl rfl (by simp)
  | @saves j ps pf n written hj =>
    refine ⟨?_, fun i name pf' n' hi => ?_⟩
    · refine Eq.trans (b := some ps) ?_ (Eq.symm ?_)
      · rw [profilesOnDisk, document_saveProfiles, Option.map_some]
      · exact lastList_saves hT hj rfl rfl
    · rcases getElem?_set_cases hi with ⟨-, hx⟩ | ⟨-, hi⟩
      · cases (Job.mk.inj hx).1
      · have := (h.loaded i name pf' n' hi).1
        exact ⟨Nat.le_succ_of_le this, fun he => absurd he (by simp only; omega)⟩
  | @updateFails _ j name p f hj hp =>
    have hy : Job.savedList ⟨.lastUsed name, p⟩ = none := rfl
    exact h.setJob hj hy (x := ⟨.lastUsed name, .failed f⟩) rfl rfl rfl rfl rfl (by simp)
  | @updateLoads j name readable pf hj hl =>
    simp only [undisturbed, hj, List.all_eq_true, decide_eq_true_eq] at hok
    refine h.setJob hj rfl (x := ⟨.lastUsed name, .loaded pf s.saves⟩) rfl rfl rfl rfl rfl ?_
    rintro _ _ _ ⟨⟩
    exact ⟨le_rfl, fun _ => profiles_of_loadProfiles hl fun ps hps p hp => hok p (by rwa [hps])⟩
  | @updates j name pf n written hj =>
    simp only [undisturbed, hj, decide_eq_true_eq] at hok
    have hd := (h.loaded j name pf n hj).2 hok
    refine h.setJob hj rfl (x := ⟨.lastUsed name, .saved pf⟩) rfl rfl rfl ?_ rfl (by simp)
    rw [profilesOnDisk, document_saveProfiles, Option.map_some, hd]

/-! ### Whose name is in the file -/

theorem LastUsedKept.setJob (h : s.LastUsedKept Y initial) (hj : s.jobs[j]? = some y)
    (hy : y.savedName = none) (hx : x.savedName = none) (ht : t.jobs = s.jobs.set j x)
    (hf : t.file = s.file) : t.LastUsedKept Y initial := by
  rcases h with ⟨h1, h2⟩ | ⟨doc, hd, z, hz, hn⟩
  · refine .inl ⟨hf.trans h1, fun z hz => ?_⟩
    rw [ht] at hz
    rcases List.mem_or_eq_of_mem_set hz with hz | rfl
    · exact h2 z hz
    · exact hx
  · refine .inr ⟨doc, by rw [hf, hd], z, ?_, hn⟩
    obtain ⟨i, hi⟩ := List.mem_iff_getElem?.1 hz
    have hij : i ≠ j := by
      rintro rfl
      obtain rfl := Option.some.inj (hj.symm.trans hi)
      rw [hy] at hn
      cases hn
    rw [ht, List.mem_iff_getElem?]
    exact ⟨i, by rw [List.getElem?_set_ne hij.symm, hi]⟩

/-- Who saves leaves the name. -/
theorem lastUsedKept_saves (pf : ProfilesFile) (hj : s.jobs[j]? = some y)
    (hx : x.savedName = some pf.lastUsed) (ht : t.jobs = s.jobs.set j x)
    (hf : t.file = saveProfiles Y pf) : t.LastUsedKept Y initial := by
  refine .inr ⟨pf, by rw [hf, document_saveProfiles], x, ?_, hx⟩
  rw [ht]
  exact List.mem_set (List.getElem?_eq_some_iff.1 hj).1 x

theorem LastUsedKept.takes (h : s.LastUsedKept Y initial) (ht : Takes Y s a t) :
    t.LastUsedKept Y initial := by
  cases ht with
  | request r =>
    have hr : Job.savedName ⟨r, .called⟩ = none := by cases r <;> rfl
    rcases h with ⟨h1, h2⟩ | ⟨doc, hd, z, hz, hn⟩
    · refine .inl ⟨h1, fun z hz => ?_⟩
      rcases List.mem_append.1 hz with hz | hz
      · exact h2 z hz
      · rwa [List.mem_singleton.1 hz]
    · exact .inr ⟨doc, hd, z, List.mem_append_left _ hz, hn⟩
  | lock hj hm => exact h.setJob hj rfl (x := ⟨.save _, .locked⟩) rfl rfl rfl
  | @saveFails _ j ps p f hj hp =>
    have hy : Job.savedName ⟨.save ps, p⟩ = none := by
      rcases hp with rfl | ⟨pf, n, rfl⟩ <;> rfl
    exact h.setJob hj hy (x := ⟨.save ps, .failed f⟩) rfl rfl rfl
  | saveLoads pf hj => exact h.setJob hj rfl (x := ⟨.save _, .loaded pf _⟩) rfl rfl rfl
  | @saves j ps pf n written hj =>
    exact lastUsedKept_saves { pf with profiles := ps } hj (x := ⟨.save ps, .saved pf⟩) rfl rfl rfl
  | @updateFails _ j name p f hj hp =>
    have hy : Job.savedName ⟨.lastUsed name, p⟩ = none := by
      rcases hp with rfl | ⟨pf, n, rfl⟩ <;> rfl
    exact h.setJob hj hy (x := ⟨.lastUsed name, .failed f⟩) rfl rfl rfl
  | @updateLoads j name readable pf hj hl =>
    exact h.setJob hj rfl (x := ⟨.lastUsed name, .loaded pf s.saves⟩) rfl rfl rfl
  | @updates j name pf n written hj =>
    exact lastUsedKept_saves { pf with lastUsed := name } hj (x := ⟨.lastUsed name, .saved pf⟩)
      rfl rfl rfl

end State

open State

variable {β : Type*}

/-- When every update saves undisturbed, no saved list is ever lost. -/
theorem kept_of_undisturbed (Y : Yaml β) (initial : Option β) (as : List Action) (s : State β)
    (es : List Empty) (hx : exec (State.step Y) { file := initial } as = some (s, es))
    (hm : Meets (State.step Y) (fun s a => s.undisturbed Y a = true) { file := initial } as) :
    s.Kept Y initial := by
  have hI := exec_state_invariant
    (I := fun s => Tracked s ∧ Listed Y initial s ∧ s.LastUsedKept Y initial)
    (fun s a t es h hok hs =>
      have ht := takes_of_step hs
      ⟨h.1.takes ht, h.2.1.takes h.1 hok ht, h.2.2.takes ht⟩)
    ⟨⟨by simp, List.nodup_nil, by simp, by simp⟩, ⟨rfl, by simp⟩, .inl ⟨rfl, by simp⟩⟩ hm hx
  exact fun _ => ⟨hI.2.1.onDisk, hI.2.2⟩

/-- A profile `a` that connects through WSL, and a second one. -/
def listA : List Profile := [{ name := ['a'], type := profileTypeWSL }]

def listAB : List Profile := listA ++ [{ name := ['b'], type := profileTypeWSL }]

/-- A save, and an update after it. -/
theorem kept_of_undisturbed_run : ∃ s : State ProfilesFile,
    s.Kept .document (some { version := 1, profiles := listA }) ∧
      profilesOnDisk .document s.file = some listAB :=
  ⟨_, kept_of_undisturbed .document _
    [.request (.save listAB), .request (.lastUsed ['a']), .lock 0, .load 0 true, .store 0 true,
      .load 1 true, .store 1 true] _ [] rfl (by decide), rfl⟩

/-- The update loads the file before the save and stores it after. -/
theorem save_lost : ∃ (s : State ProfilesFile) (es : List Empty),
    exec (State.step .document) { file := some { version := 1, profiles := listA } }
      [.request (.lastUsed ['a']), .load 0 true, .request (.save listAB), .lock 1, .load 1 true,
        .store 1 true, .store 0 true] = some (s, es) ∧
      ¬ s.Kept .document (some { version := 1, profiles := listA }) := by
  refine ⟨_, [], rfl, fun h => ?_⟩
  have hf := (h (by decide)).1
  revert hf
  decide

end ManyAiCli.Hub.ServerProfiles
