import ManyAiCli.Wrapper.PidLock

/-! At most one live process holds the lock, and OpenCode's config file is restored, as
long as no thief takes away the lock file of a live process. The removal is by path: between
the check of a PID and the removal another process may have put its own file there. -/

namespace ManyAiCli.Wrapper.PidLock

open Runs

variable {C : Type*} {mode : Mode} {merge : String → Option C → Option C} {s t : State C} {a : Action C}

theorem State.ifLive_eq_some {i : ℕ} {f : Proc C → Pc C → Option (State C)} :
    s.ifLive i f = some t ↔ ∃ p, s.procs[i]? = some p ∧ p.alive = true ∧ f p p.pc = some t := by
  unfold State.ifLive
  cases s.procs[i]? with
  | none => simp
  | some p =>
    cases h : p.alive
    · simp [h]
    · simp [h]

/-- What a step does. -/
inductive Takes (mode : Mode) (s : State C) : Action C → State C → Prop
  | tick (d : ℕ) : Takes mode s (.tick d) { s with now := s.now + d }
  | launch (pid : ℕ) (permission : String) (hfree : s.isAlive pid = false) :
      Takes mode s (.launch pid permission) { s with procs := s.procs ++ [⟨pid, permission, true, .idle⟩] }
  | crash {i : ℕ} {p : Proc C} (hp : s.procs[i]? = some p) :
      Takes mode s (.crash i) { s with procs := s.procs.modify i ({ · with alive := false }) }
  /-- A try of the lock goes on. -/
  | attempt {a : Action C} {i : ℕ} {p : Proc C} {pc : Pc C} (hp : s.procs[i]? = some p)
      (hpc : p.pc.holds = false) (hnext : pc.holds = false) : Takes mode s a (s.setPc i pc)
  | steal {i left : ℕ} {p : Proc C} (hp : s.procs[i]? = some p) (hpc : p.pc = .stealing left) :
      Takes mode s (.stealRemove i) { s.setPc i (.opening left) with lock := none }
  | create {i : ℕ} {p : Proc C} (hp : s.procs[i]? = some p) (ha : p.alive = true) (hpc : p.pc.holds = false)
      (hlock : s.lock = none) :
      Takes mode s (.openLock i) { s.setPc i .writingPid with lock := some ⟨some i, none, s.now⟩ }
  | pidWritten {i : ℕ} {p : Proc C} (hp : s.procs[i]? = some p) (ha : p.alive = true)
      (hpc : p.pc = .writingPid) :
      Takes mode s (.writePid i true)
        { s.setPc i .locked with lock := s.lock.map fun f => f.written i p.pid s.now }
  /-- A holder goes on without a change of the files. -/
  | goOn {a : Action C} {i : ℕ} {p : Proc C} {pc : Pc C} (hp : s.procs[i]? = some p) (ha : p.alive = true)
      (hpc : p.pc = .writingPid ∨ p.pc = .locked) (hnext : pc = .locked ∨ pc = .releasing) :
      Takes mode s a (s.setPc i pc)
  | read {i : ℕ} {p : Proc C} {data : C} (hp : s.procs[i]? = some p) (ha : p.alive = true)
      (hpc : p.pc = .locked) : Takes mode s (.readConfig i) (s.setPc i (.merged s.config data))
  | write {i : ℕ} {p : Proc C} {orig : Option C} {data : C} (hp : s.procs[i]? = some p) (ha : p.alive = true)
      (hpc : p.pc = .merged orig data) :
      Takes mode s (.writeConfig i) { s.setPc i (.running orig) with config := some data }
  | restored {i : ℕ} {p : Proc C} {orig : Option C} (hp : s.procs[i]? = some p) (ha : p.alive = true)
      (hpc : p.pc = .running orig) :
      Takes mode s (.restore i) { s.setPc i .releasing with config := orig }
  | fnWrite {i : ℕ} (content : C) (hmode : mode = .codex) :
      Takes mode s (.fnWrite i content) { s with config := some content }
  | released {i : ℕ} {p : Proc C} (hp : s.procs[i]? = some p) (ha : p.alive = true) (hpc : p.pc = .releasing) :
      Takes mode s (.release i) { s.setPc i .idle with lock := none }

theorem notStolen_holds (left : ℕ) : (State.notStolen mode left : Pc C).holds = false := by
  cases mode <;> rfl

theorem takes_of_move (h : move mode merge s a = some t) : Takes mode s a t := by
  cases a with
  | launch pid permission =>
    simp only [move, State.launch] at h
    split_ifs at h with hfree
    obtain rfl := Option.some_inj.mp h
    exact .launch pid permission hfree.2
  | crash i =>
    rw [move, State.crash, State.ifLive_eq_some] at h
    obtain ⟨p, hp, -, ht⟩ := h
    obtain rfl := Option.some_inj.mp ht
    exact .crash hp
  | tick d =>
    obtain rfl := Option.some_inj.mp h
    exact .tick d
  | start i =>
    rw [move, State.start, State.ifLive_eq_some] at h
    obtain ⟨p, hp, -, ht⟩ := h
    split at ht
    · next hpc =>
      obtain rfl := Option.some_inj.mp ht
      exact .attempt hp (by rw [hpc]; rfl) rfl
    · cases ht
  | openLock i =>
    rw [move, State.openLock, State.ifLive_eq_some] at h
    obtain ⟨p, hp, ha, ht⟩ := h
    split at ht
    · next hpc =>
      obtain rfl := Option.some_inj.mp ht
      exact .attempt hp (by rw [hpc]; rfl) rfl
    · next left hpc =>
      split at ht
      · next hlock =>
        obtain rfl := Option.some_inj.mp ht
        exact .create hp ha (by rw [hpc]; rfl) hlock
      · obtain rfl := Option.some_inj.mp ht
        exact .attempt hp (by rw [hpc]; rfl) (by split_ifs <;> rfl)
    · cases ht
  | readLock i =>
    rw [move, State.readLock, State.ifLive_eq_some] at h
    obtain ⟨p, hp, -, ht⟩ := h
    split at ht
    · next left hpc =>
      split at ht
      all_goals
        obtain rfl := Option.some_inj.mp ht
        exact .attempt hp (by rw [hpc]; rfl) rfl
    · cases ht
  | processAlive i foreign =>
    rw [move, State.processAlive, State.ifLive_eq_some] at h
    obtain ⟨p, hp, -, ht⟩ := h
    split at ht
    · next left pid hpc =>
      obtain rfl := Option.some_inj.mp ht
      refine .attempt hp (by rw [hpc]; rfl) ?_
      split_ifs
      · exact notStolen_holds left
      · rfl
    · cases ht
  | statLock i =>
    rw [move, State.statLock, State.ifLive_eq_some] at h
    obtain ⟨p, hp, -, ht⟩ := h
    split at ht
    · next left hpc =>
      split at ht
      · obtain rfl := Option.some_inj.mp ht
        exact .attempt hp (by rw [hpc]; rfl) (notStolen_holds left)
      · obtain rfl := Option.some_inj.mp ht
        refine .attempt hp (by rw [hpc]; rfl) ?_
        split_ifs
        · exact notStolen_holds left
        · rfl
    · cases ht
  | stealRemove i =>
    rw [move, State.stealRemove, State.ifLive_eq_some] at h
    obtain ⟨p, hp, -, ht⟩ := h
    split at ht
    · next left hpc =>
      obtain rfl := Option.some_inj.mp ht
      exact .steal hp hpc
    · cases ht
  | writePid i ok =>
    rw [move, State.writePid, State.ifLive_eq_some] at h
    obtain ⟨p, hp, ha, ht⟩ := h
    split at ht
    · next hpc =>
      cases ok with
      | true =>
        obtain rfl := Option.some_inj.mp ht
        exact .pidWritten hp ha hpc
      | false =>
        obtain rfl := Option.some_inj.mp ht
        refine .goOn hp ha (.inl hpc) ?_
        split_ifs
        · exact .inr rfl
        · exact .inl rfl
    · cases ht
  | readConfig i =>
    rw [move, State.readConfig, State.ifLive_eq_some] at h
    obtain ⟨p, hp, ha, ht⟩ := h
    split at ht
    · next hpc =>
      split_ifs at ht
      split at ht
      · obtain rfl := Option.some_inj.mp ht
        exact .read hp ha hpc
      · obtain rfl := Option.some_inj.mp ht
        exact .goOn hp ha (.inr hpc) (.inr rfl)
    · cases ht
  | writeConfig i =>
    rw [move, State.writeConfig, State.ifLive_eq_some] at h
    obtain ⟨p, hp, ha, ht⟩ := h
    split at ht
    · next hpc =>
      obtain rfl := Option.some_inj.mp ht
      exact .write hp ha hpc
    · cases ht
  | restore i =>
    rw [move, State.restore, State.ifLive_eq_some] at h
    obtain ⟨p, hp, ha, ht⟩ := h
    split at ht
    · next hpc =>
      obtain rfl := Option.some_inj.mp ht
      exact .restored hp ha hpc
    · cases ht
  | fnWrite i content =>
    rw [move, State.fnWrite, State.ifLive_eq_some] at h
    obtain ⟨p, hp, ha, ht⟩ := h
    split at ht
    · split_ifs at ht with hmode
      obtain rfl := Option.some_inj.mp ht
      exact .fnWrite content hmode
    · cases ht
  | fnReturn i =>
    rw [move, State.fnReturn, State.ifLive_eq_some] at h
    obtain ⟨p, hp, ha, ht⟩ := h
    split at ht
    · next hpc =>
      split_ifs at ht
      obtain rfl := Option.some_inj.mp ht
      exact .goOn hp ha (.inr hpc) (.inr rfl)
    · cases ht
  | release i =>
    rw [move, State.release, State.ifLive_eq_some] at h
    obtain ⟨p, hp, ha, ht⟩ := h
    split at ht
    · next hpc =>
      obtain rfl := Option.some_inj.mp ht
      exact .released hp ha hpc
    · cases ht

/-! ### Who holds the lock -/

/-- The process is alive, between acquiring the lock and releasing it. -/
def Inside (procs : List (Proc C)) (i : ℕ) : Prop :=
  ∃ p, procs[i]? = some p ∧ p.alive = true ∧ p.pc.holds = true

def State.owner (s : State C) : Option ℕ := s.lock.bind (·.creator)

def Exclusive (s : State C) : Prop := ∀ i j, Inside s.procs i → Inside s.procs j → i = j

/-- A thief that removes the lock file does not take that of a live process. -/
def sparesLive (s : State C) : Action C → Bool
  | .stealRemove _ => s.owner.all fun c => s.procs[c]?.all fun p => !p.alive
  | _ => true

/-- No process ends while it is between acquiring the lock and releasing it. -/
def endsOutside (s : State C) : Action C → Bool
  | .crash i => s.procs[i]?.all fun p => !p.pc.holds
  | _ => true

variable {i j : ℕ} {p q : Proc C} {pc : Pc C}

theorem getElem?_setPc (hp : s.procs[i]? = some p) :
    (s.setPc i pc).procs[j]? = if j = i then some { p with pc := pc } else s.procs[j]? := by
  rw [State.setPc, List.getElem?_modify]
  by_cases hji : j = i
  · subst hji
    simp [hp]
  · simp [hji, Ne.symm hji]

theorem inside_setPc (hp : s.procs[i]? = some p) :
    Inside (s.setPc i pc).procs j ↔
      if j = i then p.alive = true ∧ pc.holds = true else Inside s.procs j := by
  unfold Inside
  rw [getElem?_setPc hp]
  split_ifs with hji
  · simp
  · rfl

/-- A process that does not come inside. -/
theorem inside_of_setPc (hp : s.procs[i]? = some p) (hpc : pc.holds = false)
    (h : Inside (s.setPc i pc).procs j) : j ≠ i ∧ Inside s.procs j := by
  rw [inside_setPc hp] at h
  split_ifs at h with hji
  · rw [hpc] at h
    exact absurd h.2 Bool.false_ne_true
  · exact ⟨hji, h⟩

theorem inside_setPc_of_inside (hp : s.procs[i]? = some p) (hi : Inside s.procs i)
    (h : Inside (s.setPc i pc).procs j) : Inside s.procs j := by
  rw [inside_setPc hp] at h
  split_ifs at h with hji
  · rwa [hji]
  · exact h

theorem owned_of_takes (h : Owned s.owner (Inside s.procs)) (hok : sparesLive s a = true)
    (ht : Takes mode s a t) : Owned t.owner (Inside t.procs) := by
  cases ht with
  | tick d => exact h
  | launch pid permission hfree =>
    refine h.mono fun j ⟨q, hq, ha, hpc⟩ => ?_
    rw [List.getElem?_append] at hq
    split_ifs at hq with hj
    · exact ⟨q, hq, ha, hpc⟩
    · rw [List.getElem?_singleton] at hq
      split_ifs at hq
      obtain rfl := Option.some_inj.mp hq
      cases hpc
  | crash hp =>
    refine h.mono fun j ⟨q, hq, ha, hpc⟩ => ?_
    rw [List.getElem?_modify] at hq
    obtain ⟨r, hr, rfl⟩ := Option.map_eq_some_iff.mp hq
    split_ifs at ha hpc
    exact ⟨r, hr, ha, hpc⟩
  | attempt hp hpc hnext => exact h.mono fun j hj => (inside_of_setPc hp hnext hj).2
  | steal hp hpc =>
    have hnone := h.not_inside fun c hc => by
      rintro ⟨q, hq, ha, -⟩
      simp [sparesLive, hc, hq, ha] at hok
    exact .of_not_inside fun j hj => hnone j (inside_of_setPc hp rfl hj).2
  | create hp ha hpc hlock =>
    have hnone : Owned none (Inside s.procs) := by rwa [State.owner, hlock] at h
    refine hnone.enter fun j hj => ?_
    rw [inside_setPc hp] at hj
    split_ifs at hj with hji
    · exact .inl hji
    · exact .inr hj
  | pidWritten hp ha hpc =>
    rw [show State.owner _ = s.owner by cases hlock : s.lock <;> simp [State.owner, hlock]]
    exact h.mono fun j hj => inside_setPc_of_inside hp ⟨_, hp, ha, by rw [hpc]; rfl⟩ hj
  | goOn hp ha hpc hnext =>
    refine h.mono fun j hj => inside_setPc_of_inside hp ⟨_, hp, ha, ?_⟩ hj
    rcases hpc with hpc | hpc <;> rw [hpc] <;> rfl
  | read hp ha hpc => exact h.mono fun j hj => inside_setPc_of_inside hp ⟨_, hp, ha, by rw [hpc]; rfl⟩ hj
  | write hp ha hpc => exact h.mono fun j hj => inside_setPc_of_inside hp ⟨_, hp, ha, by rw [hpc]; rfl⟩ hj
  | restored hp ha hpc => exact h.mono fun j hj => inside_setPc_of_inside hp ⟨_, hp, ha, by rw [hpc]; rfl⟩ hj
  | fnWrite content hmode => exact h
  | released hp ha hpc => exact h.leave ⟨_, hp, ha, by rw [hpc]; rfl⟩ fun j hj => inside_of_setPc hp rfl hj

theorem owned_initial (leftover : Option (Option ℕ × ℕ)) (config : Option C) (now : ℕ) :
    Owned (State.initial leftover config now).owner (Inside (State.initial leftover config now).procs) :=
  .of_not_inside fun j ⟨q, hq, _⟩ => by simp [State.initial] at hq

/-! ### The config file of OpenCode -/

variable {orig : Option C}

/-- What a process that holds the lock knows of the original content. -/
def Saved (orig config : Option C) : Pc C → Prop
  | .writingPid | .locked | .releasing => config = orig
  | .merged saved _ => config = orig ∧ saved = orig
  | .running saved => saved = orig
  | _ => True

theorem Saved.of_not_holds (config : Option C) (h : pc.holds = false) : Saved orig config pc := by
  cases pc <;> trivial

/-- While no holder has ended, the content is the original one, or the holder has it. -/
structure Intact (orig : Option C) (s : State C) : Prop where
  owned : Owned s.owner (Inside s.procs)
  alive : ∀ (i : ℕ) (p : Proc C), s.procs[i]? = some p → p.pc.holds = true → p.alive = true
  saved : ∀ (i : ℕ) (p : Proc C), s.procs[i]? = some p → Saved orig s.config p.pc
  original : (∀ (i : ℕ) (p : Proc C), s.procs[i]? = some p → p.pc.holds = false) → s.config = orig

/-- A process goes on; only a holder changes the content. -/
theorem Intact.setPc (h : Intact orig s) (hp : s.procs[i]? = some p) {lock : Option LockFile}
    {config : Option C} (howned : Owned (lock.bind (·.creator)) (Inside (s.setPc i pc).procs))
    (halive : pc.holds = true → p.alive = true) (hsaved : Saved orig config pc)
    (hconfig : config = s.config ∨ Inside s.procs i)
    (horiginal : pc.holds = false →
      (∀ (j : ℕ) (q : Proc C), j ≠ i → s.procs[j]? = some q → q.pc.holds = false) →
      config = orig) :
    Intact orig { s.setPc i pc with lock := lock, config := config } := by
  refine ⟨howned, fun j q hq hholds => ?_, fun j q hq => ?_, fun hnone => ?_⟩
  · rw [getElem?_setPc hp] at hq
    split_ifs at hq
    · obtain rfl := Option.some_inj.mp hq
      exact halive hholds
    · exact h.alive j q hq hholds
  · rw [getElem?_setPc hp] at hq
    split_ifs at hq with hji
    · obtain rfl := Option.some_inj.mp hq
      exact hsaved
    · rcases hconfig with rfl | hi
      · exact h.saved j q hq
      · -- the others are outside
        cases hholds : q.pc.holds with
        | false => exact .of_not_holds config hholds
        | true => exact absurd (h.owned.eq ⟨q, hq, h.alive j q hq hholds, hholds⟩ hi) hji
  · have hpc : pc.holds = false := hnone i { p with pc := pc } (by rw [getElem?_setPc hp, if_pos rfl])
    refine horiginal hpc fun j q hji hq => hnone j q ?_
    rw [getElem?_setPc hp, if_neg hji, hq]

theorem intact_of_takes (h : Intact orig s) (hok : sparesLive s a = true) (hend : endsOutside s a = true)
    (ht : Takes .openCode s a t) : Intact orig t := by
  have howned := owned_of_takes h.owned hok ht
  -- as long as the process is outside before and after, nothing changes for the others
  have outside : ∀ {i : ℕ} {p : Proc C}, s.procs[i]? = some p → p.pc.holds = false →
      (∀ (j : ℕ) (q : Proc C), j ≠ i → s.procs[j]? = some q → q.pc.holds = false) → s.config = orig := by
    intro i p hp hpc hothers
    refine h.original fun j q hq => ?_
    by_cases hji : j = i
    · subst hji
      obtain rfl := Option.some_inj.mp (hp.symm.trans hq)
      exact hpc
    · exact hothers j q hji hq
  cases ht with
  | tick d => exact ⟨howned, h.alive, h.saved, h.original⟩
  | launch pid permission hfree =>
    have hnew : ∀ (j : ℕ) (q : Proc C), (s.procs ++ [⟨pid, permission, true, .idle⟩])[j]? = some q →
        s.procs[j]? = some q ∨ q.pc = .idle := by
      intro j q hq
      rw [List.getElem?_append] at hq
      split_ifs at hq with hj
      · exact .inl hq
      · rw [List.getElem?_singleton] at hq
        split_ifs at hq
        obtain rfl := Option.some_inj.mp hq
        exact .inr rfl
    refine ⟨howned, fun j q hq hholds => ?_, fun j q hq => ?_, fun hnone => h.original fun j q hq => ?_⟩
    · rcases hnew j q hq with hq | hidle
      · exact h.alive j q hq hholds
      · rw [hidle] at hholds
        cases hholds
    · rcases hnew j q hq with hq | hidle
      · exact h.saved j q hq
      · rw [hidle]
        trivial
    · exact hnone j q (List.getElem?_append_left (List.getElem?_eq_some_iff.mp hq).1 ▸ hq)
  | @crash i p hp =>
    have hout : p.pc.holds = false := by simpa [endsOutside, hp] using hend
    have hsame : ∀ (j : ℕ) (q : Proc C), (s.procs.modify i ({ · with alive := false }))[j]? = some q →
        ∃ r, s.procs[j]? = some r ∧ q.pc = r.pc ∧ (j ≠ i → q = r) := by
      intro j q hq
      rw [List.getElem?_modify] at hq
      obtain ⟨r, hr, rfl⟩ := Option.map_eq_some_iff.mp hq
      refine ⟨r, hr, by split_ifs <;> rfl, fun hji => if_neg (Ne.symm hji)⟩
    refine ⟨howned, fun j q hq hholds => ?_, fun j q hq => ?_, fun hnone => h.original fun j q hq => ?_⟩
    · obtain ⟨r, hr, hpc, hqr⟩ := hsame j q hq
      by_cases hji : j = i
      · subst hji
        obtain rfl := Option.some_inj.mp (hp.symm.trans hr)
        rw [hpc, hout] at hholds
        cases hholds
      · obtain rfl := hqr hji
        exact h.alive j q hr hholds
    · obtain ⟨r, hr, hpc, -⟩ := hsame j q hq
      rw [hpc]
      exact h.saved j r hr
    · by_cases hji : i = j
      · subst hji
        exact Option.some_inj.mp (hp.symm.trans hq) ▸ hout
      · exact hnone j q (by rw [List.getElem?_modify, hq]; simp [hji])
  | attempt hp hpc hnext =>
    exact h.setPc hp howned (fun hn => absurd hn (by simp [hnext])) (.of_not_holds _ hnext) (.inl rfl)
      fun _ hothers => outside hp hpc hothers
  | steal hp hpc =>
    exact h.setPc hp howned nofun trivial (.inl rfl) fun _ hothers => outside hp (by rw [hpc]; rfl) hothers
  | create hp ha hpc hlock =>
    have hnone : ∀ (j : ℕ) (q : Proc C), s.procs[j]? = some q → q.pc.holds = false := by
      intro j q hq
      by_contra hholds
      have hj := h.owned j ⟨q, hq, h.alive j q hq (by simpa using hholds), by simpa using hholds⟩
      simp [State.owner, hlock] at hj
    exact h.setPc hp howned (fun _ => ha) (h.original hnone) (.inl rfl) nofun
  | pidWritten hp ha hpc =>
    have hsaved := h.saved _ _ hp
    rw [hpc] at hsaved
    exact h.setPc hp howned (fun _ => ha) hsaved (.inl rfl) nofun
  | goOn hp ha hpc hnext =>
    have hsaved : s.config = orig := by
      have := h.saved _ _ hp
      rcases hpc with hpc | hpc <;> rwa [hpc] at this
    refine h.setPc hp howned (fun _ => ha) ?_ (.inl rfl) fun _ _ => hsaved
    rcases hnext with rfl | rfl <;> exact hsaved
  | read hp ha hpc =>
    have hsaved := h.saved _ _ hp
    rw [hpc] at hsaved
    exact h.setPc hp howned (fun _ => ha) ⟨hsaved, hsaved⟩ (.inl rfl) nofun
  | write hp ha hpc =>
    have hsaved := h.saved _ _ hp
    rw [hpc] at hsaved
    exact h.setPc hp howned (fun _ => ha) hsaved.2 (.inr ⟨_, hp, ha, by rw [hpc]; rfl⟩) nofun
  | restored hp ha hpc =>
    have hsaved := h.saved _ _ hp
    rw [hpc] at hsaved
    exact h.setPc hp howned (fun _ => ha) hsaved (.inr ⟨_, hp, ha, by rw [hpc]; rfl⟩) nofun
  | fnWrite content hmode => cases hmode
  | released hp ha hpc =>
    have hsaved := h.saved _ _ hp
    rw [hpc] at hsaved
    exact h.setPc hp howned nofun trivial (.inl rfl) fun _ _ => hsaved

theorem intact_initial (leftover : Option (Option ℕ × ℕ)) (config : Option C) (now : ℕ) :
    Intact config (State.initial leftover config now) :=
  ⟨owned_initial leftover config now, fun j q hq => by simp [State.initial] at hq,
    fun j q hq => by simp [State.initial] at hq, fun _ => rfl⟩

/-! ### What the check of the PID is worth -/

/-- The process that created the lock file, if it is alive, still holds the lock, and the
PID in the file is its own. -/
def Lawful (s : State C) : Prop :=
  ∀ f c, s.lock = some f → f.creator = some c → ∃ q, s.procs[c]? = some q ∧
    (q.alive = true → q.pc.holds = true) ∧ ∀ pid, f.pid = some pid → pid = q.pid

/-- A holder that goes on, or one outside that does. -/
theorem Lawful.setPc (h : Lawful s) (hp : s.procs[i]? = some p)
    (hpc : p.alive = true → p.pc.holds = true → pc.holds = true) {config : Option C} : Lawful { s.setPc i pc with config := config } := by
  intro f c hf hc
  obtain ⟨q, hq, hholds, hpid⟩ := h f c hf hc
  by_cases hci : c = i
  · subst hci
    obtain rfl := Option.some_inj.mp (hp.symm.trans hq)
    exact ⟨{ p with pc := pc }, by rw [getElem?_setPc hp, if_pos rfl],
      fun ha => hpc ha (hholds ha), hpid⟩
  · exact ⟨q, by rw [getElem?_setPc hp, if_neg hci, hq], hholds, hpid⟩

theorem lawful_of_takes (h : Lawful s) (ht : Takes mode s a t) : Lawful t := by
  cases ht with
  | tick d => exact h
  | launch pid permission hfree =>
    intro f c hf hc
    obtain ⟨q, hq, hrest⟩ := h f c hf hc
    exact ⟨q, (List.getElem?_append_left (List.getElem?_eq_some_iff.mp hq).1).trans hq, hrest⟩
  | @crash i p hp =>
    intro f c hf hc
    obtain ⟨q, hq, hholds, hpid⟩ := h f c hf hc
    by_cases hci : i = c
    · exact ⟨{ q with alive := false }, by rw [List.getElem?_modify, hq]; simp [hci], nofun, hpid⟩
    · exact ⟨q, by rw [List.getElem?_modify, hq]; simp [hci], hholds, hpid⟩
  | attempt hp hpc hnext => exact h.setPc hp fun _ hh => absurd hh (by simp [hpc])
  | steal hp hpc => exact nofun
  | @create i p hp ha hpc hlock =>
    intro f c hf hc
    obtain rfl := Option.some_inj.mp hf
    obtain rfl := Option.some_inj.mp hc
    exact ⟨{ p with pc := .writingPid }, by rw [getElem?_setPc hp, if_pos rfl], fun _ => rfl, nofun⟩
  | @pidWritten i p hp ha hpc =>
    intro f c hf hc
    obtain ⟨g, hg, rfl⟩ := Option.map_eq_some_iff.mp hf
    rw [LockFile.written_creator] at hc
    have hlocked : Lawful (s.setPc i .locked) := h.setPc hp fun _ _ => rfl
    obtain ⟨q, hq, hholds, hpid⟩ := hlocked g c hg hc
    refine ⟨q, hq, hholds, fun pid hwritten => ?_⟩
    unfold LockFile.written at hwritten
    split_ifs at hwritten with hmine
    · obtain rfl : i = c := Option.some_inj.mp (hmine.symm.trans hc)
      rw [getElem?_setPc hp, if_pos rfl] at hq
      obtain rfl := Option.some_inj.mp hq
      exact (Option.some_inj.mp hwritten).symm
    · exact hpid pid hwritten
  | goOn hp ha hpc hnext =>
    refine h.setPc hp fun _ _ => ?_
    rcases hnext with rfl | rfl <;> rfl
  | read hp ha hpc => exact h.setPc hp fun _ _ => rfl
  | write hp ha hpc => exact h.setPc hp fun _ _ => rfl
  | restored hp ha hpc => exact h.setPc hp fun _ _ => rfl
  | fnWrite content hmode => exact h
  | released hp ha hpc => exact nofun

/-! ### Runs -/

theorem takes_of_step {es : List Empty} (h : step mode merge s a = some (t, es)) :
    es = [] ∧ Takes mode s a t := by
  obtain ⟨u, hu, he⟩ := Option.map_eq_some_iff.mp h
  obtain ⟨rfl, rfl⟩ := Prod.mk.inj he
  exact ⟨rfl, takes_of_move hu⟩

variable {leftover : Option (Option ℕ × ℕ)} {now : ℕ} {as : List (Action C)} {es : List Empty}

theorem lawful_of_exec (hx : exec (step mode merge) (State.initial leftover orig now) as = some (s, es)) :
    Lawful s := by
  refine exec_keeps (fun _ _ _ _ h hs => lawful_of_takes h (takes_of_step hs).2) ?_ hx
  intro f c hf hc
  obtain ⟨g, -, rfl⟩ := Option.map_eq_some_iff.mp hf
  cases hc

/-- When the check of the PID in the file at the path lets a process steal, the file is not
that of a live process: only what comes between the check and the removal makes it so. -/
theorem owner_dead_of_check (hx : exec (step mode merge) (State.initial leftover orig now) as = some (s, es))
    {left pid : ℕ} {f : LockFile} (hp : s.procs[i]? = some p) (hpc : p.pc = .checking left pid)
    (hf : s.lock = some f) (hpid : f.pid = some pid) {foreign : Bool}
    (ht : move mode merge s (.processAlive i foreign) = some t)
    (hsteal : t.procs[i]? = some { p with pc := .stealing left }) : sparesLive t (.stealRemove i) = true := by
  rw [move, State.processAlive, State.ifLive_eq_some] at ht
  obtain ⟨p', hp', -, ht⟩ := ht
  obtain rfl := Option.some_inj.mp (hp.symm.trans hp')
  rw [hpc] at ht
  obtain rfl := Option.some_inj.mp ht
  rw [getElem?_setPc hp, if_pos rfl] at hsteal
  have hdead : (foreign || s.isAlive pid) = false := by
    by_contra hno
    rw [if_pos (by simpa only [Bool.not_eq_false] using hno)] at hsteal
    cases mode <;> simp [State.notStolen] at hsteal
  rw [Bool.or_eq_false_iff] at hdead
  simp only [sparesLive, State.owner, State.setPc, hf, Option.bind_some, Option.all_eq_true]
  intro c hc q hq
  rw [List.getElem?_modify] at hq
  obtain ⟨r, hr, rfl⟩ := Option.map_eq_some_iff.mp hq
  obtain ⟨r', hr', -, hown⟩ := lawful_of_exec hx f c hf hc
  obtain rfl := Option.some_inj.mp (hr.symm.trans hr')
  have hnone := hdead.2
  simp only [State.isAlive, List.any_eq_false] at hnone
  have := hnone r (List.mem_of_getElem? hr)
  have halive : r.alive = false := by simpa [hown pid hpid] using this
  split_ifs <;> simp [halive]

/-- Without a lock file a process comes inside. -/
theorem exists_openLock {left : ℕ} (hp : s.procs[i]? = some p) (ha : p.alive = true)
    (hpc : p.pc = .opening (left + 1)) (hlock : s.lock = none) :
    ∃ u, exec (step mode merge) s [.openLock i] = some (u, []) ∧ Inside u.procs i ∧
      ∀ j, j ≠ i → Inside s.procs j → Inside u.procs j := by
  have hstep : step mode merge s (.openLock i) =
      some ({ s.setPc i .writingPid with lock := some ⟨some i, none, s.now⟩ }, []) := by
    simp [step, move, State.openLock, State.ifLive, hp, ha, hpc, hlock]
  refine ⟨_, exec_cons_eq_some.mpr ⟨_, [], [], hstep, rfl, rfl⟩, ?_, fun j hji hj => ?_⟩
  · exact (inside_setPc hp).mpr (by rw [if_pos rfl]; exact ⟨ha, rfl⟩)
  · exact (inside_setPc hp).mpr (by rwa [if_neg hji])

theorem exists_openLock_again (hp : s.procs[i]? = some p) (ha : p.alive = true)
    (hpc : p.pc = .opening 0) (hlock : s.lock = none) :
    ∃ u, exec (step mode merge) s [.openLock i, .start i, .openLock i] = some (u, []) ∧ Inside u.procs i ∧
      ∀ j, j ≠ i → Inside s.procs j → Inside u.procs j := by
  obtain ⟨n, hn⟩ : ∃ n, attempts mode = n + 1 := by cases mode <;> exact ⟨_, rfl⟩
  have hp₁ : (s.setPc i .idle).procs[i]? = some { p with pc := .idle } := by rw [getElem?_setPc hp, if_pos rfl]
  have hp₂ : ((s.setPc i .idle).setPc i (.opening (n + 1))).procs[i]? = some { p with pc := .opening (n + 1) } := by
    rw [getElem?_setPc hp₁, if_pos rfl]
  have hopen : step mode merge s (.openLock i) = some (s.setPc i .idle, []) := by
    simp [step, move, State.openLock, State.ifLive, hp, ha, hpc]
  have hstart : step mode merge (s.setPc i .idle) (.start i) =
      some ((s.setPc i .idle).setPc i (.opening (n + 1)), []) := by
    simp [step, move, State.start, State.ifLive, hp₁, ha, hn]
  obtain ⟨u, hu, hi, hothers⟩ := @exists_openLock _ mode merge _ _ _ _ hp₂ ha rfl hlock
  refine ⟨u, ?_, hi, fun j hji hj => hothers j hji ?_⟩
  · exact exec_cons_eq_some.mpr ⟨_, [], [], hopen, exec_cons_eq_some.mpr ⟨_, [], [], hstart, hu, rfl⟩, rfl⟩
  · rw [inside_setPc hp₁, if_neg hji, inside_setPc hp, if_neg hji]
    exact hj

/-- When a thief takes the lock file of a live process away, it can come inside too. -/
theorem not_exclusive_of_steal
    (hx : exec (step mode merge) (State.initial leftover orig now) as = some (s, es))
    (hbad : sparesLive s (.stealRemove i) = false) (ht : move mode merge s (.stealRemove i) = some t) :
    ∃ bs u, exec (step mode merge) t bs = some (u, []) ∧ ¬ Exclusive u := by
  obtain ⟨c, hc, q, hq, hqa⟩ : ∃ c, s.owner = some c ∧ ∃ q, s.procs[c]? = some q ∧ q.alive = true := by
    simpa [sparesLive, Option.all_eq_false] using hbad
  obtain ⟨f, hf, hfc⟩ := Option.bind_eq_some_iff.mp hc
  obtain ⟨q', hq', hholds, -⟩ := lawful_of_exec hx f c hf hfc
  obtain rfl := Option.some_inj.mp (hq.symm.trans hq')
  rw [move, State.stealRemove, State.ifLive_eq_some] at ht
  obtain ⟨p, hp, ha, ht⟩ := ht
  split at ht
  · next left hpc =>
    obtain rfl := Option.some_inj.mp ht
    have hci : c ≠ i := by
      rintro rfl
      obtain rfl := Option.some_inj.mp (hp.symm.trans hq)
      have := hholds hqa
      rw [hpc] at this
      cases this
    have hin : Inside s.procs c := ⟨q, hq, hqa, hholds hqa⟩
    have hp₁ : (s.setPc i (.opening left)).procs[i]? = some { p with pc := .opening left } := by
      rw [getElem?_setPc hp, if_pos rfl]
    have hin₁ : Inside (s.setPc i (.opening left)).procs c := (inside_setPc hp).mpr (by rwa [if_neg hci])
    cases left with
    | succ left =>
      obtain ⟨u, hu, hi, hothers⟩ :=
        @exists_openLock _ mode merge { s.setPc i (.opening (left + 1)) with lock := none } _ _ _ hp₁ ha rfl rfl
      exact ⟨_, u, hu, fun hex => hci (hex c i (hothers c hci hin₁) hi)⟩
    | zero =>
      -- the last try is over, so it starts again
      obtain ⟨u, hu, hi, hothers⟩ :=
        @exists_openLock_again _ mode merge { s.setPc i (.opening 0) with lock := none } _ _ hp₁ ha rfl rfl
      exact ⟨_, u, hu, fun hex => hci (hex c i (hothers c hci hin₁) hi)⟩
  · cases ht

/-- At most one live process is between acquiring the lock and releasing it, and when all
sessions are over OpenCode's config file has its original content, as long as no thief
removes the lock file of a live process. -/
theorem exclusive_of_sparesLive (mode : Mode) (merge : String → Option C → Option C)
    (leftover : Option (Option ℕ × ℕ)) (orig : Option C) (now : ℕ) (as : List (Action C)) (s : State C)
    (es : List Empty) (hx : exec (step mode merge) (State.initial leftover orig now) as = some (s, es))
    (hm : Meets (step mode merge) (fun s a => sparesLive s a = true) (State.initial leftover orig now) as) :
    Exclusive s ∧ (mode = .openCode →
      Meets (step mode merge) (fun s a => endsOutside s a = true) (State.initial leftover orig now) as →
      (∀ p ∈ s.procs, p.pc.holds = false) → s.config = orig) := by
  constructor
  · have howned : Owned s.owner (Inside s.procs) :=
      exec_state_invariant (fun _ _ _ _ h hok hs => owned_of_takes h hok (takes_of_step hs).2)
        (owned_initial leftover orig now) hm hx
    exact fun i j hi hj => howned.eq hi hj
  · rintro rfl hends hover
    have hintact : Intact orig s :=
      exec_state_invariant (fun _ _ _ _ h hok hs => intact_of_takes h hok.1 hok.2 (takes_of_step hs).2)
        (intact_initial leftover orig now) (hm.and hends) hx
    exact hintact.original fun i p hp => hover p (List.mem_of_getElem? hp)

/-- A lock file of a process that has ended, and a session that takes it over. -/
def oneSession : List (Action ℕ) :=
  [.launch 10 "ask", .start 0, .openLock 0, .readLock 0, .processAlive 0 false, .stealRemove 0, .openLock 0,
    .writePid 0 true, .readConfig 0, .writeConfig 0, .restore 0, .release 0]

theorem oneSession_exclusive :
    let merge := fun _ (c : Option ℕ) => some (c.getD 0 + 1)
    let first : State ℕ := .initial (some (some 7, 0)) (some 5) 0
    ∃ s, exec (step .openCode merge) first oneSession = some (s, []) ∧ Exclusive s ∧ s.config = some 5 := by
  refine ⟨⟨[⟨10, "ask", true, .idle⟩], none, some 5, 0⟩, by decide, ?_⟩
  have h := exclusive_of_sparesLive .openCode (fun _ (c : Option ℕ) => some (c.getD 0 + 1)) (some (some 7, 0)) (some 5)
    0 oneSession _ [] (by decide : exec _ _ oneSession = some (⟨[⟨10, "ask", true, .idle⟩], none, some 5, 0⟩, []))
    (by decide)
  exact ⟨h.1, h.2 rfl (by decide) (by decide)⟩

/-- Two thieves find the process of the lock file dead; the second takes away what the
first has put there. -/
def twoThieves : List (Action ℕ) :=
  [.launch 10 "ask", .launch 11 "ask", .start 0, .start 1, .openLock 0, .openLock 1, .readLock 0, .readLock 1,
    .processAlive 0 false, .processAlive 1 false, .stealRemove 0, .openLock 0, .writePid 0 true,
    .stealRemove 1, .openLock 1]

theorem twoThieves_inside : ¬ ∀ (mode : Mode) (merge : String → Option ℕ → Option ℕ)
    (leftover : Option (Option ℕ × ℕ)) (orig : Option ℕ) (now : ℕ) (as : List (Action ℕ)) (s : State ℕ)
    (es : List Empty), exec (step mode merge) (State.initial leftover orig now) as = some (s, es) →
    Exclusive s := by
  intro h
  have hex := h .openCode (fun _ c => c) (some (some 7, 0)) none 0 twoThieves
    ⟨[⟨10, "ask", true, .locked⟩, ⟨11, "ask", true, .writingPid⟩], some ⟨some 1, none, 0⟩, none, 0⟩ [] (by decide)
  exact absurd (hex 0 1 ⟨_, rfl, rfl, rfl⟩ ⟨_, rfl, rfl, rfl⟩) (by decide)

end ManyAiCli.Wrapper.PidLock
