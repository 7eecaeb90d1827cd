import ManyAiCli.Hub.SessionIDs

/-! No two open wrappers have one session ID, as long as a reattach is alone with the ID it
asks for. Between its check of the wrappers and the storing of its own another reattach, or
a registration after a restart of the Hub, can take the same ID. -/

namespace ManyAiCli.Hub.SessionIDs

open Runs Text

variable {s t : State} {a : Action} {c d i j : ℕ} {id : ℤ} {stage : Stage} {conn : Conn}

/-- The connection has accepted the ID, runs with it, or is stored under it. -/
def Claims (s : State) (i : ℕ) (id : ℤ) : Prop :=
  s.stageOf i = some (.accepted id) ∨ s.Runs i id ∨ s.wrappers.lookup id = some i

/-- Each ID has one claimant, and the IDs from `nextID` on have none. -/
structure Unique (s : State) : Prop where
  one : ∀ i j id, Claims s i id → Claims s j id → i = j
  below : ∀ i id, Claims s i id → id ≤ s.nextID
  nonneg : 0 ≤ s.nextID

/-- Claims are given up. -/
theorem Unique.mono (h : Unique s) (hsub : ∀ i id, Claims t i id → Claims s i id)
    (hnext : s.nextID ≤ t.nextID) : Unique t :=
  ⟨fun i j id hi hj => h.one i j id (hsub i id hi) (hsub j id hj),
    fun i id hi => (h.below i id (hsub i id hi)).trans hnext, h.nonneg.trans hnext⟩

/-- A new claim, on an ID that nobody claims. -/
theorem Unique.claim (h : Unique s) (c : ℕ) (id : ℤ) (hfree : ∀ i, ¬ Claims s i id)
    (hsub : ∀ i id', Claims t i id' → Claims s i id' ∨ (i = c ∧ id' = id)) (hnext : s.nextID ≤ t.nextID)
    (hid : id ≤ t.nextID) : Unique t := by
  refine ⟨fun i j id' hi hj => ?_, fun i id' hi => ?_, h.nonneg.trans hnext⟩
  · rcases hsub i id' hi with hi | ⟨rfl, rfl⟩ <;> rcases hsub j id' hj with hj | ⟨hjc, hid'⟩
    · exact h.one i j id' hi hj
    · exact absurd (hid' ▸ hi) (hfree i)
    · exact absurd hj (hfree j)
    · exact hjc.symm
  · rcases hsub i id' hi with hi | ⟨-, rfl⟩
    · exact (h.below i id' hi).trans hnext
    · exact hid

theorem unique_initial : Unique .initial := by
  have hno : ∀ i id, ¬ Claims .initial i id := by
    rintro i id (h | ⟨h, -⟩ | h)
    · cases h
    · cases h
    · exact absurd h (by rw [State.initial, AList.lookup_empty]; simp)
  exact ⟨fun i j id hi => absurd hi (hno i id), fun i id hi => absurd hi (hno i id), le_rfl⟩

/-! ### Stages -/

theorem stageOf_setStage (hc : s.conns[c]? = some conn) :
    (s.setStage c stage).stageOf i = if i = c then some stage else s.stageOf i := by
  rw [State.stageOf, State.setStage, List.getElem?_modify]
  by_cases hi : i = c
  · subst hi
    simp [hc]
  · simp [hi, Ne.symm hi, State.stageOf]

theorem isOpen_setStage : (s.setStage c stage).isOpen i = s.isOpen i := by
  rw [State.isOpen, State.setStage, List.getElem?_modify, State.isOpen]
  cases s.conns[i]? with
  | none => rfl
  | some conn =>
    by_cases hi : c = i
    · simp [hi]
    · simp [hi]

theorem exists_of_stageOf (h : s.stageOf c = some stage) :
    ∃ conn, s.conns[c]? = some conn ∧ conn.stage = stage :=
  Option.map_eq_some_iff.mp h

/-- The claims after a step of a connection, whose own are those of its new stage. -/
theorem claims_setStage (hc : s.conns[c]? = some conn) (h : Claims (s.setStage c stage) i id) :
    Claims s i id ∨ (i = c ∧ (stage = .accepted id ∨ s.isOpen c = true ∧ stage = .looping id)) := by
  rcases h with h | ⟨hopen, h⟩ | h
  · rw [stageOf_setStage hc] at h
    split_ifs at h with hi
    · exact .inr ⟨hi, .inl (Option.some_inj.mp h)⟩
    · exact .inl (.inl h)
  · rw [stageOf_setStage hc] at h
    rw [isOpen_setStage] at hopen
    split_ifs at h with hi
    · exact .inr ⟨hi, .inr ⟨hi ▸ hopen, Option.some_inj.mp h⟩⟩
    · exact .inl (.inr (.inl ⟨hopen, h⟩))
  · exact .inl (.inr (.inr h))

/-! ### Steps -/

theorem quietly_eq_some {x : Option State} {es : List Event} :
    quietly x = some (t, es) ↔ x = some t ∧ es = [] := by
  cases x <;> simp [quietly, eq_comm]

/-- The next ID is nobody's. -/
theorem unique_allocate (h : Unique s) (hc : s.conns[c]? = some conn)
    (hmax : s.nextID < 9223372036854775807) : Unique (s.allocate c) := by
  have hnonneg := h.nonneg
  have hnext : wrap64 (s.nextID + 1) = s.nextID + 1 := by
    rw [wrap64, Int.bmod_eq_of_le] <;> omega
  have hid : (s.allocate c).nextID = s.nextID + 1 := hnext
  refine h.claim c (s.nextID + 1) (fun i hi => ?_) (fun i id hi => ?_) ?_ ?_
  · exact absurd (h.below i _ hi) (by omega)
  · refine (claims_setStage hc hi).imp_right fun ⟨hic, hstage⟩ => ⟨hic, ?_⟩
    rcases hstage with hstage | ⟨-, hstage⟩
    · rw [hnext] at hstage
      exact (Stage.accepted.inj hstage).symm
    · cases hstage
  · omega
  · omega

/-- A step of a connection that claims nothing new. -/
theorem Unique.setStage (h : Unique s) (hc : s.conns[c]? = some conn)
    (hnew : ∀ id, stage = .accepted id ∨ s.isOpen c = true ∧ stage = .looping id → Claims s c id) :
    Unique (s.setStage c stage) := by
  refine h.mono (fun i id hi => ?_) le_rfl
  rcases claims_setStage hc hi with hi | ⟨rfl, hstage⟩
  · exact hi
  · exact hnew id hstage

/-- Connections that come in, or are closed, claim nothing new. -/
theorem claims_of_conns {conns : List Conn}
    (h : ∀ conn', conns[i]? = some conn' → conn'.stage = .connected ∨ ∃ conn, s.conns[i]? = some conn ∧
      conn.stage = conn'.stage ∧ (conn'.isOpen = true → conn.isOpen = true))
    (hclaim : Claims { s with conns := conns } i id) : Claims s i id := by
  have hstage : ∀ stage, stage ≠ .connected → State.stageOf { s with conns := conns } i = some stage →
      s.stageOf i = some stage ∧ (State.isOpen { s with conns := conns } i = true → s.isOpen i = true) := by
    intro stage hne hi
    obtain ⟨conn', hc', rfl⟩ := exists_of_stageOf hi
    rcases h conn' hc' with hnew | ⟨conn, hc, hsame, hopen⟩
    · exact absurd hnew hne
    · exact ⟨by rw [State.stageOf, hc, ← hsame]; rfl, by simpa [State.isOpen, hc, show conns[i]? = _ from hc'] using hopen⟩
  rcases hclaim with hi | ⟨hopen, hi⟩ | hi
  · exact .inl (hstage (.accepted id) (by simp) hi).1
  · have hloop := hstage (.looping id) (by simp) hi
    exact .inr (.inl ⟨hloop.2 hopen, hloop.1⟩)
  · exact .inr (.inr hi)

theorem lookup_of_erase {m : AList fun _ : ℤ => ℕ} {id' : ℤ} (h : (m.erase id).lookup id' = some i) :
    m.lookup id' = some i := by
  by_cases hid : id' = id
  · rw [hid, AList.lookup_erase] at h
    cases h
  · rwa [AList.lookup_erase_ne hid] at h

/-- An ID that is free by the check and by the condition has no claimant. -/
theorem not_claims_of_all
    (hall : (s.conns.all fun other =>
      other.stage ≠ .accepted id && !(other.isOpen && other.stage = .looping id)) = true)
    (hfree : ¬ (s.wrappers.lookup id).isSome = true) : ¬ Claims s i id := by
  have hconn : ∀ {conn}, s.conns[i]? = some conn →
      conn.stage ≠ .accepted id ∧ ¬ (conn.isOpen = true ∧ conn.stage = .looping id) := by
    intro conn hc
    have hthis := List.all_eq_true.mp hall conn (List.mem_of_getElem? hc)
    simpa only [Bool.and_eq_true, Bool.not_eq_true', decide_eq_true_eq, ne_eq, Bool.eq_false_iff] using hthis
  rintro (hi | ⟨hopen, hi⟩ | hi)
  · obtain ⟨conn, hc, hstage⟩ := exists_of_stageOf hi
    exact (hconn hc).1 hstage
  · obtain ⟨conn, hc, hstage⟩ := exists_of_stageOf hi
    exact (hconn hc).2 ⟨by simpa [State.isOpen, hc] using hopen, hstage⟩
  · exact hfree (by rw [hi]; rfl)

theorem unique_accept (h : Unique s) (hok : acceptsFresh s (.accept c) = true) (hs : s.accept c = some t) :
    Unique t := by
  simp only [State.accept] at hs
  simp only [acceptsFresh] at hok
  split at hs
  · next hc =>
    rw [hc] at hok
    obtain rfl := Option.some_inj.mp hs
    exact unique_allocate h hc (by simpa using hok)
  · next id validReplay isOpen hc =>
    rw [hc] at hok
    split_ifs at hs with hreject hused
    · obtain rfl := Option.some_inj.mp hs
      exact h.setStage hc (by simp)
    all_goals
      obtain ⟨hpos, rfl⟩ : ¬ id ≤ 0 ∧ validReplay = true := by simpa using hreject
      obtain rfl := Option.some_inj.mp hs
    · simp only [if_neg hpos, if_pos hused] at hok
      exact unique_allocate h hc (by simpa using hok)
    · simp only [if_neg hpos, if_neg hused] at hok
      refine h.claim c id (fun i hi => ?_) (fun i id' hi => ?_) (le_max_left ..) (le_max_right ..)
      · exact not_claims_of_all hok hused hi
      · refine (claims_setStage hc hi).imp_right fun ⟨hic, hstage⟩ => ⟨hic, ?_⟩
        rcases hstage with hstage | ⟨-, hstage⟩
        · exact (Stage.accepted.inj hstage).symm
        · cases hstage
  · cases hs

theorem unique_store {es : List Event} (h : Unique s) (hs : s.store c = some (t, es)) :
    Unique t ∧ ∀ e ∈ es, e.overwritesOpen = false := by
  simp only [State.store] at hs
  split at hs
  · next request id isOpen hc =>
    obtain ⟨rfl, rfl⟩ := Prod.mk.inj (Option.some_inj.mp hs)
    have hclaim : Claims s c id := .inl (by rw [State.stageOf, hc]; rfl)
    constructor
    · refine h.mono (fun i id' hi => ?_) ?_
      · have hstage : Claims (s.setStage c (.stored id)) i id' → Claims s i id' := fun hi =>
          (claims_setStage hc hi).elim (fun hi => hi) fun ⟨_, hnew⟩ => by simp at hnew
        rcases hi with hi | hi | hi
        · exact hstage (.inl hi)
        · exact hstage (.inr (.inl hi))
        · by_cases hid : id' = id
          · subst hid
            rw [AList.lookup_insert] at hi
            exact Option.some_inj.mp hi ▸ hclaim
          · rw [AList.lookup_insert_ne hid] at hi
            exact .inr (.inr hi)
      · dsimp only
        split_ifs
        · exact le_rfl
        · exact le_max_left ..
    · intro e he
      rw [List.mem_singleton.mp he, Event.overwritesOpen]
      cases hprev : s.wrappers.lookup id with
      | none => rfl
      | some d => simp [h.one d c id (.inr (.inr hprev)) hclaim]
  · cases hs

theorem unique_of_step {es : List Event} (h : Unique s) (hok : acceptsFresh s a = true)
    (hs : step s a = some (t, es)) : Unique t ∧ ∀ e ∈ es, e.overwritesOpen = false := by
  cases a with
  | store c => exact unique_store h hs
  | connect request =>
    obtain ⟨rfl, rfl⟩ := Prod.mk.inj (Option.some_inj.mp hs)
    refine ⟨h.mono (fun i id => claims_of_conns fun conn' hc' => ?_) le_rfl, nofun⟩
    rw [List.getElem?_append] at hc'
    split_ifs at hc'
    · exact .inr ⟨conn', hc', rfl, fun h => h⟩
    · rw [List.getElem?_singleton] at hc'
      split_ifs at hc'
      obtain rfl := Option.some_inj.mp hc'
      exact .inl rfl
  | accept c =>
    obtain ⟨ht, rfl⟩ := quietly_eq_some.mp hs
    exact ⟨unique_accept h hok ht, nofun⟩
  | announce c =>
    obtain ⟨ht, rfl⟩ := quietly_eq_some.mp hs
    refine ⟨?_, nofun⟩
    simp only [State.announce] at ht
    split at ht
    · next id hid =>
      obtain ⟨conn, hc, -⟩ := exists_of_stageOf hid
      obtain rfl := Option.some_inj.mp ht
      refine h.setStage hc fun id' hnew => ?_
      split_ifs at hnew with hstill
      · rcases hnew with hnew | ⟨-, hnew⟩
        · cases hnew
        · obtain rfl := Stage.looping.inj hnew
          simp only [State.stillRegistered, Bool.and_eq_true, decide_eq_true_eq] at hstill
          exact .inr (.inr hstill.2)
      · simp at hnew
    · cases ht
  | receiveError c =>
    obtain ⟨ht, rfl⟩ := quietly_eq_some.mp hs
    refine ⟨?_, nofun⟩
    simp only [State.receiveError] at ht
    split at ht
    · next id hid =>
      obtain ⟨conn, hc, -⟩ := exists_of_stageOf hid
      obtain rfl := Option.some_inj.mp ht
      exact h.setStage hc (by simp)
    · cases ht
  | disconnect c =>
    obtain ⟨ht, rfl⟩ := quietly_eq_some.mp hs
    refine ⟨?_, nofun⟩
    simp only [State.disconnect] at ht
    split at ht
    · next id hid =>
      obtain ⟨conn, hc, -⟩ := exists_of_stageOf hid
      obtain rfl := Option.some_inj.mp ht
      refine h.mono (fun i id' hi => ?_) le_rfl
      have hstage : Claims (s.setStage c .finished) i id' → Claims s i id' := fun hi =>
        (claims_setStage hc hi).elim (fun hi => hi) fun ⟨_, hnew⟩ => by simp at hnew
      rcases hi with hi | hi | hi
      · exact hstage (.inl hi)
      · exact hstage (.inr (.inl hi))
      · dsimp only at hi
        split_ifs at hi
        · exact .inr (.inr (lookup_of_erase hi))
        · exact .inr (.inr hi)
    · cases ht
  | close c =>
    obtain ⟨ht, rfl⟩ := quietly_eq_some.mp hs
    refine ⟨?_, nofun⟩
    simp only [State.close] at ht
    split_ifs at ht
    obtain rfl := Option.some_inj.mp ht
    refine h.mono (fun i id => claims_of_conns fun conn' hc' => .inr ?_) le_rfl
    rw [List.getElem?_modify] at hc'
    obtain ⟨conn, hc, rfl⟩ := Option.map_eq_some_iff.mp hc'
    refine ⟨conn, hc, by split_ifs <;> rfl, fun hopen => ?_⟩
    split_ifs at hopen
    exact hopen
  | handleDismiss id =>
    obtain ⟨ht, rfl⟩ := quietly_eq_some.mp hs
    refine ⟨?_, nofun⟩
    simp only [State.handleDismiss] at ht
    split_ifs at ht
    · obtain rfl := Option.some_inj.mp ht
      refine h.mono (fun i id' hi => ?_) le_rfl
      rcases hi with hi | hi | hi
      · exact .inl hi
      · exact .inr (.inl hi)
      · exact .inr (.inr (lookup_of_erase hi))
    · obtain rfl := Option.some_inj.mp ht
      exact h

/-! ### Runs -/

/-- What a run has shown so far. -/
theorem unique_of_exec {as : List Action} {es : List Event} (hx : exec step .initial as = some (s, es))
    (hm : Meets step (fun s a => acceptsFresh s a = true) .initial as) :
    Unique s ∧ ∀ e ∈ es, e.overwritesOpen = false := by
  refine exec_invariant (I := fun es s => Unique s ∧ ∀ e ∈ es, e.overwritesOpen = false)
    (fun h s a t es hI hok hs => ?_) (h := []) ⟨unique_initial, nofun⟩ hm hx
  obtain ⟨ht, hes⟩ := unique_of_step hI.1 hok hs
  refine ⟨ht, fun e he => ?_⟩
  rcases List.mem_append.mp he with he | he
  · exact hI.2 e he
  · exact hes e he

/-- Storing a wrapper never overwrites the entry of another one whose connection is open, and
no two open connections run with one ID, as long as each accepted ID is fresh. -/
theorem sessionIDs_unique (as : List Action) (s : State) (es : List Event)
    (hx : exec step .initial as = some (s, es))
    (hm : Meets step (fun s a => acceptsFresh s a = true) .initial as) :
    (∀ e ∈ es, e.overwritesOpen = false) ∧ ∀ i j id, s.Runs i id → s.Runs j id → i = j := by
  obtain ⟨hunique, hes⟩ := unique_of_exec hx hm
  exact ⟨hes, fun i j id hi hj => hunique.one i j id (.inr (.inl hi)) (.inr (.inl hj))⟩

/-! ### Why the ID has to be fresh -/

theorem getElem?_setStage (hc : s.conns[c]? = some conn) :
    (s.setStage c stage).conns[i]? = if i = c then some { conn with stage := stage } else s.conns[i]? := by
  rw [State.setStage, List.getElem?_modify]
  by_cases hi : i = c
  · subst hi
    simp [hc]
  · simp [hi, Ne.symm hi]

/-- A reattach is accepted and stored under an ID that has no wrapper. -/
theorem exec_accept_store (hc : s.conns[c]? = some ⟨.reattach id true, .connected, true⟩) (hpos : 0 < id)
    (hfree : s.wrappers.lookup id = none) :
    ∃ t, exec step s [.accept c, .store c] = some (t, [.stored c id none false]) ∧
      t.conns[c]? = some ⟨.reattach id true, .stored id, true⟩ ∧ (∀ i, i ≠ c → t.conns[i]? = s.conns[i]?) ∧
      t.wrappers.lookup id = some c ∧ id ∈ t.sessions := by
  let t₁ : State := { s.setStage c (.accepted id) with nextID := max s.nextID id }
  have hc₁ : t₁.conns[c]? = some ⟨.reattach id true, .accepted id, true⟩ := by
    exact (getElem?_setStage hc).trans (if_pos rfl)
  let t₂ : State := { t₁.setStage c (.stored id) with
    wrappers := s.wrappers.insert id c
    sessions := insert id s.sessions
    nextID := max t₁.nextID id }
  have haccept : step s (.accept c) = some (t₁, []) := by
    simp [t₁, step, quietly, State.accept, hc, hfree, not_le.mpr hpos]
  have hstore : step t₁ (.store c) = some (t₂, [.stored c id none false]) := by
    have hnone : t₁.wrappers.lookup id = none := hfree
    simp only [step, State.store, hc₁, hnone]
    rfl
  refine ⟨t₂, exec_cons_eq_some.mpr ⟨t₁, [], _, haccept, exec_cons_eq_some.mpr ⟨t₂, _, [], hstore, rfl, rfl⟩, rfl⟩,
    (getElem?_setStage hc₁).trans (if_pos rfl), fun i hi => ?_, AList.lookup_insert _, Finset.mem_insert_self _ _⟩
  exact (getElem?_setStage hc₁).trans ((if_neg hi).trans ((getElem?_setStage hc).trans (if_neg hi)))

/-- Another connection that has accepted the ID overwrites the entry. -/
theorem overwrites_of_accepted {request : Request} {isOpen : Bool}
    (hc : s.conns[c]? = some ⟨.reattach id true, .connected, true⟩) (hpos : 0 < id)
    (hfree : s.wrappers.lookup id = none) (hi : s.conns[i]? = some ⟨request, .accepted id, isOpen⟩) :
    ∃ t es, exec step s [.accept c, .store c, .store i] = some (t, es) ∧ ∃ e ∈ es, e.overwritesOpen = true := by
  have hic : i ≠ c := by
    rintro rfl
    rw [hc] at hi
    cases hi
  obtain ⟨t, ht, htc, hothers, hlookup, -⟩ := exec_accept_store hc hpos hfree
  have hopen : t.isOpen c = true := by rw [State.isOpen, htc]; rfl
  obtain ⟨u, hu⟩ : ∃ u, step t (.store i) = some (u, [.stored i id (some c) true]) := by
    simp only [step, State.store, (hothers i hic).trans hi, hlookup, Option.any_some, hopen]
    exact ⟨_, rfl⟩
  have hlast : exec step t [.store i] = some (u, [.stored i id (some c) true]) :=
    exec_cons_eq_some.mpr ⟨u, _, [], hu, rfl, rfl⟩
  have hrun := exec_append ht hlast
  exact ⟨u, _, hrun, .stored i id (some c) true, by simp, by simp [Event.overwritesOpen, Ne.symm hic]⟩

/-- Another connection that runs with the ID after its session has been dismissed is not
alone with it. -/
theorem runs_twice_of_dismissed (hc : s.conns[c]? = some ⟨.reattach id true, .connected, true⟩) (hpos : 0 < id)
    (hfree : s.wrappers.lookup id = none) (hi : s.Runs i id) :
    ∃ t es, exec step s [.accept c, .store c, .announce c] = some (t, es) ∧ i ≠ c ∧ t.Runs i id ∧ t.Runs c id := by
  have hic : i ≠ c := by
    rintro rfl
    have hstage := hi.2
    rw [State.stageOf, hc] at hstage
    cases hstage
  obtain ⟨t, ht, htc, hothers, hlookup, hsession⟩ := exec_accept_store hc hpos hfree
  have hstage : t.stageOf c = some (.stored id) := by rw [State.stageOf, htc]; rfl
  have hannounce : step t (.announce c) = some (t.setStage c (.looping id), []) := by
    simp [step, quietly, State.announce, hstage, State.stillRegistered, hlookup, hsession]
  have hlast : exec step t [.announce c] = some (t.setStage c (.looping id), []) :=
    exec_cons_eq_some.mpr ⟨_, [], [], hannounce, rfl, rfl⟩
  refine ⟨_, _, exec_append ht hlast, hic, ⟨?_, ?_⟩, ?_, ?_⟩
  · rw [isOpen_setStage, State.isOpen, hothers i hic]
    exact hi.1
  · rw [stageOf_setStage htc, if_neg hic, State.stageOf, hothers i hic]
    exact hi.2
  · rw [isOpen_setStage, State.isOpen, htc]
    rfl
  · rw [stageOf_setStage htc, if_pos rfl]

/-- A wrapper that has lost its connection comes back under its ID. -/
def comeBack : List Action :=
  [.connect .register, .accept 0, .store 0, .announce 0, .close 0, .receiveError 0, .disconnect 0,
    .connect (.reattach 1 true), .accept 1, .store 1, .announce 1]

theorem comeBack_unique : ∃ s es, exec step .initial comeBack = some (s, es) ∧ s.nextID = 1 ∧
    (∀ e ∈ es, e.overwritesOpen = false) ∧ ∀ i j id, s.Runs i id → s.Runs j id → i = j :=
  ⟨_, _, rfl, rfl, sessionIDs_unique comeBack _ _ rfl (by decide)⟩

/-- Two wrappers that reattach with one ID after a restart of the Hub. -/
def twoReattaches : List Action :=
  [.connect (.reattach 3 true), .connect (.reattach 3 true), .accept 0, .accept 1, .store 0, .store 1]

theorem twoReattaches_overwrite : ¬ ∀ (as : List Action) (s : State) (es : List Event),
    exec step .initial as = some (s, es) →
    (∀ e ∈ es, e.overwritesOpen = false) ∧ ∀ i j id, s.Runs i id → s.Runs j id → i = j := by
  intro h
  have hes := (h twoReattaches _ _ rfl).1
  exact absurd (hes (.stored 1 3 (some 0) true) (by decide)) (by decide)

end ManyAiCli.Hub.SessionIDs
