import ManyAiCli.Hub.PtyStream
import ManyAiCli.Runs.InOrder
import Mathlib.Data.List.Nodup
import Mathlib.Data.List.Perm.Basic
import Mathlib.Data.List.Range
import Mathlib.Logic.Function.Basic

/-! What a UI receives of its active session. Every chunk that is appended after a UI has
been registered reaches it, and after its replay and in order exactly when each send finds
the replay sent and the chunks in between received. -/

namespace ManyAiCli.Hub.PtyStream

open Runs Function

variable {s t : State} {a : Action} {i k l : ℕ} {u : UI} {log : List Chunk} {jobAt : ℕ → Option Job}

/-! ### Steps -/

/-- What a step does. -/
inductive Takes (s : State) : Action → State → Prop
  | startWrapper (session : ℕ) :
      Takes s (.startWrapper session) { s with loops := s.loops ++ [⟨.wrapper session, none⟩] }
  | startUILoop (i : ℕ) : Takes s (.startUILoop i)
      { s.setUI i ({ · with looping := true }) with loops := s.loops ++ [⟨.ui i, none⟩] }
  | addUI (active : ℕ) (order : List ℕ) (items : List (ℕ × List UInt8))
      (hitems : items.filter (·.1 = active) =
        if (s.ptyBufs[active]?).getD [] = [] then [] else [(active, (s.ptyBufs[active]?).getD [])]) :
      Takes s (.addUIWithHistory active order) { s with uis := s.uis ++
        [⟨active, true, false, items, false, [], (s.ptyBufs[active]?).getD [], s.log.length⟩] }
  | sendSnapshot (i : ℕ) : Takes s (.sendSnapshot i) (s.setUI i ({ · with snapshotSent := true }))
  | sendHistory {i session : ℕ} {u : UI} {data : List UInt8} {items : List (ℕ × List UInt8)}
      (hu : s.uis[i]? = some u) (hitems : u.items = (session, data) :: items) :
      Takes s (.sendHistory i) (s.setUI i ({ · with
        items := items
        received := if u.registered then u.received ++ [.replay session data] else u.received }))
  | removeUI (i : ℕ) : Takes s (.removeUI i) (s.setUI i ({ · with registered := false }))
  | append {a : Action} {l : ℕ} {source : Source} (session : ℕ) (data : List UInt8)
      (ha : a = .chunk l data ∨ a = .handleInput l session) (hl : s.loops[l]? = some ⟨source, none⟩) :
      Takes s a (s.append l session data)
  | broadcast {l : ℕ} {source : Source} {chunk : Chunk} {order : List ℕ}
      (hl : s.loops[l]? = some ⟨source, some ⟨chunk, none⟩⟩)
      (horder : order.Perm ((List.range s.uis.length).filter fun i => s.uis[i]?.any (·.registered))) :
      Takes s (.broadcast l order) (s.setJob l (some ⟨chunk, some order⟩))
  | send {l i : ℕ} {source : Source} {chunk : Chunk} {targets : List ℕ}
      (hl : s.loops[l]? = some ⟨source, some ⟨chunk, some (i :: targets)⟩⟩) :
      Takes s (.send l) ((s.setJob l (some ⟨chunk, some targets⟩)).setUI i fun u =>
        if u.registered then { u with received := u.received ++ [.live chunk] } else u)
  | done {l : ℕ} {source : Source} {chunk : Chunk} (hl : s.loops[l]? = some ⟨source, some ⟨chunk, some []⟩⟩) :
      Takes s (.broadcastDone l) (s.setJob l none)

/-- The buffer of the active session is among the history once, and complete. -/
theorem items_active {ptyBufs : List (List UInt8)} {active : ℕ} {order : List ℕ}
    (horder : order.Perm (List.range ptyBufs.length)) :
    (order.filterMap fun session => (ptyBufs[session]?.filter (· ≠ [])).map fun raw =>
      (session, historyItem active session raw)).filter (·.1 = active) =
      if (ptyBufs[active]?).getD [] = [] then [] else [(active, (ptyBufs[active]?).getD [])] := by
  have honly : order.filter (· = active) = if active < ptyBufs.length then [active] else [] := by
    rw [List.filter_eq, horder.count_eq, List.nodup_range.count]
    simp only [List.mem_range]
    split_ifs <;> rfl
  -- of the active session the whole buffer is sent
  have hitem : ∀ session, ((ptyBufs[session]?.filter (· ≠ [])).map fun raw =>
      (session, historyItem active session raw)).filter (·.1 = active) =
      if decide (session = active) then (ptyBufs[active]?.filter (· ≠ [])).map fun raw => (active, raw)
      else none := by
    intro session
    by_cases hs : session = active
    · subst hs
      cases ptyBufs[session]?.filter (· ≠ []) <;> simp [historyItem]
    · cases ptyBufs[session]?.filter (· ≠ []) <;> simp [hs]
  rw [List.filter_filterMap, funext hitem, ← List.filterMap_filter, honly]
  by_cases hlt : active < ptyBufs.length
  · rw [if_pos hlt, List.getElem?_eq_getElem hlt]
    by_cases hnil : ptyBufs[active] = [] <;> simp [hnil, Option.filter]
  · rw [if_neg hlt, List.getElem?_eq_none (by omega)]
    rfl

theorem takes_of_move (h : move s a = some t) : Takes s a t := by
  cases a with
  | startWrapper session =>
    simp only [move, State.startWrapper] at h
    split_ifs at h
    obtain rfl := Option.some_inj.mp h
    exact .startWrapper session
  | addUIWithHistory active order =>
    simp only [move, State.addUIWithHistory] at h
    split_ifs at h with horder
    obtain rfl := Option.some_inj.mp h
    exact .addUI active order _ (items_active horder)
  | sendSnapshot i =>
    simp only [move, State.sendSnapshot] at h
    split_ifs at h
    obtain rfl := Option.some_inj.mp h
    exact .sendSnapshot i
  | sendHistory i =>
    simp only [move, State.sendHistory] at h
    split at h
    · cases h
    · next u hu =>
      split at h
      · cases h
      · next hitems =>
        by_cases hsnap : u.snapshotSent = true
        · rw [if_pos hsnap] at h
          obtain rfl := Option.some_inj.mp h
          exact .sendHistory hu hitems
        · rw [if_neg hsnap] at h
          cases h
  | startUILoop i =>
    simp only [move, State.startUILoop] at h
    split_ifs at h
    obtain rfl := Option.some_inj.mp h
    exact .startUILoop i
  | removeUI i =>
    simp only [move, State.removeUI] at h
    split_ifs at h
    obtain rfl := Option.some_inj.mp h
    exact .removeUI i
  | chunk l data =>
    simp only [move, State.chunk] at h
    split at h
    · next session hl =>
      obtain rfl := Option.some_inj.mp h
      exact .append session data (.inl rfl) hl
    · cases h
  | handleInput l session =>
    simp only [move, State.handleInput] at h
    split at h
    · next hl =>
      split_ifs at h
      obtain rfl := Option.some_inj.mp h
      exact .append session userTurnMarker (.inr rfl) hl
    · cases h
  | broadcast l order =>
    simp only [move, State.broadcast] at h
    split at h
    · next hl =>
      split_ifs at h with horder
      obtain rfl := Option.some_inj.mp h
      exact .broadcast hl horder
    · cases h
  | send l =>
    simp only [move, State.send] at h
    split at h
    · next hl =>
      obtain rfl := Option.some_inj.mp h
      exact .send hl
    · cases h
  | broadcastDone l =>
    simp only [move, State.broadcastDone] at h
    split at h
    · next hl =>
      obtain rfl := Option.some_inj.mp h
      exact .done hl
    · cases h

/-! ### Chunks on their way -/

theorem jobAt_modify {ptyBufs : List (List UInt8)} {uis : List UI} {lp : Loop} (job : Option Job)
    (hl : s.loops[l]? = some lp) :
    State.jobAt ⟨ptyBufs, uis, s.loops.modify l ({ · with job := job }), log⟩ = update s.jobAt l job := by
  funext k
  simp only [State.jobAt, List.getElem?_modify]
  by_cases hk : k = l
  · subst hk
    simp [hl]
  · rw [update_of_ne hk, State.jobAt]
    cases s.loops[k]? <;> simp [Ne.symm hk]

/-- A loop that starts has nothing to send. -/
theorem jobAt_append {ptyBufs : List (List UInt8)} {uis : List UI} (source : Source) :
    State.jobAt ⟨ptyBufs, uis, s.loops ++ [⟨source, none⟩], log⟩ = s.jobAt := by
  funext k
  simp only [State.jobAt, List.getElem?_append]
  split_ifs with hk
  · rfl
  · rw [List.getElem?_singleton, List.getElem?_eq_none (by omega)]
    split_ifs <;> rfl

theorem jobAt_of_loop {source : Source} {job : Option Job} (hl : s.loops[l]? = some ⟨source, job⟩) :
    s.jobAt l = job := by rw [State.jobAt, hl]; rfl

/-- The chunks in the log and those that loops send. -/
structure Logged (log : List Chunk) (jobAt : ℕ → Option Job) : Prop where
  increasing : log.Pairwise (·.serial < ·.serial)
  bounded : ∀ c ∈ log, c.serial < log.length
  known : ∀ l j, jobAt l = some j → j.chunk ∈ log
  apart : ∀ k l i j, jobAt k = some i → jobAt l = some j → i.chunk = j.chunk → k = l
  targets : ∀ l j ts, jobAt l = some j → j.targets = some ts → ts.Nodup

/-- What a UI has received and what it is still to receive. -/
structure Follows (log : List Chunk) (jobAt : ℕ → Option Job) (i : ℕ) (u : UI) : Prop where
  captured : u.captured ≤ log.length
  /-- The replay has been sent, or is to be sent. -/
  history : u.registered = true → (u.received.filter fun m => m.isReplay && m.session = u.active) ++
    (u.items.filter (·.1 = u.active)).map (fun item => .replay item.1 item.2) = u.replayed
  known : ∀ c, .live c ∈ u.received → c ∈ log
  /-- No chunk is lost. -/
  reached : u.registered = true → ∀ c ∈ log, c.session = u.active → u.captured ≤ c.serial →
    .live c ∈ u.received ∨ ∃ l j, jobAt l = some j ∧ j.chunk = c ∧ j.isFor i = true
  once : ∀ l j, jobAt l = some j → j.isFor i = true → .live j.chunk ∉ u.received

/-- The loop of a chunk goes on with it. -/
theorem Logged.update_same (h : Logged log jobAt) {j : Job} (hl : jobAt l = some j) {targets : List ℕ}
    (hnodup : targets.Nodup) : Logged log (update jobAt l (some ⟨j.chunk, some targets⟩)) := by
  have hsame : ∀ k i, update jobAt l (some ⟨j.chunk, some targets⟩) k = some i →
      ∃ i', jobAt k = some i' ∧ i.chunk = i'.chunk := by
    intro k i hk
    by_cases hkl : k = l
    · subst hkl
      rw [update_self] at hk
      obtain rfl := Option.some_inj.mp hk
      exact ⟨j, hl, rfl⟩
    · rw [update_of_ne hkl] at hk
      exact ⟨i, hk, rfl⟩
  refine ⟨h.increasing, h.bounded, fun k i hk => ?_, fun k m i i' hk hm hc => ?_, fun k i ts hk hts => ?_⟩
  · obtain ⟨i', hi', hc⟩ := hsame k i hk
    exact hc ▸ h.known k i' hi'
  · obtain ⟨r, hr, hcr⟩ := hsame k i hk
    obtain ⟨r', hr', hcr'⟩ := hsame m i' hm
    exact h.apart k m r r' hr hr' (by rw [← hcr, ← hcr', hc])
  · by_cases hkl : k = l
    · subst hkl
      rw [update_self] at hk
      obtain rfl := Option.some_inj.mp hk
      exact Option.some_inj.mp hts ▸ hnodup
    · rw [update_of_ne hkl] at hk
      exact h.targets k i ts hk hts

theorem Logged.update_none (h : Logged log jobAt) (l : ℕ) : Logged log (update jobAt l none) := by
  have hold : ∀ k i, update jobAt l none k = some i → jobAt k = some i := by
    intro k i hk
    by_cases hkl : k = l
    · subst hkl
      rw [update_self] at hk
      cases hk
    · rwa [update_of_ne hkl] at hk
  exact ⟨h.increasing, h.bounded, fun k i hk => h.known k i (hold k i hk),
    fun k m i j hk hm => h.apart k m i j (hold k i hk) (hold m j hm),
    fun k i ts hk => h.targets k i ts (hold k i hk)⟩

/-- New output gets a new number. -/
theorem Logged.append (h : Logged log jobAt) (hl : jobAt l = none) (session : ℕ) (data : List UInt8) :
    Logged (log ++ [⟨log.length, session, data⟩]) (update jobAt l (some ⟨⟨log.length, session, data⟩, none⟩)) := by
  have hnew : ∀ c ∈ log, c ≠ ⟨log.length, session, data⟩ := by
    rintro c hc rfl
    exact lt_irrefl _ (h.bounded _ hc)
  have hcases : ∀ k i, update jobAt l (some ⟨⟨log.length, session, data⟩, none⟩) k = some i →
      (k = l ∧ i = ⟨⟨log.length, session, data⟩, none⟩) ∨ jobAt k = some i := by
    intro k i hk
    by_cases hkl : k = l
    · subst hkl
      rw [update_self] at hk
      exact .inl ⟨rfl, (Option.some_inj.mp hk).symm⟩
    · rw [update_of_ne hkl] at hk
      exact .inr hk
  refine ⟨?_, fun c hc => ?_, fun k i hk => ?_, fun k m i j hk hm hc => ?_, fun k i ts hk hts => ?_⟩
  · rw [List.pairwise_append]
    exact ⟨h.increasing, List.pairwise_singleton _ _, fun c hc d hd => by
      rw [List.mem_singleton.mp hd]; exact h.bounded c hc⟩
  · rw [List.length_append, List.length_singleton]
    rcases List.mem_append.mp hc with hc | hc
    · exact (h.bounded c hc).trans (Nat.lt_succ_self _)
    · rw [List.mem_singleton.mp hc]
      exact Nat.lt_succ_self _
  · rcases hcases k i hk with ⟨-, rfl⟩ | hk
    · simp
    · exact List.mem_append_left _ (h.known k i hk)
  · rcases hcases k i hk with ⟨hkl, rfl⟩ | hk <;> rcases hcases m j hm with ⟨hml, rfl⟩ | hm
    · rw [hkl, hml]
    · exact absurd hc.symm (hnew _ (h.known m j hm))
    · exact absurd hc (hnew _ (h.known k i hk))
    · exact h.apart k m i j hk hm hc
  · rcases hcases k i hk with ⟨-, rfl⟩ | hk
    · cases hts
    · exact h.targets k i ts hk hts

theorem logged_of_takes (h : Logged s.log s.jobAt) (ht : Takes s a t) : Logged t.log t.jobAt := by
  cases ht with
  | startWrapper session => exact (jobAt_append (s := s) (.wrapper session)) ▸ h
  | startUILoop i => exact (jobAt_append (s := s) (.ui i)) ▸ h
  | addUI => exact h
  | sendSnapshot => exact h
  | sendHistory => exact h
  | removeUI => exact h
  | append session data ha hl =>
    rw [State.append, jobAt_modify _ hl]
    exact h.append (jobAt_of_loop hl) session data
  | broadcast hl horder =>
    rw [State.setJob, jobAt_modify _ hl]
    exact h.update_same (jobAt_of_loop hl) (horder.nodup_iff.mpr (List.nodup_range.filter _))
  | send hl =>
    have hnodup := h.targets _ _ _ (jobAt_of_loop hl) rfl
    have hjobs := h.update_same (jobAt_of_loop hl) (List.nodup_cons.mp hnodup).2
    rw [← @jobAt_modify s _ s.log s.ptyBufs s.uis _ _ hl] at hjobs
    exact hjobs
  | done hl =>
    rw [State.setJob, jobAt_modify _ hl]
    exact h.update_none _

theorem Follows.goOn {j : Job} {job : Option Job} (h : Follows log jobAt i u) (hl : jobAt l = some j)
    (hkeep : u.registered = true → j.isFor i = true →
      ∃ j', job = some j' ∧ j'.chunk = j.chunk ∧ j'.isFor i = true)
    (hfrom : ∀ j', job = some j' → j'.isFor i = true → j'.chunk = j.chunk ∧ j.isFor i = true) :
    Follows log (update jobAt l job) i u := by
  refine ⟨h.captured, h.history, h.known, fun hreg c hc hses hcap => ?_, fun k j' hk hfor => ?_⟩
  · rcases h.reached hreg c hc hses hcap with hin | ⟨k, i', hk, hci, hfor⟩
    · exact .inl hin
    · by_cases hkl : k = l
      · subst hkl
        obtain rfl := Option.some_inj.mp (hl.symm.trans hk)
        obtain ⟨j', hj', hcj, hfor'⟩ := hkeep hreg hfor
        exact .inr ⟨k, j', by rw [update_self, hj'], hcj.trans hci, hfor'⟩
      · exact .inr ⟨k, i', by rwa [update_of_ne hkl], hci, hfor⟩
  · by_cases hkl : k = l
    · subst hkl
      rw [update_self] at hk
      obtain ⟨hcj, hforj⟩ := hfrom j' hk hfor
      rw [hcj]
      exact h.once k j hl hforj
    · rw [update_of_ne hkl] at hk
      exact h.once k j' hk hfor

/-- The UI gets the chunk. -/
theorem Follows.receive {chunk : Chunk} {targets : List ℕ} (h : Follows log jobAt i u)
    (hlog : Logged log jobAt)
    (hl : jobAt l = some ⟨chunk, some (i :: targets)⟩) :
    Follows log (update jobAt l (some ⟨chunk, some targets⟩)) i { u with received := u.received ++ [.live chunk] } := by
  refine ⟨h.captured, fun hreg => ?_, fun c hc => ?_, fun hreg c hc hses hcap => ?_, fun k j hk hfor => ?_⟩
  · have hnone : [Msg.live chunk].filter (fun m => m.isReplay && m.session = u.active) = [] := rfl
    rw [List.filter_append, hnone, List.append_nil]
    exact h.history hreg
  · rcases List.mem_append.mp hc with hc | hc
    · exact h.known c hc
    · rw [List.mem_singleton, Msg.live.injEq] at hc
      exact hc ▸ hlog.known l _ hl
  · rcases h.reached hreg c hc hses hcap with hin | ⟨k, j, hk, rfl, hfor⟩
    · exact .inl (List.mem_append_left _ hin)
    · by_cases hkl : k = l
      · subst hkl
        obtain rfl := Option.some_inj.mp (hl.symm.trans hk)
        exact .inl (by simp)
      · exact .inr ⟨k, j, by rwa [update_of_ne hkl], rfl, hfor⟩
  · by_cases hkl : k = l
    · -- a UI is among the targets once
      subst hkl
      rw [update_self] at hk
      obtain rfl := Option.some_inj.mp hk
      have hnodup := hlog.targets k _ _ hl rfl
      simp only [Job.isFor, decide_eq_true_eq] at hfor
      exact absurd hfor (List.nodup_cons.mp hnodup).1
    · rw [update_of_ne hkl] at hk
      rw [List.mem_append, List.mem_singleton, Msg.live.injEq, not_or]
      exact ⟨h.once k j hk hfor, fun hc => hkl (hlog.apart k l j _ hk hl hc)⟩

theorem Follows.append (h : Follows log jobAt i u) (hlog : Logged log jobAt) (hl : jobAt l = none)
    (session : ℕ) (data : List UInt8) :
    Follows (log ++ [⟨log.length, session, data⟩])
      (Function.update jobAt l (some ⟨⟨log.length, session, data⟩, none⟩)) i u := by
  refine ⟨?_, h.history, fun c hc => List.mem_append_left _ (h.known c hc), fun hreg c hc hses hcap => ?_,
    fun k j hk hfor => ?_⟩
  · rw [List.length_append]
    exact h.captured.trans (Nat.le_add_right _ _)
  · rcases List.mem_append.mp hc with hc | hc
    · rcases h.reached hreg c hc hses hcap with hin | ⟨k, j, hk, rfl, hfor⟩
      · exact .inl hin
      · have hkl : k ≠ l := by
          rintro rfl
          rw [hl] at hk
          cases hk
        exact .inr ⟨k, j, by rwa [update_of_ne hkl], rfl, hfor⟩
    · rw [List.mem_singleton.mp hc]
      exact .inr ⟨l, _, update_self .., rfl, rfl⟩
  · by_cases hkl : k = l
    · subst hkl
      rw [update_self] at hk
      obtain rfl := Option.some_inj.mp hk
      exact fun hin => lt_irrefl _ (hlog.bounded _ (h.known _ hin))
    · rw [update_of_ne hkl] at hk
      exact h.once k j hk hfor

/-- A UI that has just been registered. -/
theorem Follows.start (hlog : Logged log jobAt) {active : ℕ} {items : List (ℕ × List UInt8)}
    {replay : List UInt8}
    (hitems : items.filter (·.1 = active) = if replay = [] then [] else [(active, replay)]) :
    Follows log jobAt i ⟨active, true, false, items, false, [], replay, log.length⟩ := by
  refine ⟨le_rfl, fun _ => ?_, nofun, fun _ c hc _ hcap => ?_, fun _ _ _ _ => List.not_mem_nil⟩
  · dsimp only
    rw [hitems, List.filter_nil, List.nil_append, UI.replayed]
    split_ifs <;> rfl
  · exact absurd (hlog.bounded c hc) (by simpa using hcap)

theorem Follows.sendHistory (h : Follows log jobAt i u) {session : ℕ} {data : List UInt8}
    {items : List (ℕ × List UInt8)} (hitems : u.items = (session, data) :: items) :
    Follows log jobAt i { u with
      items := items
      received := if u.registered then u.received ++ [.replay session data] else u.received } := by
  cases hreg : u.registered with
  | false =>
    exact ⟨h.captured, fun hr => absurd hr Bool.false_ne_true, h.known,
      fun hr => absurd hr Bool.false_ne_true, h.once⟩
  | true =>
    have hlive : ∀ c, Msg.live c ∈ u.received ++ [.replay session data] ↔ Msg.live c ∈ u.received := by simp
    refine ⟨h.captured, fun _ => ?_, fun c hc => h.known c ((hlive c).mp hc), fun _ c hc hses hcap => ?_,
      fun k j hk hfor hin => h.once k j hk hfor ((hlive _).mp hin)⟩
    · have hhist := h.history hreg
      rw [hitems] at hhist
      rw [if_pos rfl, List.filter_append]
      change _ = u.replayed
      by_cases hs : session = u.active
      · simpa [hs, Msg.isReplay, Msg.session] using hhist
      · simpa [hs, Msg.isReplay, Msg.session] using hhist
    · exact (h.reached hreg c hc hses hcap).imp_left (hlive c).mpr

/-- What holds in every run. -/
structure Tracked (s : State) : Prop where
  logged : Logged s.log s.jobAt
  follows : ∀ (i : ℕ) (u : UI), s.uis[i]? = some u → Follows s.log s.jobAt i u

theorem getElem?_setUI {f : UI → UI} (h : (s.setUI i f).uis[k]? = some u) :
    ∃ v, s.uis[k]? = some v ∧ u = if i = k then f v else v := by
  rw [State.setUI, List.getElem?_modify] at h
  obtain ⟨v, hv, rfl⟩ := Option.map_eq_some_iff.mp h
  exact ⟨v, hv, rfl⟩

/-- A change of a UI that its messages do not see. -/
theorem follows_setUI {f : UI → UI} (h : ∀ (i : ℕ) (u : UI), s.uis[i]? = some u → Follows s.log s.jobAt i u)
    (hf : ∀ v, s.uis[i]? = some v → Follows s.log s.jobAt i v → Follows s.log s.jobAt i (f v))
    (hu : (s.setUI i f).uis[k]? = some u) : Follows s.log s.jobAt k u := by
  obtain ⟨v, hv, rfl⟩ := getElem?_setUI hu
  split_ifs with hik
  · subst hik
    exact hf v hv (h i v hv)
  · exact h k v hv

theorem tracked_of_takes (h : Tracked s) (ht : Takes s a t) : Tracked t := by
  refine ⟨logged_of_takes h.logged ht, fun k u hu => ?_⟩
  cases ht with
  | startWrapper session => exact (jobAt_append (s := s) (.wrapper session)) ▸ h.follows k u hu
  | startUILoop i =>
    have hf : Follows s.log s.jobAt k u := by
      refine follows_setUI (s := s) h.follows (fun v _ hv => ?_) hu
      exact ⟨hv.captured, hv.history, hv.known, hv.reached, hv.once⟩
    exact (jobAt_append (s := s) (.ui i)) ▸ hf
  | addUI active order items hitems =>
    rw [List.getElem?_append] at hu
    split_ifs at hu with hk
    · exact h.follows k u hu
    · rw [List.getElem?_singleton] at hu
      split_ifs at hu
      obtain rfl := Option.some_inj.mp hu
      exact .start h.logged hitems
  | sendSnapshot =>
    refine follows_setUI (s := s) h.follows (fun v _ hv => ?_) hu
    exact ⟨hv.captured, hv.history, hv.known, hv.reached, hv.once⟩
  | sendHistory hv hitems =>
    refine follows_setUI (s := s) h.follows (fun w hw hf => ?_) hu
    obtain rfl := Option.some_inj.mp (hv.symm.trans hw)
    exact hf.sendHistory hitems
  | removeUI =>
    refine follows_setUI (s := s) h.follows (fun v _ hv => ?_) hu
    exact ⟨hv.captured, nofun, hv.known, nofun, hv.once⟩
  | append session data ha hl =>
    rw [State.append, jobAt_modify _ hl]
    exact (h.follows k u hu).append h.logged (jobAt_of_loop hl) session data
  | broadcast hl horder =>
    have hu' : s.uis[k]? = some u := hu
    rw [State.setJob, jobAt_modify _ hl]
    refine (h.follows k u hu').goOn (jobAt_of_loop hl) (fun hreg _ => ⟨_, rfl, rfl, ?_⟩) fun j' hj' _ => ?_
    · have hin : k ∈ (List.range s.uis.length).filter fun i => s.uis[i]?.any (·.registered) := by
        rw [List.mem_filter, List.mem_range, hu']
        exact ⟨(List.getElem?_eq_some_iff.mp hu').1, hreg⟩
      simpa [Job.isFor] using horder.mem_iff.mpr hin
    · obtain rfl := Option.some_inj.mp hj'
      exact ⟨rfl, rfl⟩
  | @send l i source chunk targets hl =>
    obtain ⟨v, hv, rfl⟩ := getElem?_setUI hu
    have hv' := h.follows k v hv
    have hjob := jobAt_of_loop hl
    change Follows s.log (State.jobAt ⟨s.ptyBufs, s.uis, s.loops.modify l _, s.log⟩) k _
    rw [jobAt_modify _ hl]
    by_cases hik : i = k
    · subst hik
      rw [if_pos rfl]
      split_ifs with hreg
      · exact hv'.receive h.logged hjob
      · refine hv'.goOn hjob (fun hr => absurd hr hreg) fun j' hj' hfor => ?_
        obtain rfl := Option.some_inj.mp hj'
        exact ⟨rfl, by simp [Job.isFor]⟩
    · have hsame : ∀ j', some (Job.mk chunk (some targets)) = some j' →
          j'.isFor k = (Job.mk chunk (some (i :: targets))).isFor k := by
        intro j' hj'
        obtain rfl := Option.some_inj.mp hj'
        simp [Job.isFor, Ne.symm hik]
      rw [if_neg hik]
      refine hv'.goOn hjob (fun _ hfor => ⟨_, rfl, rfl, (hsame _ rfl).trans hfor⟩) fun j' hj' hfor => ?_
      exact ⟨by obtain rfl := Option.some_inj.mp hj'; rfl, (hsame j' hj').symm.trans hfor⟩
  | done hl =>
    rw [State.setJob, jobAt_modify _ hl]
    exact (h.follows k u hu).goOn (jobAt_of_loop hl) (fun _ hfor => by simp [Job.isFor] at hfor) nofun

/-! ### The order -/

/-- The replay comes first, then the chunks by their numbers. -/
def Msg.Before : Msg → Msg → Prop
  | .replay _ _, .live _ => True
  | .live c, .live d => c.serial < d.serial
  | _, _ => False

theorem Msg.Before.asymm (x y : Msg) (h : x.Before y) : ¬ y.Before x := by
  cases x with
  | replay => cases y <;> exact id
  | live c =>
    cases y with
    | replay => exact absurd h id
    | live d => exact fun h' => lt_asymm h h'

theorem mem_heard {m : Msg} : m ∈ u.heard ↔ m ∈ u.received ∧ m.session = u.active := by
  simp [UI.heard]

theorem live_mem_expected {c : Chunk} :
    Msg.live c ∈ u.expected log ↔ c ∈ log ∧ c.session = u.active ∧ u.captured ≤ c.serial := by
  have hno : Msg.live c ∉ u.replayed := by
    rw [UI.replayed]
    split_ifs <;> simp
  simp [UI.expected, hno]

theorem replay_mem_expected {session : ℕ} {data : List UInt8} :
    Msg.replay session data ∈ u.expected log ↔ Msg.replay session data ∈ u.replayed := by
  simp [UI.expected]

theorem session_of_mem_replayed {m : Msg} (h : m ∈ u.replayed) :
    m.isReplay = true ∧ m.session = u.active := by
  rw [UI.replayed] at h
  split_ifs at h
  · cases h
  · rw [List.mem_singleton] at h
    subst h
    exact ⟨rfl, rfl⟩

theorem expected_pairwise (hlog : Logged log jobAt) (u : UI) : (u.expected log).Pairwise Msg.Before := by
  rw [UI.expected, List.pairwise_append]
  refine ⟨?_, ?_, fun x hx y hy => ?_⟩
  · rw [UI.replayed]
    split_ifs
    · exact List.Pairwise.nil
    · exact List.pairwise_singleton _ _
  · rw [List.pairwise_map]
    exact hlog.increasing.filter _
  · obtain ⟨c, -, rfl⟩ := List.mem_map.mp hy
    cases x with
    | replay session data => trivial
    | live c => exact absurd (session_of_mem_replayed hx).1 Bool.false_ne_true

/-- A replay that is to be sent has not been received. -/
theorem Follows.replay_unsent (h : Follows log jobAt i u) (hreg : u.registered = true) {item : ℕ × List UInt8}
    (hitem : item ∈ u.items) (hactive : item.1 = u.active) :
    .replay item.1 item.2 ∈ u.replayed ∧ ∀ m ∈ u.heard, m.isReplay = false := by
  have hhist := h.history hreg
  have hin : Msg.replay item.1 item.2 ∈
      (u.items.filter (·.1 = u.active)).map (fun item => Msg.replay item.1 item.2) :=
    List.mem_map.mpr ⟨item, List.mem_filter.mpr ⟨hitem, by simpa using hactive⟩, rfl⟩
  refine ⟨hhist ▸ List.mem_append_right _ hin, fun m hm => ?_⟩
  by_contra hreplay
  have hm' : m ∈ u.received.filter fun m => m.isReplay && m.session = u.active := by
    rw [mem_heard] at hm
    simpa [hm.1, hm.2] using hreplay
  have hlen := congrArg List.length hhist
  have hshort : u.replayed.length ≤ 1 := by
    rw [UI.replayed]
    split_ifs <;> simp
  rw [List.length_append] at hlen
  have := List.length_pos_of_mem hm'
  have := List.length_pos_of_mem hin
  omega

/-- What has not been heard is to be sent. -/
theorem Follows.reached_heard (h : Follows log jobAt i u) (hreg : u.registered = true) {m : Msg}
    (hm : m ∈ u.expected log) :
    m ∈ u.heard ∨ (∃ item ∈ u.items, item.1 = u.active) ∨
      ∃ l j, jobAt l = some j ∧ m = .live j.chunk ∧ j.isFor i = true := by
  cases m with
  | replay session data =>
    have hrep := replay_mem_expected.mp hm
    rw [← h.history hreg, List.mem_append, List.mem_filter, List.mem_map] at hrep
    rcases hrep with ⟨hin, hses⟩ | ⟨item, hitem, -⟩
    · exact .inl (mem_heard.mpr ⟨hin, by simpa [Msg.isReplay] using hses⟩)
    · rw [List.mem_filter] at hitem
      exact .inr (.inl ⟨item, hitem.1, by simpa using hitem.2⟩)
  | live c =>
    obtain ⟨hc, hses, hcap⟩ := live_mem_expected.mp hm
    rcases h.reached hreg c hc hses hcap with hin | ⟨l, j, hj, rfl, hfor⟩
    · exact .inl (mem_heard.mpr ⟨hin, hses⟩)
    · exact .inr (.inr ⟨l, j, hj, rfl, hfor⟩)

/-- The next chunk comes in its place exactly when it was appended after the replay was
captured, the replay has been sent, and so have the chunks between them. -/
theorem heard_live_prefix_iff (hlog : Logged log jobAt) (h : Follows log jobAt i u) (hreg : u.registered = true)
    (hheard : u.heard <+: u.expected log) {j : Job} (hl : jobAt l = some j) (hfor : j.isFor i = true)
    (hses : j.chunk.session = u.active) :
    u.heard ++ [.live j.chunk] <+: u.expected log ↔
      u.captured ≤ j.chunk.serial ∧ (∀ item ∈ u.items, item.1 ≠ u.active) ∧
        ∀ k j', jobAt k = some j' → j'.isFor i = true → j'.chunk.session = u.active →
          u.captured ≤ j'.chunk.serial → ¬ j'.chunk.serial < j.chunk.serial := by
  have hnew : Msg.live j.chunk ∉ u.heard := fun hin => h.once l j hl hfor (mem_heard.mp hin).1
  rw [append_singleton_prefix_iff Msg.Before.asymm (expected_pairwise hlog u) hheard hnew, live_mem_expected]
  constructor
  · rintro ⟨⟨-, -, hcap⟩, hbefore⟩
    refine ⟨hcap, fun item hitem hactive => ?_, fun k j' hk hfor' hses' hcap' hlt => ?_⟩
    · obtain ⟨hrep, hnone⟩ := h.replay_unsent hreg hitem hactive
      exact absurd (hnone _ (hbefore _ (replay_mem_expected.mpr hrep) trivial)) nofun
    · have hin := hbefore (.live j'.chunk) (live_mem_expected.mpr ⟨hlog.known k j' hk, hses', hcap'⟩) hlt
      exact h.once k j' hk hfor' (mem_heard.mp hin).1
  · rintro ⟨hcap, hitems, hothers⟩
    refine ⟨⟨hlog.known l j hl, hses, hcap⟩, fun m hm hlt => ?_⟩
    rcases h.reached_heard hreg hm with hin | ⟨item, hitem, hactive⟩ | ⟨k, j', hk, rfl, hfor'⟩
    · exact hin
    · exact absurd hactive (hitems item hitem)
    · obtain ⟨-, hses', hcap'⟩ := live_mem_expected.mp hm
      exact absurd hlt (hothers k j' hk hfor' hses' hcap')

/-- What each UI has heard is the beginning of what it is to hear. -/
def Ordered (s : State) : Prop :=
  ∀ (i : ℕ) (u : UI), s.uis[i]? = some u → u.heard <+: u.expected s.log

theorem inOrder_send {source : Source} {chunk : Chunk} {targets : List ℕ}
    (hl : s.loops[l]? = some ⟨source, some ⟨chunk, some (i :: targets)⟩⟩) :
    inOrder s (.send l) = true ↔ ∀ u, s.uis[i]? = some u → u.registered = true → chunk.session = u.active →
      u.captured ≤ chunk.serial ∧ (∀ item ∈ u.items, item.1 ≠ u.active) ∧
        ∀ k j, s.jobAt k = some j → j.isFor i = true → j.chunk.session = u.active →
          u.captured ≤ j.chunk.serial → ¬ j.chunk.serial < chunk.serial := by
  have hjobs : ∀ p : Job → Bool, (s.loops.all fun other => other.job.all p) = true ↔
      ∀ k j, s.jobAt k = some j → p j = true := by
    intro p
    rw [List.all_eq_true]
    constructor
    · intro h k j hj
      obtain ⟨lp, hlp, hjob⟩ := Option.bind_eq_some_iff.mp hj
      exact (Option.all_eq_true _ _).mp (h lp (List.mem_of_getElem? hlp)) j hjob
    · intro h lp hlp
      obtain ⟨k, hk⟩ := List.getElem?_of_mem hlp
      rw [Option.all_eq_true]
      exact fun j hj => h k j (by rw [State.jobAt, hk]; exact hj)
  simp only [inOrder, hl, Option.all_eq_true, Bool.or_eq_true, Bool.and_eq_true, hjobs]
  refine forall₂_congr fun u hu => ?_
  by_cases hreg : u.registered = true
  · by_cases hses : chunk.session = u.active
    · simp only [hreg, hses, decide_true, Bool.and_self, Bool.not_true, Bool.false_eq_true, false_or,
        decide_eq_true_eq, List.all_eq_true, Bool.not_eq_true', Bool.and_eq_false_iff, decide_eq_false_iff_not,
        ne_eq, true_implies, and_assoc]
      refine and_congr_right fun _ => and_congr_right fun _ => forall₃_congr fun k j hj => ?_
      cases j.isFor i <;> simp [or_iff_not_imp_left]
    · simp [hses]
  · simp [hreg]

/-- More output is more to hear. -/
theorem expected_append (u : UI) (log : List Chunk) (c : Chunk) : u.expected log <+: u.expected (log ++ [c]) := by
  rw [UI.expected, UI.expected, List.filter_append, List.map_append, ← List.append_assoc]
  exact List.prefix_append _ _

/-- A change of a UI that leaves in order what it hears. -/
theorem ordered_setUI {f : UI → UI} (h : Ordered s)
    (hf : ∀ v, s.uis[i]? = some v → v.heard <+: v.expected s.log → (f v).heard <+: (f v).expected s.log) :
    Ordered (s.setUI i f) := by
  intro k u hu
  obtain ⟨v, hv, rfl⟩ := getElem?_setUI hu
  split_ifs with hik
  · subst hik
    exact hf v hv (h i v hv)
  · exact h k v hv

theorem heard_append (u : UI) (m : Msg) : ({ u with received := u.received ++ [m] } : UI).heard =
    if m.session = u.active then u.heard ++ [m] else u.heard := by
  rw [UI.heard, UI.heard, List.filter_append, List.filter_singleton]
  split_ifs <;> simp_all

/-- The replay is the first that is heard. -/
theorem heard_replay_first (hlog : Logged log jobAt) (h : Follows log jobAt i u) (hreg : u.registered = true)
    (hheard : u.heard <+: u.expected log) {session : ℕ} {data : List UInt8}
    (hitem : (session, data) ∈ u.items) (hactive : session = u.active) :
    u.heard ++ [.replay session data] <+: u.expected log := by
  obtain ⟨hrep, hnone⟩ := h.replay_unsent hreg hitem hactive
  have hnew : Msg.replay session data ∉ u.heard := fun hin => absurd (hnone _ hin) nofun
  rw [append_singleton_prefix_iff Msg.Before.asymm (expected_pairwise hlog u) hheard hnew]
  refine ⟨replay_mem_expected.mpr hrep, fun m _ hbefore => ?_⟩
  cases m <;> exact absurd hbefore id

theorem ordered_of_takes (hT : Tracked s) (h : Ordered s) (ht : Takes s a t) :
    Ordered t ↔ inOrder s a = true := by
  cases ht with
  | startWrapper => exact iff_of_true h rfl
  | startUILoop => exact iff_of_true (ordered_setUI (s := s) h fun v _ hv => hv) rfl
  | addUI active order items hitems =>
    refine iff_of_true (fun k u hu => ?_) rfl
    rw [List.getElem?_append] at hu
    split_ifs at hu with hk
    · exact h k u hu
    · rw [List.getElem?_singleton] at hu
      split_ifs at hu
      obtain rfl := Option.some_inj.mp hu
      exact List.nil_prefix
  | sendSnapshot => exact iff_of_true (ordered_setUI h fun v _ hv => hv) rfl
  | @sendHistory i session u data items hu hitems =>
    refine iff_of_true (ordered_setUI h fun v hv hheard => ?_) rfl
    obtain rfl := Option.some_inj.mp (hu.symm.trans hv)
    have hitem : (session, data) ∈ u.items := hitems ▸ List.mem_cons_self
    cases hreg : u.registered with
    | false => exact hheard
    | true =>
      change ({ u with received := u.received ++ [.replay session data] } : UI).heard <+: u.expected s.log
      rw [heard_append]
      split_ifs with hactive
      · exact heard_replay_first hT.logged (hT.follows i u hu) hreg hheard hitem hactive
      · exact hheard
  | removeUI => exact iff_of_true (ordered_setUI h fun v _ hv => hv) rfl
  | append session data ha hl =>
    have hok : inOrder s a = true := by rcases ha with rfl | rfl <;> rfl
    exact iff_of_true (fun k u hu => (h k u hu).trans (expected_append u s.log _)) hok
  | broadcast => exact iff_of_true h rfl
  | @send l i source chunk targets hl =>
    have hnext : ∀ u, s.uis[i]? = some u → u.registered = true → chunk.session = u.active →
        (u.heard ++ [.live chunk] <+: u.expected s.log ↔ _) := fun u hu hreg hses =>
      heard_live_prefix_iff hT.logged (hT.follows i u hu) hreg (h i u hu) (jobAt_of_loop hl)
        (by simp [Job.isFor]) hses
    -- the UI as it is after the send
    let received : UI → UI := fun u =>
      if u.registered then { u with received := u.received ++ [.live chunk] } else u
    have hheard : ∀ u : UI, (received u).expected s.log = u.expected s.log ∧ (received u).heard =
        if u.registered = true ∧ chunk.session = u.active then u.heard ++ [.live chunk] else u.heard := by
      intro u
      cases hreg : u.registered with
      | false => simp [received, hreg]
      | true =>
        simp only [received, hreg, if_true, true_and]
        exact ⟨rfl, heard_append u _⟩
    rw [inOrder_send hl]
    constructor
    · intro hall u hu hreg hses
      have hafter := hall i (received u) (by
        rw [State.setUI, List.getElem?_modify]
        change (fun a => if i = i then received a else a) <$> s.uis[i]? = _
        rw [hu]
        simp)
      change (received u).heard <+: (received u).expected s.log at hafter
      rw [(hheard u).1, (hheard u).2, if_pos ⟨hreg, hses⟩] at hafter
      exact (hnext u hu hreg hses).mp hafter
    · intro hok
      refine ordered_setUI (s := s.setJob l _) h fun u hu hpre => ?_
      change (received u).heard <+: (received u).expected s.log
      rw [(hheard u).1, (hheard u).2]
      split_ifs with hme
      · exact (hnext u hu hme.1 hme.2).mpr (hok u hu hme.1 hme.2)
      · exact hpre
  | done => exact iff_of_true h rfl

/-! ### Runs -/

/-- Once no message is on its way, all that a UI is to hear has been heard. -/
theorem seamless_iff_ordered (hT : Tracked s) : Seamless s ↔ Ordered s := by
  refine ⟨fun h i u hu => (h i u hu).1, fun h i u hu => ⟨h i u hu, ?_⟩⟩
  rintro ⟨hreg, hitems, hjobs⟩
  have hf := hT.follows i u hu
  refine eq_of_prefix_of_subset Msg.Before.asymm (expected_pairwise hT.logged u) (h i u hu) fun m hm => ?_
  rcases hf.reached_heard hreg hm with hin | ⟨item, hitem, -⟩ | ⟨l, j, hj, rfl, hfor⟩
  · exact hin
  · rw [hitems] at hitem
    cases hitem
  · have hno := hjobs l j hj (live_mem_expected.mp hm).2.1
    rw [hfor] at hno
    cases hno

theorem takes_of_step {es : List Empty} (h : step s a = some (t, es)) : Takes s a t := by
  obtain ⟨u, hu, he⟩ := Option.map_eq_some_iff.mp h
  obtain ⟨rfl, -⟩ := Prod.mk.inj he
  exact takes_of_move hu

theorem tracked_initial (ptyBufs : List (List UInt8)) : Tracked (.initial ptyBufs) := by
  have hno : ∀ l, (State.initial ptyBufs).jobAt l = none := fun l => rfl
  refine ⟨⟨List.Pairwise.nil, fun c hc => ?_, fun l j hj => ?_, fun k l i j hk => ?_, fun l j ts hj => ?_⟩,
    fun i u hu => ?_⟩
  · cases hc
  · rw [hno] at hj
    cases hj
  · rw [hno] at hk
    cases hk
  · rw [hno] at hj
    cases hj
  · cases hu

/-- In every state on the way each UI has received its replay and the chunks after it in
order, without a gap and none twice, exactly when each send meets the condition. -/
theorem seamless_iff_inOrder (ptyBufs : List (List UInt8)) (as : List Action) (s : State) (es : List Empty)
    (hx : exec step (.initial ptyBufs) as = some (s, es)) :
    (∀ bs, bs <+: as → ∀ t fs, exec step (.initial ptyBufs) bs = some (t, fs) → Seamless t) ↔
      Meets step (fun s a => inOrder s a = true) (.initial ptyBufs) as := by
  have hstep : ∀ (h : List Empty) s a t es, Tracked s ∧ Ordered s → step s a = some (t, es) →
      (Tracked t ∧ Ordered t ↔ inOrder s a = true) := by
    intro h s a t es hs ht
    have htakes := takes_of_step ht
    rw [← ordered_of_takes hs.1 hs.2 htakes]
    exact and_iff_right (tracked_of_takes hs.1 htakes)
  rw [← forall_prefix_iff_meets hstep (h := []) ⟨tracked_initial ptyBufs, fun i u hu => by cases hu⟩ hx]
  have hT : ∀ bs t fs, exec step (.initial ptyBufs) bs = some (t, fs) → Tracked t := fun bs t fs ht =>
    exec_keeps (fun _ _ _ _ h hs => tracked_of_takes h (takes_of_step hs)) (tracked_initial ptyBufs) ht
  refine forall₂_congr fun bs _ => forall₃_congr fun t fs ht => ?_
  rw [seamless_iff_ordered (hT bs t fs ht)]
  exact (and_iff_right (hT bs t fs ht)).symm

/-- A UI connects between two chunks. -/
def quietConnect : List Action :=
  [.startWrapper 0, .chunk 0 [65], .broadcast 0 [], .broadcastDone 0, .addUIWithHistory 0 [0], .chunk 0 [66],
    .sendSnapshot 0, .sendHistory 0, .broadcast 0 [0], .send 0, .broadcastDone 0]

def quietlyConnected : State :=
  ⟨[[65, 66]], [⟨0, true, true, [], false, [.replay 0 [65], .live ⟨1, 0, [66]⟩], [65], 1⟩],
    [⟨.wrapper 0, none⟩], [⟨0, 0, [65]⟩, ⟨1, 0, [66]⟩]⟩

theorem quietConnect_seamless :
    exec step (.initial [[]]) quietConnect = some (quietlyConnected, []) ∧ Seamless quietlyConnected := by
  have hx : exec step (.initial [[]]) quietConnect = some (quietlyConnected, []) := by decide
  have hall := (seamless_iff_inOrder [[]] quietConnect quietlyConnected [] hx).mpr (by decide)
  exact ⟨hx, hall quietConnect List.prefix_rfl quietlyConnected [] hx⟩

/-- A UI that is registered between the append of a chunk and its broadcast gets it in the
replay and again. -/
def connectBeforeBroadcast : List Action :=
  [.startWrapper 0, .chunk 0 [65], .addUIWithHistory 0 [0], .sendSnapshot 0, .sendHistory 0, .broadcast 0 [0],
    .send 0]

theorem connectBeforeBroadcast_twice : ¬ ∀ (ptyBufs : List (List UInt8)) (as : List Action) (s : State)
    (es : List Empty), exec step (.initial ptyBufs) as = some (s, es) → Seamless s := by
  intro h
  have hs := h [[]] connectBeforeBroadcast
    ⟨[[65]], [⟨0, true, true, [], false, [.replay 0 [65], .live ⟨0, 0, [65]⟩], [65], 1⟩],
      [⟨.wrapper 0, some ⟨⟨0, 0, [65]⟩, some []⟩⟩], [⟨0, 0, [65]⟩]⟩ [] (by decide)
  exact absurd (hs 0 _ rfl).1 (by decide)

end ManyAiCli.Hub.PtyStream
