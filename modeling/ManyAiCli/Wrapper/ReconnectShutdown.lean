import ManyAiCli.Wrapper.Reconnect

/-! Shutdowns the Hub has announced. Receive loops and the supervisor share one flag;
the supervisor takes it down after it has started the loop of a new connection. An
announced loss is taken for one as long as the new connection's loop has heard of no
shutdown by then. -/

namespace ManyAiCli.Wrapper

open Runs

namespace State

variable {cfg : Config} {s t : State}

def lastAnnounced (s : State) : Bool := s.conns.getLast?.any (·.announced)

/-- An announced loss counts as intentional and ends the process only when there is no
time to reconnect. -/
def AnnouncedKept (cfg : Config) (es : List Event) : Prop :=
  ∀ intentional outcome, Event.loss true intentional outcome ∈ es →
    intentional = true ∧ outcome ≠ .hubAlive ∧ outcome ≠ .autoShutdown ∧
      (0 < cfg.graceSec → outcome = .reconnecting)

/-- The flag is taken down before the new connection announces a shutdown. -/
def keepsFlag (s : State) : Action → Bool
  | .storeIntentional => !s.lastAnnounced
  | _ => true

structure FlagInv (cfg : Config) (es : List Event) (s : State) : Prop where
  kept : AnnouncedKept cfg es
  flag : s.supervisor = .waiting → s.lastAnnounced = true → s.intentional = true

/-- A step that neither announces a shutdown nor takes the flag down. -/
structure FlagKeeps (s t : State) : Prop where
  supervisor : t.supervisor = .waiting → s.supervisor = .waiting
  announced : t.supervisor = .waiting → t.lastAnnounced = s.lastAnnounced
  intentional : t.intentional = s.intentional

theorem FlagInv.keeps {es : List Event} (hi : FlagInv cfg es s) (h : FlagKeeps s t) :
    FlagInv cfg (es ++ []) t := by
  refine ⟨by rw [List.append_nil]; exact hi.kept, fun hw ha => ?_⟩
  rw [h.intentional]
  exact hi.flag (h.supervisor hw) (h.announced hw ▸ ha)

theorem getLast?_any_modify {l : List Conn} {c : ℕ} {f : Conn → Conn}
    (hf : ∀ conn, (f conn).announced = conn.announced) :
    (l.modify c f).getLast?.any (·.announced) = l.getLast?.any (·.announced) := by
  rw [List.getLast?_eq_getElem?, List.getLast?_eq_getElem?, List.length_modify, List.getElem?_modify]
  cases l[l.length - 1]? with
  | none => rfl
  | some conn =>
    simp only [Option.any_some]
    split_ifs
    · exact hf conn
    · rfl

theorem flagKeeps_setConn {c : ℕ} {f : Conn → Conn} {notified : Bool} {current : Option ℕ}
    (hf : ∀ conn, (f conn).announced = conn.announced) :
    FlagKeeps s { s.setConn c f with notified := notified, currentConn := current } :=
  ⟨id, fun _ => getLast?_any_modify hf, rfl⟩

theorem flagKeeps_of_eq (hs : t.supervisor = .waiting → s.supervisor = .waiting) (hc : t.conns = s.conns)
    (hn : t.intentional = s.intentional) : FlagKeeps s t :=
  ⟨hs, fun _ => by rw [lastAnnounced, lastAnnounced, hc], hn⟩

/-- An intentional shutdown leads to a reconnect when there is time for one. -/
theorem outcome_of_intentional (h : s.intentional = true) (hubAlive : Bool) :
    s.outcome cfg hubAlive ≠ .hubAlive ∧ s.outcome cfg hubAlive ≠ .autoShutdown ∧
      (0 < cfg.graceSec → s.outcome cfg hubAlive = .reconnecting) := by
  simp only [outcome, h, Bool.not_true, Bool.false_and, Bool.false_eq_true, if_false]
  split_ifs with hg
  · exact ⟨by simp, by simp, fun hpos => absurd hg (by omega)⟩
  · exact ⟨by simp, by simp, fun _ => rfl⟩

theorem flagInv_step (es : List Event) (s : State) (a : Action) (t : State) (es' : List Event)
    (hi : FlagInv cfg es s) (hok : s.keepsFlag a) (h : s.step cfg a = some (t, es')) :
    FlagInv cfg (es ++ es') t := by
  cases takes_of_step h with
  | wake hubAlive hw =>
    refine ⟨fun intentional outcome hm => ?_, fun hw' => ?_⟩
    · rcases List.mem_append.1 hm with hm | hm
      · exact hi.kept intentional outcome hm
      · obtain ⟨ha, rfl, rfl⟩ : s.lastAnnounced = true ∧ intentional = s.intentional ∧
            outcome = s.outcome cfg hubAlive := by simpa [lastAnnounced] using hm
        have hint := hi.flag hw ha
        exact ⟨hint, outcome_of_intentional hint hubAlive⟩
    · dsimp only at hw'
      split_ifs at hw'
  | hubShutdown c => exact ⟨by rw [List.append_nil]; exact hi.kept, fun _ _ => rfl⟩
  | storeIntentional =>
    refine ⟨by rw [List.append_nil]; exact hi.kept, fun _ ha => ?_⟩
    have hna : s.lastAnnounced = false := by simpa [keepsFlag] using hok
    exact absurd (hna.symm.trans ha) (by simp)
  | produce chunk => exact hi.keeps (flagKeeps_of_eq id rfl rfl)
  | dropped chunk => exact hi.keeps (flagKeeps_of_eq id rfl rfl)
  | sent chunk c => exact hi.keeps ⟨id, fun _ => getLast?_any_modify fun _ => rfl, rfl⟩
  | pumpEnd => exact hi.keeps (flagKeeps_of_eq id rfl rfl)
  | closeAnyConn => exact hi.keeps (flagKeeps_of_eq id rfl rfl)
  | lose c => exact hi.keeps (flagKeeps_setConn fun _ => rfl)
  | readError c => exact hi.keeps (flagKeeps_setConn fun _ => rfl)
  | recover c => exact hi.keeps (flagKeeps_setConn fun _ => rfl)
  | clearConn c => exact hi.keeps (flagKeeps_setConn fun _ => rfl)
  | notifyReconnect c => exact hi.keeps (flagKeeps_setConn fun _ => rfl)
  | expire => exact hi.keeps (flagKeeps_of_eq (by simp) rfl rfl)
  | snapshotReplay => exact hi.keeps (flagKeeps_of_eq (by simp) rfl rfl)
  | dialFail => exact hi.keeps (flagKeeps_of_eq (by simp) rfl rfl)
  | reject => exact hi.keeps (flagKeeps_of_eq (by simp) rfl rfl)
  | dialAndReattach => exact hi.keeps (flagKeeps_of_eq (by simp) rfl rfl)
  | loseDialed => exact hi.keeps (flagKeeps_of_eq (by simp) rfl rfl)
  | swapConn => exact hi.keeps ⟨by simp, by simp, rfl⟩
  | startReceiveLoop => exact hi.keeps ⟨by simp, by simp, rfl⟩
  | quit => exact hi.keeps (flagKeeps_of_eq (by simp) rfl rfl)

theorem flagInv_registered (cfg : Config) : FlagInv cfg [] registered :=
  ⟨fun _ _ hm => (List.not_mem_nil hm).elim, fun _ ha => absurd ha (by decide)⟩

/-! ### Whose loss it is -/

/-- What the last connection's loop is doing, by the supervisor's place. -/
def LastLoop (loop : Loop) (notified : Bool) : Supervisor → Prop
  | .waiting | .started => notified = true → loop = .ended
  | .swapped => notified = false ∧ loop = .unstarted
  | .retrying | .dialing _ _ | .dialed _ _ _ => notified = false ∧ loop = .ended
  | .closed => True

/-- The loops of all connections but the last have ended. -/
structure LoopInv (s : State) : Prop where
  pos : 0 < s.conns.length
  earlier : ∀ c conn, s.conns[c]? = some conn → c + 1 < s.conns.length → conn.loop = .ended
  last : ∀ c conn, s.conns[c]? = some conn → c + 1 = s.conns.length →
    LastLoop conn.loop s.notified s.supervisor

theorem LoopInv.of_eq (hi : LoopInv s) (hc : t.conns = s.conns)
    (hl : ∀ loop, LastLoop loop s.notified s.supervisor → LastLoop loop t.notified t.supervisor) :
    LoopInv t := by
  refine ⟨hc ▸ hi.pos, fun c conn hconn hlt => ?_, fun c conn hconn hlen => hl _ ?_⟩
  · rw [hc] at hconn hlt
    exact hi.earlier c conn hconn hlt
  · rw [hc] at hconn hlen
    exact hi.last c conn hconn hlen

/-- A change of one connection. -/
theorem LoopInv.modify {k : ℕ} {f : Conn → Conn} (hi : LoopInv s) (hc : t.conns = s.conns.modify k f)
    (hk : ∀ conn, s.conns[k]? = some conn → k + 1 < s.conns.length → (f conn).loop = .ended)
    (hl : ∀ c conn, s.conns[c]? = some conn → c + 1 = s.conns.length →
      LastLoop (if k = c then f conn else conn).loop t.notified t.supervisor) : LoopInv t := by
  refine ⟨by rw [hc, List.length_modify]; exact hi.pos, fun c conn hconn hlt => ?_,
    fun c conn hconn hlen => ?_⟩
  · rw [hc, List.getElem?_modify] at hconn
    rw [hc, List.length_modify] at hlt
    obtain ⟨old, hold, rfl⟩ := Option.map_eq_some_iff.1 hconn
    split_ifs with hkc
    · subst hkc
      exact hk old hold hlt
    · exact hi.earlier c old hold hlt
  · rw [hc, List.getElem?_modify] at hconn
    rw [hc, List.length_modify] at hlen
    obtain ⟨old, hold, rfl⟩ := Option.map_eq_some_iff.1 hconn
    have := hl c old hold hlen
    split_ifs at this ⊢ <;> exact this

theorem LoopInv.modify_keeps {k : ℕ} {f : Conn → Conn} (hi : LoopInv s) (hc : t.conns = s.conns.modify k f)
    (hf : ∀ conn, (f conn).loop = conn.loop) (hn : t.notified = s.notified)
    (hs : t.supervisor = s.supervisor) : LoopInv t := by
  refine hi.modify hc (fun conn hconn hlt => (hf conn).trans (hi.earlier k conn hconn hlt))
    fun c conn hconn hlen => ?_
  rw [hn, hs]
  split_ifs
  · rw [hf]
    exact hi.last c conn hconn hlen
  · exact hi.last c conn hconn hlen

/-- A loop goes on: it is the last one, and has not notified before. -/
theorem LoopInv.loop {k : ℕ} {before : Loop} {f : Conn → Conn} (hi : LoopInv s) (hat : s.loopAt k before)
    (hb : before ≠ .ended ∧ before ≠ .unstarted) (hc : t.conns = s.conns.modify k f)
    (hs : t.supervisor = s.supervisor)
    (hf : t.notified = s.notified ∨ ∀ conn, (f conn).loop = .ended) : LoopInv t := by
  obtain ⟨old, hold, hloop⟩ := hat
  have hlt := (List.getElem?_eq_some_iff.1 hold).1
  have hlast : k + 1 = s.conns.length := by
    by_contra hne
    exact hb.1 (hloop.symm.trans (hi.earlier k old hold (by omega)))
  refine hi.modify hc (fun _ _ h => absurd h (by omega)) fun c conn hconn hlen => ?_
  obtain rfl : k = c := by omega
  rw [if_pos rfl, hs]
  have hl := hi.last k old hold hlast
  rw [hloop] at hl
  cases hsup : s.supervisor with
  | waiting | started =>
    rw [hsup] at hl
    intro hn
    rcases hf with hf | hf
    · exact absurd (hl (hf ▸ hn)) hb.1
    · exact hf conn
  | swapped =>
    rw [hsup] at hl
    exact absurd hl.2 hb.2
  | retrying | dialing _ _ | dialed _ _ _ =>
    rw [hsup] at hl
    exact absurd hl.2 hb.1
  | closed => trivial

theorem loopInv_step (s : State) (a : Action) (t : State) (es : List Event)
    (hi : LoopInv s) (h : s.step cfg a = some (t, es)) : LoopInv t := by
  cases takes_of_step h with
  | produce chunk => exact hi.of_eq rfl fun _ => id
  | dropped chunk => exact hi.of_eq rfl fun _ => id
  | sent chunk c => exact hi.modify_keeps rfl (fun _ => rfl) rfl rfl
  | pumpEnd => exact hi.of_eq rfl fun _ => id
  | closeAnyConn => exact hi.of_eq rfl fun _ => id
  | lose c => exact hi.modify_keeps rfl (fun _ => rfl) rfl rfl
  | readError c hat => exact hi.loop hat (by simp) rfl rfl (.inl rfl)
  | recover c hat => exact hi.loop hat (by simp) rfl rfl (.inl rfl)
  | hubShutdown c hat => exact hi.loop hat (by simp) rfl rfl (.inl rfl)
  | clearConn c hat => exact hi.loop hat (by simp) rfl rfl (.inl rfl)
  | notifyReconnect c hat => exact hi.loop hat (by simp) rfl rfl (.inr fun _ => rfl)
  | wake hubAlive hw hn =>
    refine hi.of_eq rfl fun loop hl => ?_
    rw [hw, hn] at hl
    dsimp only
    split_ifs
    · exact ⟨rfl, hl rfl⟩
    · trivial
  | expire => exact hi.of_eq rfl fun _ _ => trivial
  | snapshotReplay hs => exact hi.of_eq rfl fun _ hl => by rw [hs] at hl; exact hl
  | dialFail replay snapped hs => exact hi.of_eq rfl fun _ hl => by rw [hs] at hl; exact hl
  | reject => exact hi.of_eq rfl fun _ _ => trivial
  | dialAndReattach replay snapped hs => exact hi.of_eq rfl fun _ hl => by rw [hs] at hl; exact hl
  | loseDialed replay snapped lost hs => exact hi.of_eq rfl fun _ hl => by rw [hs] at hl; exact hl
  | swapConn replay snapped lost hs =>
    have hold (c : ℕ) (conn : Conn) (hc : s.conns[c]? = some conn) :
        conn.loop = .ended ∧ (c + 1 = s.conns.length → s.notified = false) := by
      have hlt := (List.getElem?_eq_some_iff.1 hc).1
      rcases Nat.lt_or_ge (c + 1) s.conns.length with h | h
      · exact ⟨hi.earlier c conn hc h, fun he => absurd he (by omega)⟩
      · have hl := hi.last c conn hc (by omega)
        rw [hs] at hl
        exact ⟨hl.2, fun _ => hl.1⟩
    refine ⟨by simp, fun c conn hconn hlt => ?_, fun c conn hconn hlen => ?_⟩
    · rw [List.length_append, List.length_singleton] at hlt
      rw [List.getElem?_append_left (by omega)] at hconn
      exact (hold c conn hconn).1
    · rw [List.length_append, List.length_singleton] at hlen
      obtain rfl : c = s.conns.length := by omega
      have hpos := hi.pos
      obtain ⟨prev, hprev⟩ : ∃ prev, s.conns[s.conns.length - 1]? = some prev :=
        ⟨_, List.getElem?_eq_getElem (by omega)⟩
      rw [List.getElem?_append_right (Nat.le_refl _), Nat.sub_self] at hconn
      cases hconn
      exact ⟨(hold _ prev hprev).2 (by omega), rfl⟩
  | startReceiveLoop hs =>
    refine hi.modify rfl (fun _ _ h => absurd h (by omega)) fun c conn hconn hlen => ?_
    rw [if_pos (by omega)]
    have hl := hi.last c conn hconn hlen
    rw [hs] at hl
    intro hn
    exact absurd (hl.1.symm.trans hn) (by simp)
  | storeIntentional hs => exact hi.of_eq rfl fun _ hl => by rw [hs] at hl; exact hl
  | quit => exact hi.of_eq rfl fun _ _ => trivial

theorem loopInv_registered : LoopInv registered := by
  refine ⟨by decide, fun c conn _ hlt => absurd hlt ?_, fun c conn _ _ hn => ?_⟩
  · simp [registered]
  · cases hn

/-- When the supervisor wakes, the loop of every connection has ended, so the loss it
sees to is that of the last one, and nobody else touches the flag. -/
theorem loops_ended_at_wake {as : List Action} {es : List Event}
    (hx : exec (step cfg) registered as = some (t, es)) (hw : t.supervisor = .waiting)
    (hn : t.notified = true) : ∀ conn ∈ t.conns, conn.loop = .ended := by
  have hi : LoopInv t := exec_keeps loopInv_step loopInv_registered hx
  intro conn hmem
  obtain ⟨c, hc⟩ := List.mem_iff_getElem?.1 hmem
  have hlt := (List.getElem?_eq_some_iff.1 hc).1
  rcases Nat.lt_or_ge (c + 1) t.conns.length with h | h
  · exact hi.earlier c conn hc h
  · have hl := hi.last c conn hc (by omega)
    rw [hw] at hl
    exact hl hn

/-! ### Announced shutdowns -/

/-- An announced shutdown of the Hub does not end the session, as long as no new
connection announces one before the flag of the last is down. -/
theorem announced_shutdown_kept {as : List Action} {es : List Event}
    (hx : exec (step cfg) registered as = some (t, es))
    (hm : Meets (step cfg) (fun s a => s.keepsFlag a) registered as) : AnnouncedKept cfg es :=
  (exec_invariant flagInv_step (flagInv_registered cfg) hm hx).kept

/-- The Hub shuts down; the wrapper reconnects, up to the start of the new loop. -/
def shutsDown (c : ℕ) : List Action := [.hubShutdown c, .clearConn c, .notifyReconnect c]

def restarts : List Action :=
  [.wake false, .snapshotReplay, .dialAndReattach, .swapConn, .startReceiveLoop]

/-- Two shutdowns in turn. -/
theorem announced_shutdown_kept_twice :
    ∃ s, exec (step ⟨true, 60⟩) registered
        (shutsDown 0 ++ restarts ++ [.storeIntentional] ++ shutsDown 1 ++ [.wake true]) =
      some (s, [.loss true true .reconnecting, .loss true true .reconnecting]) ∧
    AnnouncedKept ⟨true, 60⟩ [.loss true true .reconnecting, .loss true true .reconnecting] :=
  ⟨_, rfl, announced_shutdown_kept
    (rfl : exec (step ⟨true, 60⟩) registered
      (shutsDown 0 ++ restarts ++ [.storeIntentional] ++ shutsDown 1 ++ [.wake true]) = some (_, _))
    (by decide)⟩

/-- A shutdown that is announced right after the reconnect is forgotten: the process is
ended. -/
theorem announced_shutdown_forgotten :
    ¬ ∀ cfg as s es, exec (step cfg) registered as = some (s, es) → AnnouncedKept cfg es := by
  intro h
  have hk := h ⟨true, 60⟩
    (shutsDown 0 ++ restarts ++ shutsDown 1 ++ [.storeIntentional, .wake false]) _ _ rfl
  exact absurd (hk false .autoShutdown (by decide)).1 (by decide)

end State

end ManyAiCli.Wrapper
