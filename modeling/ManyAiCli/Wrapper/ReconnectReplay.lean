import ManyAiCli.Text.Slice
import ManyAiCli.Wrapper.Reconnect
import Mathlib.Data.List.Infix

/-! Output across a reconnect. What a new connection brings the Hub, the replay and
then each chunk, is the end of the output as long as the chunks that have been sent by
the swap are those that were in the snapshot: a chunk that comes in after the snapshot
must not be sent before the swap, and one that is in the snapshot must be. -/

namespace ManyAiCli.Wrapper

open Runs

/-- The replay that is on its way to the Hub. -/
def Supervisor.snapshot : Supervisor → Option (List UInt8 × ℕ)
  | .dialing replay snapped => some (replay, snapped)
  | .dialed replay snapped _ => some (replay, snapped)
  | _ => none

/-- A change of a connection that leaves what it brought. -/
def Conn.Keeps (f : Conn → Conn) : Prop :=
  ∀ conn, (f conn).stream = conn.stream ∧ (f conn).snapped = conn.snapped ∧ (f conn).since = conn.since ∧
    (conn.lost = true → (f conn).lost = true)

namespace State

variable {cfg : Config} {s t : State}

/-- Each connection brings a stretch of the output; the current one the end of it,
from before the first byte that has not been carried yet, when the replay has room
for that. -/
structure Whole (s : State) : Prop where
  stretch : ∀ conn ∈ s.conns, conn.stream <:+: s.pumped
  latest : ∀ c conn, s.currentConn = some c → s.conns[c]? = some conn → conn.lost = false →
    conn.stream <:+ s.pumped
  gap : ∀ c conn, s.currentConn = some c → s.conns[c]? = some conn → conn.lost = false →
    conn.snapped ≤ conn.since + replayBufferLimit → s.pumped.length ≤ conn.since + conn.stream.length

/-- At the swap, the output that has been sent is what the snapshot had. -/
def swapsWhole (s : State) : Action → Bool
  | .swapConn =>
    match s.supervisor with
    | .dialed _ snapped _ => s.pumped.length = snapped
    | _ => true
  | _ => true

structure OutputInv (s : State) : Prop extends Whole s where
  replay : s.replayBuf = s.output.rtake replayBufferLimit
  snapshot : ∀ replay snapped, s.supervisor.snapshot = some (replay, snapped) →
    snapped ≤ s.output.length ∧ replay = (s.output.take snapped).rtake replayBufferLimit
  carried : ∀ c conn, s.currentConn = some c → s.conns[c]? = some conn → conn.lost = false →
    s.carried = s.pumped.length

/-! ### Steps that move no output -/

structure Calm (s t : State) : Prop where
  pumped : t.pumped = s.pumped
  inHand : t.inHand = s.inHand
  replayBuf : t.replayBuf = s.replayBuf
  carried : t.carried = s.carried
  supervisor : t.supervisor.snapshot = s.supervisor.snapshot ∨
    t.supervisor.snapshot = none
  currentConn : ∀ c, t.currentConn = some c → s.currentConn = some c
  conns : ∃ c f, t.conns = s.conns.modify c f ∧ Conn.Keeps f

theorem Calm.output (h : Calm s t) : t.output = s.output := by
  rw [State.output, State.output, h.pumped, h.inHand]

theorem Calm.conn (h : Calm s t) {c : ℕ} {conn : Conn} (hc : t.conns[c]? = some conn) :
    ∃ conn', s.conns[c]? = some conn' ∧ conn.stream = conn'.stream ∧ conn.snapped = conn'.snapped ∧
      conn.since = conn'.since ∧ (conn.lost = false → conn'.lost = false) := by
  obtain ⟨k, f, hs, hf⟩ := h.conns
  rw [hs, List.getElem?_modify] at hc
  obtain ⟨conn', hc', rfl⟩ := Option.map_eq_some_iff.1 hc
  refine ⟨conn', hc', ?_⟩
  split_ifs
  · obtain ⟨h₁, h₂, h₃, h₄⟩ := hf conn'
    refine ⟨h₁, h₂, h₃, fun hl => ?_⟩
    by_contra hn
    rw [h₄ (by simpa using hn)] at hl
    cases hl
  · exact ⟨rfl, rfl, rfl, id⟩

theorem OutputInv.calm (hi : OutputInv s) (h : Calm s t) : OutputInv t where
  stretch conn hm := by
    obtain ⟨c, hc⟩ := List.mem_iff_getElem?.1 hm
    obtain ⟨conn', hc', hs, -⟩ := h.conn hc
    rw [hs, h.pumped]
    exact hi.stretch conn' (List.mem_of_getElem? hc')
  latest c conn hcur hc hl := by
    obtain ⟨conn', hc', hs, -, -, hl'⟩ := h.conn hc
    rw [hs, h.pumped]
    exact hi.latest c conn' (h.currentConn c hcur) hc' (hl' hl)
  gap c conn hcur hc hl := by
    obtain ⟨conn', hc', hs, hsn, hsi, hl'⟩ := h.conn hc
    rw [hs, hsn, hsi, h.pumped]
    exact hi.gap c conn' (h.currentConn c hcur) hc' (hl' hl)
  replay := by rw [h.replayBuf, h.output, hi.replay]
  snapshot replay snapped hsn := by
    rw [h.output]
    rcases h.supervisor with he | he
    · exact hi.snapshot replay snapped (he ▸ hsn)
    · rw [he] at hsn
      cases hsn
  carried c conn hcur hc hl := by
    obtain ⟨conn', hc', -, -, -, hl'⟩ := h.conn hc
    rw [h.carried, h.pumped]
    exact hi.carried c conn' (h.currentConn c hcur) hc' (hl' hl)

theorem Conn.keeps_of_eq {f : Conn → Conn} (h : ∀ conn, (f conn).stream = conn.stream ∧
    (f conn).snapped = conn.snapped ∧ (f conn).since = conn.since ∧ (f conn).lost = conn.lost) :
    Conn.Keeps f := fun conn =>
  ⟨(h conn).1, (h conn).2.1, (h conn).2.2.1, fun hl => by rw [(h conn).2.2.2, hl]⟩

/-- One connection changes, not in what it brought, and the supervisor goes on. -/
theorem calm_setConn {c : ℕ} {f : Conn → Conn} {current : Option ℕ} {intentional notified ended done : Bool}
    {sup : Supervisor} (hf : Conn.Keeps f) (hcur : current = s.currentConn ∨ current = none)
    (hsup : sup.snapshot = s.supervisor.snapshot ∨ sup.snapshot = none) :
    Calm s { s with
      conns := s.conns.modify c f
      currentConn := current
      intentional := intentional
      notified := notified
      supervisor := sup
      ended := ended
      done := done } := by
  refine ⟨rfl, rfl, rfl, rfl, hsup, fun k hk => ?_, c, f, rfl, hf⟩
  rcases hcur with rfl | rfl
  · exact hk
  · cases hk

theorem calm_supervisor {current : Option ℕ} {sup : Supervisor} {intentional notified ended done : Bool}
    (hcur : current = s.currentConn ∨ current = none)
    (hsup : sup.snapshot = s.supervisor.snapshot ∨ sup.snapshot = none) :
    Calm s { s with
      currentConn := current
      intentional := intentional
      notified := notified
      supervisor := sup
      ended := ended
      done := done } := by
  have h := @calm_setConn s 0 id current intentional notified ended done sup
    (Conn.keeps_of_eq fun _ => ⟨rfl, rfl, rfl, rfl⟩) hcur hsup
  rwa [List.modify_id] at h

theorem calm_step {a : Action} {es : List Event} (h : Takes cfg s a t es)
    (hp : ∀ chunk, a ≠ .produce chunk) (hs : a ≠ .sendMsg) (hsn : a ≠ .snapshotReplay) (hw : a ≠ .swapConn) :
    Calm s t := by
  have hloop {l : Conn → Loop} : Conn.Keeps fun conn => { conn with loop := l conn } :=
    Conn.keeps_of_eq fun _ => ⟨rfl, rfl, rfl, rfl⟩
  cases h with
  | produce chunk => exact absurd rfl (hp chunk)
  | dropped => exact absurd rfl hs
  | sent => exact absurd rfl hs
  | snapshotReplay => exact absurd rfl hsn
  | swapConn => exact absurd rfl hw
  | pumpEnd => exact calm_supervisor (.inl rfl) (.inl rfl)
  | closeAnyConn => exact calm_supervisor (.inr rfl) (.inl rfl)
  | lose c => exact calm_setConn (fun _ => ⟨rfl, rfl, rfl, fun _ => rfl⟩) (.inl rfl) (.inl rfl)
  | readError c => exact calm_setConn hloop (.inl rfl) (.inl rfl)
  | recover c => exact calm_setConn hloop (.inl rfl) (.inl rfl)
  | hubShutdown c => exact calm_setConn (Conn.keeps_of_eq fun _ => ⟨rfl, rfl, rfl, rfl⟩) (.inl rfl) (.inl rfl)
  | clearConn c =>
    refine calm_setConn hloop ?_ (.inl rfl)
    split_ifs
    · exact .inr rfl
    · exact .inl rfl
  | notifyReconnect c => exact calm_setConn hloop (.inl rfl) (.inl rfl)
  | wake hubAlive =>
    refine calm_supervisor (.inl rfl) (.inr ?_)
    split_ifs <;> rfl
  | expire => exact calm_supervisor (.inl rfl) (.inr rfl)
  | dialFail => exact calm_supervisor (.inl rfl) (.inr rfl)
  | reject => exact calm_supervisor (.inl rfl) (.inr rfl)
  | dialAndReattach replay snapped hsup => exact calm_supervisor (.inl rfl) (.inl (by rw [hsup]; rfl))
  | loseDialed replay snapped lost hsup => exact calm_supervisor (.inl rfl) (.inl (by rw [hsup]; rfl))
  | startReceiveLoop => exact calm_setConn hloop (.inl rfl) (.inr rfl)
  | storeIntentional => exact calm_supervisor (.inl rfl) (.inr rfl)
  | quit => exact calm_supervisor (.inl rfl) (.inr rfl)

/-! ### Steps that move output -/

theorem OutputInv.produce {chunk : List UInt8} (hi : OutputInv s) (hh : s.inHand = none) :
    OutputInv { s with replayBuf := appendReplay s.replayBuf chunk, inHand := some chunk } := by
  have hout : State.output
      { s with replayBuf := appendReplay s.replayBuf chunk, inHand := some chunk } = s.output ++ chunk := by
    simp [State.output, hh]
  refine ⟨⟨hi.stretch, hi.latest, hi.gap⟩, ?_, fun replay snapped hsn => ?_, hi.carried⟩
  · rw [hout, appendReplay, hi.replay, Text.rtake_rtake_append]
  · obtain ⟨hle, he⟩ := hi.snapshot replay snapped hsn
    rw [hout, List.length_append, List.take_append_of_le_length hle]
    exact ⟨by omega, he⟩

theorem OutputInv.snapshotReplay (hi : OutputInv s) :
    OutputInv { s with supervisor := .dialing s.replayBuf s.output.length } := by
  refine ⟨⟨hi.stretch, hi.latest, hi.gap⟩, hi.replay, fun replay snapped hsn => ?_, hi.carried⟩
  cases hsn
  refine ⟨Nat.le_refl _, ?_⟩
  have htake : s.output.take s.output.length = s.output := List.take_length
  exact hi.replay.trans (congrArg (fun l => l.rtake replayBufferLimit) htake.symm)

theorem OutputInv.swapConn {replay : List UInt8} {snapped : ℕ} {lost : Bool} (hi : OutputInv s)
    (hsup : s.supervisor = .dialed replay snapped lost) (hok : s.swapsWhole .swapConn) :
    OutputInv { s with
      conns := s.conns ++ [⟨.unstarted, false, lost, replay, snapped, s.carried⟩]
      currentConn := some s.conns.length
      carried := snapped
      supervisor := .swapped } := by
  obtain ⟨hle, hrep⟩ := hi.snapshot replay snapped (by rw [hsup]; rfl)
  -- what has been sent is what the snapshot had
  have hpump : s.pumped.length = snapped := by simpa [swapsWhole, hsup] using hok
  have htake : s.output.take snapped = s.pumped := by
    rw [State.output, ← hpump, List.take_left]
  rw [htake] at hrep
  have hsuf : replay <:+ s.pumped := hrep ▸ Text.rtake_suffix _ _
  have hlast (c : ℕ) (conn : Conn) (hc : some s.conns.length = some c)
      (hconn : (s.conns ++ [⟨.unstarted, false, lost, replay, snapped, s.carried⟩])[c]? = some conn) :
      conn = ⟨.unstarted, false, lost, replay, snapped, s.carried⟩ := by
    cases hc
    simpa using hconn.symm
  refine ⟨⟨fun conn hm => ?_, fun c conn hc hconn _ => ?_, fun c conn hc hconn _ hfit => ?_⟩, hi.replay,
    (fun _ _ hsn => by cases hsn), fun _ _ _ _ _ => hpump.symm⟩
  · rcases List.mem_append.1 hm with hm | hm
    · exact hi.stretch conn hm
    · obtain rfl := List.mem_singleton.1 hm
      exact hsuf.isInfix
  · rw [hlast c conn hc hconn]
    exact hsuf
  · rw [hlast c conn hc hconn] at hfit ⊢
    rw [hrep, Text.length_rtake]
    dsimp only at hfit ⊢
    omega

/-- The chunk in hand has been sent, and dropped on the way. -/
theorem OutputInv.dropped {chunk : List UInt8} (hi : OutputInv s) (hh : s.inHand = some chunk)
    (hc : ∀ c, ¬ s.alive c) : OutputInv { s with pumped := s.pumped ++ chunk, inHand := none } := by
  have hout : State.output { s with pumped := s.pumped ++ chunk, inHand := none } = s.output := by
    simp [State.output, hh]
  have habs (c : ℕ) (conn : Conn) (hcur : s.currentConn = some c) (hconn : s.conns[c]? = some conn)
      (hl : conn.lost = false) : False := hc c ⟨hcur, conn, hconn, hl⟩
  refine ⟨⟨fun conn hm => (hi.stretch conn hm).trans (List.prefix_append _ _).isInfix, ?_, ?_⟩, ?_, ?_, ?_⟩
  · exact fun c conn hcur hconn hl => (habs c conn hcur hconn hl).elim
  · exact fun c conn hcur hconn hl => (habs c conn hcur hconn hl).elim
  · rw [hout]
    exact hi.replay
  · rw [hout]
    exact hi.snapshot
  · exact fun c conn hcur hconn hl => (habs c conn hcur hconn hl).elim

theorem suffix_append_append {l m c : List UInt8} (h : l <:+ m) : l ++ c <:+ m ++ c := by
  obtain ⟨pre, rfl⟩ := h
  exact ⟨pre, (List.append_assoc pre l c).symm⟩

/-- The chunk in hand has been sent on the current connection. -/
theorem OutputInv.sent {chunk : List UInt8} {c : ℕ} (hi : OutputInv s) (hh : s.inHand = some chunk)
    (halive : s.alive c) : OutputInv { s with
      conns := s.conns.modify c fun conn => { conn with stream := conn.stream ++ chunk }
      pumped := s.pumped ++ chunk
      inHand := none
      carried := (s.pumped ++ chunk).length } := by
  obtain ⟨hc, conn, hconn, hl⟩ := halive
  have hout : State.output { s with
      conns := s.conns.modify c fun conn => { conn with stream := conn.stream ++ chunk }
      pumped := s.pumped ++ chunk
      inHand := none
      carried := (s.pumped ++ chunk).length } = s.output := by
    simp [State.output, hh]
  have hcur (k : ℕ) (conn' : Conn) (hk : s.currentConn = some k)
      (hm : (s.conns.modify c fun conn => { conn with stream := conn.stream ++ chunk })[k]? = some conn') :
      conn' = { conn with stream := conn.stream ++ chunk } := by
    obtain rfl : c = k := Option.some.inj (hc.symm.trans hk)
    simpa [List.getElem?_modify, hconn] using hm.symm
  refine ⟨⟨fun conn' hm => ?_, fun k conn' hk hm _ => ?_, fun k conn' hk hm _ hfit => ?_⟩, ?_, ?_,
    fun _ _ _ _ _ => rfl⟩
  · obtain ⟨k, hk⟩ := List.mem_iff_getElem?.1 hm
    rw [List.getElem?_modify] at hk
    obtain ⟨old, hold, rfl⟩ := Option.map_eq_some_iff.1 hk
    split_ifs with hck
    · obtain rfl : conn = old := Option.some.inj (hconn.symm.trans (hck ▸ hold))
      exact (suffix_append_append (hi.latest c conn hc hconn hl)).isInfix
    · exact (hi.stretch old (List.mem_of_getElem? hold)).trans (List.prefix_append _ _).isInfix
  · rw [hcur k conn' hk hm]
    exact suffix_append_append (hi.latest c conn hc hconn hl)
  · rw [hcur k conn' hk hm] at hfit ⊢
    have := hi.gap c conn hc hconn hl hfit
    simp only [List.length_append]
    omega
  · rw [hout]
    exact hi.replay
  · rw [hout]
    exact hi.snapshot

theorem outputInv_step (s : State) (a : Action) (t : State) (es : List Event)
    (hi : OutputInv s) (hok : s.swapsWhole a) (h : s.step cfg a = some (t, es)) : OutputInv t := by
  have ht := takes_of_step h
  cases a with
  | produce chunk =>
    cases ht with
    | produce _ hh => exact hi.produce hh
  | sendMsg =>
    cases ht with
    | dropped chunk hh hc => exact hi.dropped hh hc
    | sent chunk c hh hc => exact hi.sent hh hc
  | snapshotReplay =>
    cases ht with
    | snapshotReplay => exact hi.snapshotReplay
  | swapConn =>
    cases ht with
    | swapConn replay snapped lost hsup => exact hi.swapConn hsup hok
  | _ => exact hi.calm (calm_step ht (by simp) (by simp) (by simp) (by simp))

theorem outputInv_registered : OutputInv registered := by
  refine ⟨⟨?_, ?_, ?_⟩, ?_, ?_, ?_⟩
  · simp [registered]
  · rintro c conn ⟨⟩ hconn -
    cases hconn
    exact List.suffix_refl _
  · rintro c conn ⟨⟩ hconn - -
    exact Nat.zero_le _
  · rfl
  · rintro _ _ ⟨⟩
  · rintro c conn ⟨⟩ - -
    rfl

/-- While every swap comes with all the output sent that the snapshot had, and no more,
connections bring whole stretches of the output. -/
theorem replay_whole {as : List Action} {es : List Event}
    (hx : exec (step cfg) registered as = some (t, es))
    (hm : Meets (step cfg) (fun s a => s.swapsWhole a) registered as) : Whole t :=
  (exec_state_invariant outputInv_step outputInv_registered hm hx).toWhole

/-- The Hub goes down and comes back. -/
def reconnects (during : List Action) : List Action :=
  [.produce [97], .sendMsg, .lose 0, .readError 0, .clearConn 0, .notifyReconnect 0, .wake false,
    .snapshotReplay, .dialAndReattach] ++ during ++ [.swapConn, .startReceiveLoop, .storeIntentional]

/-- A chunk that comes in during the handshake waits for the swap. -/
theorem replay_whole_waiting_chunk :
    ∃ s es, exec (step ⟨false, 60⟩) registered (reconnects [.produce [98]] ++ [.sendMsg]) = some (s, es) ∧
      s.conns.map (·.stream) = [[97], [97, 98]] ∧ Whole s :=
  ⟨_, _, rfl, by decide, replay_whole
    (rfl : exec (step ⟨false, 60⟩) registered (reconnects [.produce [98]] ++ [.sendMsg]) = some (_, _))
    (by decide)⟩

/-- A chunk that is in the snapshot and sent after the swap comes twice. -/
example : (exec (step ⟨false, 60⟩) registered
    ([.lose 0, .readError 0, .clearConn 0, .notifyReconnect 0, .wake false, .produce [98], .snapshotReplay,
      .dialAndReattach, .swapConn, .sendMsg])).map (fun r => r.1.conns.map (·.stream)) =
    some [[], [98, 98]] := by
  decide

/-- A chunk that is sent during the handshake never gets to the Hub. -/
theorem chunk_during_handshake_lost :
    ¬ ∀ cfg as s es, exec (step cfg) registered as = some (s, es) → Whole s := by
  intro h
  have hw := h ⟨false, 60⟩ (reconnects [.produce [98], .sendMsg]) _ _ rfl
  exact absurd (hw.latest 1 _ rfl rfl rfl) (by decide)

end State

end ManyAiCli.Wrapper
