import ManyAiCli.Hub.PinAuth
import Mathlib.Data.List.Chain

/-! How fast PINs can be tried. The counts of the limiter bound the attempts of one IP
and of all IPs on every run of calls. -/

namespace ManyAiCli.Hub.PinAuth

open Runs

def minute : ℕ := 60 * second

/-! ### What a history shows -/

def attemptAt (ip : String) : Event → Option ℕ
  | .attempt ip' now _ => if ip' = ip then some now else none
  | _ => none

/-- The times of the permitted attempts of an IP. -/
def attemptTimes (ip : String) (es : List Event) : List ℕ := es.filterMap (attemptAt ip)

def lockOf (ip : String) : Event → Option ℕ
  | .attempt ip' _ lock => if ip' = ip then lock else none
  | _ => none

/-- The locks of an IP in turn. -/
def locks (ip : String) (es : List Event) : List ℕ := es.filterMap (lockOf ip)

def anyAttemptAt : Event → Option ℕ
  | .attempt _ now _ => some now
  | _ => none

def allTimes (es : List Event) : List ℕ := es.filterMap anyAttemptAt

/-- Between two attempts of the IP there is never more than the time an IP is remembered. -/
def NotIdle (ip : String) (es : List Event) : Prop :=
  (attemptTimes ip es).IsChain fun t t' => t' ≤ t + pinAttemptTTL

/-- On stretches of the history without a success of the IP, attempts are slow and locks
do not get shorter while the IP is not idle; over all IPs, attempts are slow too. -/
structure Bounded (es : List Event) : Prop where
  perIP : ∀ ip seg, seg <:+: es → .success ip ∉ seg →
    Spans pinLockThreshold minute (attemptTimes ip seg)
  locks : ∀ ip seg, seg <:+: es → .success ip ∉ seg → NotIdle ip seg → (locks ip seg).Pairwise (· ≤ ·)
  all : Spans pinGlobalFailCap minute (allTimes es)

variable {ip : String} {seg : List Event} {e : Event} {clock now : ℕ}

theorem attemptTimes_concat : attemptTimes ip (seg ++ [e]) = attemptTimes ip seg ++ (attemptAt ip e).toList := by
  cases h : attemptAt ip e <;> simp [attemptTimes, List.filterMap_append, h]

theorem locks_concat : locks ip (seg ++ [e]) = locks ip seg ++ (lockOf ip e).toList := by
  cases h : lockOf ip e <;> simp [locks, List.filterMap_append, h]

theorem NotIdle.of_concat (h : NotIdle ip (seg ++ [e])) : NotIdle ip seg := by
  rw [NotIdle, attemptTimes_concat] at h
  exact h.left_of_append

theorem locks_eq_nil (h : attemptTimes ip seg = []) : locks ip seg = [] := by
  rw [attemptTimes, List.filterMap_eq_nil_iff] at h
  rw [locks, List.filterMap_eq_nil_iff]
  intro e he
  have := h e he
  cases e with
  | attempt ip' now lock =>
    simp only [attemptAt, lockOf] at this ⊢
    split_ifs at this ⊢
    rfl
  | _ => rfl

theorem lockDuration_mono {m n : ℕ} (h : m ≤ n) : lockDuration m ≤ lockDuration n := by
  have hm : min m 2 = 0 ∨ min m 2 = 1 ∨ min m 2 = 2 := by omega
  have hn : min n 2 = 0 ∨ min n 2 = 1 ∨ min n 2 = 2 := by omega
  rcases hm with hm | hm | hm <;> rcases hn with hn | hn | hn <;>
    simp [lockDuration, pinLockDurations, second, hm, hn] <;> omega

theorem minute_le_lockDuration (n : ℕ) : minute ≤ lockDuration n :=
  (by decide : minute ≤ lockDuration 0).trans (lockDuration_mono (Nat.zero_le n))

/-- A failure below the threshold. -/
theorem fail_of_lt {a : PinAttempt} (h : a.fails + 1 < pinLockThreshold) :
    a.fail now = ({ a with lastSeen := now, fails := a.fails + 1 }, none) := by
  rw [PinAttempt.fail]
  exact if_neg (Nat.not_le.2 h)

/-- A failure that locks. -/
theorem fail_of_ge {a : PinAttempt} (h : pinLockThreshold ≤ a.fails + 1) :
    ∃ level, a.lockLevel ≤ level ∧
      a.fail now = (⟨0, level, now + lockDuration a.lockLevel, now⟩, some (lockDuration a.lockLevel)) := by
  refine ⟨if a.lockLevel < pinLockDurations.length - 1 then a.lockLevel + 1 else a.lockLevel, ?_, ?_⟩
  · split_ifs <;> omega
  · rw [PinAttempt.fail]
    exact if_pos h

/-! ### One IP -/

/-- What is known of an IP, after a stretch of the history without a success of it. -/
structure Tracks (ip : String) (a : Option PinAttempt) (clock : ℕ) (seg : List Event) : Prop where
  throttle : Throttle pinLockThreshold minute (a.elim 0 PinAttempt.fails) (a.elim 0 PinAttempt.lockedUntil)
    clock (attemptTimes ip seg)
  /-- Without an entry all attempts are forgotten. -/
  forgotten : a = none → ∀ t ∈ attemptTimes ip seg, t + pinAttemptTTL < clock
  seen : ∀ b ∈ a, ∀ t ∈ attemptTimes ip seg, t ≤ b.lastSeen
  level : ∀ b ∈ a, NotIdle ip seg → ∀ d ∈ locks ip seg, d ≤ lockDuration b.lockLevel
  sorted : NotIdle ip seg → (locks ip seg).Pairwise (· ≤ ·)

namespace Tracks

variable {a : Option PinAttempt}

theorem later (h : Tracks ip a clock seg) (hc : clock ≤ now) : Tracks ip a now seg :=
  ⟨h.throttle.later hc, fun ha t ht => Nat.lt_of_lt_of_le (h.forgotten ha t ht) hc, h.seen, h.level,
    h.sorted⟩

/-- An event that is no attempt of the IP. -/
theorem skip (h : Tracks ip a clock seg) (he : attemptAt ip e = none) (hl : lockOf ip e = none) :
    Tracks ip a clock (seg ++ [e]) := by
  have ht : attemptTimes ip (seg ++ [e]) = attemptTimes ip seg := by
    rw [attemptTimes_concat, he, Option.toList_none, List.append_nil]
  have hlocks : locks ip (seg ++ [e]) = locks ip seg := by
    rw [locks_concat, hl, Option.toList_none, List.append_nil]
  refine ⟨ht ▸ h.throttle, ht ▸ h.forgotten, ht ▸ h.seen, ?_, ?_⟩
  · rw [NotIdle, ht, hlocks]
    exact h.level
  · rw [NotIdle, ht, hlocks]
    exact h.sorted

theorem fresh (ip : String) (clock : ℕ) : Tracks ip none clock [] :=
  ⟨.nil (by decide), by simp [attemptTimes], by simp, by simp, fun _ => List.Pairwise.nil⟩

theorem restart (h : Tracks ip a clock seg) : Tracks ip a clock [] :=
  ⟨.nil h.throttle.lt, by simp [attemptTimes], by simp [attemptTimes], by simp [locks],
    fun _ => List.Pairwise.nil⟩

/-- What is pruned is long past. -/
theorem prune (h : Tracks ip a clock seg) (hc : clock ≤ now) :
    Tracks ip (a.filter fun a => !(now - a.lastSeen > pinAttemptTTL && now > a.lockedUntil)) now seg := by
  have h := h.later hc
  cases a with
  | none => exact h
  | some b =>
    rw [Option.filter_some]
    split_ifs with hkeep
    · exact h
    · have hold : now - b.lastSeen > pinAttemptTTL := by
        simp only [Bool.not_eq_true', Bool.not_eq_false, Bool.and_eq_true, decide_eq_true_eq] at hkeep
        exact hkeep.1
      have hpast : ∀ t ∈ attemptTimes ip seg, t + pinAttemptTTL < now := by
        intro t ht
        have := h.seen b rfl t ht
        omega
      refine ⟨h.throttle.reset (fun t ht => ?_) 0, fun _ => hpast, by simp, by simp, h.sorted⟩
      have := hpast t ht
      have hle : minute ≤ pinAttemptTTL := by decide
      omega

/-- With an attempt after all that is forgotten, either nothing is forgotten or the IP
was idle. -/
theorem locks_forgotten (h : Tracks ip a clock seg) (ha : a = none) (hc : clock ≤ now)
    (hidle : NotIdle ip (seg ++ [e])) (he : attemptAt ip e = some now) : locks ip seg = [] := by
  refine locks_eq_nil (List.eq_nil_iff_forall_not_mem.2 fun t ht => ?_)
  rw [NotIdle, attemptTimes_concat, he, Option.toList_some] at hidle
  obtain ⟨init, last, hl⟩ := (List.eq_nil_or_concat (attemptTimes ip seg)).resolve_left
    (List.ne_nil_of_mem ht)
  rw [hl, List.concat_eq_append, List.append_assoc] at hidle
  have hstep : now ≤ last + pinAttemptTTL := List.isChain_cons_cons.1 hidle.right_of_append |>.1
  have := h.forgotten ha last (by rw [hl]; simp)
  omega

theorem attempt (h : Tracks ip a clock seg) (hc : clock ≤ now) (hu : a.elim 0 PinAttempt.lockedUntil ≤ now) :
    Tracks ip (some ((a.getD ⟨0, 0, 0, 0⟩).fail now).1) now
      (seg ++ [.attempt ip now ((a.getD ⟨0, 0, 0, 0⟩).fail now).2]) := by
  have hthrottle : Throttle pinLockThreshold minute (a.getD ⟨0, 0, 0, 0⟩).fails
      (a.getD ⟨0, 0, 0, 0⟩).lockedUntil clock (attemptTimes ip seg) := by
    have := h.throttle
    cases a <;> exact this
  have hu' : (a.getD ⟨0, 0, 0, 0⟩).lockedUntil ≤ now := by cases a <;> exact hu
  have hlevel (lock : Option ℕ) (hidle : NotIdle ip (seg ++ [.attempt ip now lock])) :
      ∀ d ∈ locks ip seg, d ≤ lockDuration (a.getD ⟨0, 0, 0, 0⟩).lockLevel := by
    cases ha : a with
    | none => simp [h.locks_forgotten ha hc hidle (by simp [attemptAt])]
    | some b => exact h.level b ha hidle.of_concat
  have hsorted (lock : Option ℕ) (hidle : NotIdle ip (seg ++ [.attempt ip now lock])) :=
    h.sorted hidle.of_concat
  generalize a.getD ⟨0, 0, 0, 0⟩ = b at hthrottle hu' hlevel ⊢
  have htimes (lock : Option ℕ) :
      attemptTimes ip (seg ++ [.attempt ip now lock]) = attemptTimes ip seg ++ [now] := by
    simp [attemptTimes_concat, attemptAt]
  have hlocks (lock : Option ℕ) : locks ip (seg ++ [.attempt ip now lock]) = locks ip seg ++ lock.toList := by
    simp [locks_concat, lockOf]
  have hseen := hthrottle.seen_attempt hc
  rcases Nat.lt_or_ge (b.fails + 1) pinLockThreshold with hlt | hge
  · rw [fail_of_lt hlt]
    refine ⟨by rw [htimes]; exact hthrottle.attempt hu' hc hlt, by simp, ?_, ?_, ?_⟩
    · rintro _ ⟨⟩
      rw [htimes]
      exact hseen
    · rintro _ ⟨⟩ hidle
      rw [hlocks, Option.toList_none, List.append_nil]
      exact hlevel none hidle
    · intro hidle
      rw [hlocks, Option.toList_none, List.append_nil]
      exact hsorted none hidle
  · obtain ⟨level, hle, hfail⟩ := @fail_of_ge now b hge
    have hmin := minute_le_lockDuration b.lockLevel
    rw [hfail]
    refine ⟨by rw [htimes]; exact hthrottle.lock hu' hc (Nat.add_le_add_left hmin now), by simp, ?_, ?_, ?_⟩
    · rintro _ ⟨⟩
      rw [htimes]
      exact hseen
    · rintro _ ⟨⟩ hidle d hd
      refine Nat.le_trans ?_ (lockDuration_mono hle)
      rw [hlocks, Option.toList_some] at hd
      rcases List.mem_append.1 hd with hd | hd
      · exact hlevel _ hidle d hd
      · exact Nat.le_of_eq (List.mem_singleton.1 hd)
    · intro hidle
      rw [hlocks, Option.toList_some, List.pairwise_append]
      refine ⟨hsorted _ hidle, List.pairwise_singleton _ _, fun d hd d' hd' => ?_⟩
      rw [List.mem_singleton.1 hd']
      exact hlevel _ hidle d hd

end Tracks

/-! ### Runs -/

structure PinInv (es : List Event) (s : State) : Prop where
  bounded : Bounded es
  perIP : ∀ ip seg, seg <:+ es → .success ip ∉ seg → Tracks ip (s.limiter.perIP ip) s.clock seg
  global : Throttle pinGlobalFailCap minute s.limiter.globalFails s.limiter.globalUntil s.clock (allTimes es)
  globalSeen : ∀ t ∈ allTimes es, t ≤ s.limiter.globalSeen

variable {es : List Event} {s : State} {l : PinLimiter}

/-- One event more, of which the limiter keeps track. -/
theorem PinInv.concat (hi : PinInv es s)
    (hperIP : ∀ ip seg, seg <:+ es → .success ip ∉ seg → e ≠ .success ip →
      Tracks ip (l.perIP ip) clock (seg ++ [e]))
    (hnil : ∀ ip, Tracks ip (l.perIP ip) clock [])
    (hglobal : Throttle pinGlobalFailCap minute l.globalFails l.globalUntil clock (allTimes (es ++ [e])))
    (hseen : ∀ t ∈ allTimes (es ++ [e]), t ≤ l.globalSeen) : PinInv (es ++ [e]) ⟨l, clock⟩ := by
  have htracks : ∀ ip seg, seg <:+ es ++ [e] → .success ip ∉ seg → Tracks ip (l.perIP ip) clock seg := by
    intro ip seg hsuf hnot
    rcases List.suffix_concat_iff.1 hsuf with rfl | ⟨seg, rfl, hseg⟩
    · exact hnil ip
    · simp only [List.mem_append, List.mem_singleton, not_or] at hnot
      exact hperIP ip seg hseg hnot.1 (Ne.symm hnot.2)
  refine ⟨⟨fun ip seg hin hnot => ?_, fun ip seg hin hnot hidle => ?_, hglobal.spans⟩, htracks, hglobal, hseen⟩
  · rcases List.infix_concat_iff.1 hin with hsuf | hin
    · exact (htracks ip seg hsuf hnot).throttle.spans
    · exact hi.bounded.perIP ip seg hin hnot
  · rcases List.infix_concat_iff.1 hin with hsuf | hin
    · exact (htracks ip seg hsuf hnot).sorted hidle
    · exact hi.bounded.locks ip seg hin hnot hidle

theorem allTimes_concat : allTimes (es ++ [e]) = allTimes es ++ (anyAttemptAt e).toList := by
  cases h : anyAttemptAt e <;> simp [allTimes, List.filterMap_append, h]

/-- An event that is no attempt. -/
theorem PinInv.skip (hi : PinInv es s) (hc : s.clock ≤ now) (hperIP : ∀ ip seg, seg <:+ es → .success ip ∉ seg →
      e ≠ .success ip → Tracks ip (l.perIP ip) now seg) (hnil : ∀ ip, Tracks ip (l.perIP ip) now [])
    (hf : l.globalFails = s.limiter.globalFails) (hu : l.globalUntil = s.limiter.globalUntil)
    (hs : l.globalSeen = s.limiter.globalSeen) (he : anyAttemptAt e = none) :
    PinInv (es ++ [e]) ⟨l, now⟩ := by
  have hat (ip : String) : attemptAt ip e = none ∧ lockOf ip e = none := by
    cases e with
    | attempt => cases he
    | _ => exact ⟨rfl, rfl⟩
  have ht : allTimes (es ++ [e]) = allTimes es := by
    rw [allTimes_concat, he, Option.toList_none, List.append_nil]
  refine hi.concat (fun ip seg hsuf hnot hne => (hperIP ip seg hsuf hnot hne).skip (hat ip).1 (hat ip).2) hnil
    ?_ ?_
  · rw [ht, hf, hu]
    exact hi.global.later hc
  · rw [ht, hs]
    exact hi.globalSeen

theorem PinInv.prune (hi : PinInv es s) (hc : s.clock ≤ now) (ip : String) (seg : List Event)
    (hsuf : seg <:+ es) (hnot : .success ip ∉ seg) :
    Tracks ip ((s.limiter.pruneLocked now).perIP ip) now seg :=
  (hi.perIP ip seg hsuf hnot).prune hc

/-- Nobody is locked out of an attempt that is let through. -/
theorem locked_eq_none (h : l.locked ip now = none) :
    l.globalUntil ≤ now ∧ (l.perIP ip).elim 0 PinAttempt.lockedUntil ≤ now := by
  rw [PinLimiter.locked] at h
  split_ifs at h with hg
  refine ⟨Nat.not_lt.1 hg, ?_⟩
  split at h
  · rename_i a ha
    split_ifs at h with hlock
    rw [ha]
    exact Nat.not_lt.1 hlock
  · rename_i ha
    rw [ha]
    exact Nat.zero_le _

/-- One more attempt in the count of all IPs. -/
theorem throttle_failGlobal {ts : List ℕ}
    (h : Throttle pinGlobalFailCap minute l.globalFails l.globalUntil clock ts)
    (hseen : ∀ t ∈ ts, t ≤ l.globalSeen) (hu : l.globalUntil ≤ now) (hc : clock ≤ now) :
    Throttle pinGlobalFailCap minute (l.failGlobal now).globalFails (l.failGlobal now).globalUntil now
      (ts ++ [now]) := by
  have hfails : Throttle pinGlobalFailCap minute
      (if now - l.globalSeen > pinAttemptTTL then 0 else l.globalFails) l.globalUntil now ts := by
    split_ifs with hold
    · refine (h.later hc).reset (fun t ht => ?_) _
      have := hseen t ht
      have hle : minute ≤ pinAttemptTTL := by decide
      omega
    · exact h.later hc
  rw [PinLimiter.failGlobal]
  generalize (if now - l.globalSeen > pinAttemptTTL then 0 else l.globalFails) = fails at hfails ⊢
  split_ifs with hcap
  · exact hfails.lock hu (Nat.le_refl _) (Nat.le_refl _)
  · exact hfails.attempt hu (Nat.le_refl _) (by omega)

theorem failGlobal_perIP (l : PinLimiter) (now : ℕ) : (l.failGlobal now).perIP = l.perIP := by
  rw [PinLimiter.failGlobal]
  split_ifs <;> rfl

theorem failGlobal_globalSeen (l : PinLimiter) (now : ℕ) : (l.failGlobal now).globalSeen = now := by
  rw [PinLimiter.failGlobal]
  split_ifs <;> rfl

/-- An attempt is let through by a limiter that has pruned. -/
theorem PinInv.attempt {p : PinLimiter} (hi : PinInv es s) (hc : s.clock ≤ now)
    (htracks : ∀ ip seg, seg <:+ es → .success ip ∉ seg → Tracks ip (p.perIP ip) now seg)
    (hf : p.globalFails = s.limiter.globalFails) (hu : p.globalUntil = s.limiter.globalUntil)
    (hs : p.globalSeen = s.limiter.globalSeen) (ip : String) (hlock : p.locked ip now = none) :
    let r := ((p.perIP ip).getD ⟨0, 0, 0, 0⟩).fail now
    PinInv (es ++ [.attempt ip now r.2])
      ⟨({ p with perIP := Function.update p.perIP ip (some r.1) } : PinLimiter).failGlobal now, now⟩ := by
  intro r
  obtain ⟨hglobal, hip⟩ := locked_eq_none hlock
  have ht : allTimes (es ++ [.attempt ip now r.2]) = allTimes es ++ [now] := by
    simp [allTimes_concat, anyAttemptAt]
  have hself (seg : List Event) (h : Tracks ip (p.perIP ip) now seg) :
      Tracks ip (some r.1) now (seg ++ [.attempt ip now r.2]) := h.attempt (Nat.le_refl _) hip
  refine hi.concat (fun ip' seg hsuf hnot _ => ?_) (fun ip' => ?_) ?_ ?_
  · rw [failGlobal_perIP]
    have h := htracks ip' seg hsuf hnot
    dsimp only
    rcases eq_or_ne ip' ip with rfl | hne
    · rw [Function.update_self]
      exact hself seg h
    · rw [Function.update_of_ne hne]
      exact h.skip (if_neg hne.symm) (if_neg hne.symm)
  · rw [failGlobal_perIP]
    have h := htracks ip' [] List.nil_suffix (by simp)
    dsimp only
    rcases eq_or_ne ip' ip with rfl | hne
    · rw [Function.update_self]
      exact (hself [] h).restart
    · rw [Function.update_of_ne hne]
      exact h
  · have hg : Throttle pinGlobalFailCap minute p.globalFails p.globalUntil s.clock (allTimes es) := by
      rw [hf, hu]
      exact hi.global
    have hseen : ∀ t ∈ allTimes es, t ≤ p.globalSeen := by
      rw [hs]
      exact hi.globalSeen
    rw [ht]
    exact throttle_failGlobal hg hseen hglobal hc
  · rw [ht, failGlobal_globalSeen]
    exact hi.global.seen_attempt hc

theorem pinInv_step (es : List Event) (s : State) (a : Action) (t : State) (es' : List Event)
    (hi : PinInv es s) (_ : True) (h : s.step a = some (t, es')) : PinInv (es ++ es') t := by
  cases a with
  | beginAttempt ip now =>
    simp only [State.step, PinLimiter.beginAttempt] at h
    split_ifs at h with hc
    have hc := Nat.not_lt.1 hc
    cases hl : (s.limiter.pruneLocked now).locked ip now with
    | some retry =>
      simp only [hl] at h
      cases h
      exact hi.skip hc (fun ip seg hsuf hnot _ => hi.prune hc ip seg hsuf hnot)
        (fun ip => hi.prune hc ip [] List.nil_suffix (by simp)) rfl rfl rfl rfl
    | none =>
      simp only [hl] at h
      cases h
      exact hi.attempt hc (fun ip seg hsuf hnot => hi.prune hc ip seg hsuf hnot) rfl rfl rfl ip hl
  | recordSuccess ip =>
    cases h
    refine hi.skip (Nat.le_refl _) (fun ip' seg hsuf hnot hne => ?_) (fun ip' => ?_) rfl rfl rfl rfl
    · rw [PinLimiter.recordSuccess]
      dsimp only
      rw [Function.update_of_ne fun he : ip' = ip => hne (congrArg Event.success he.symm)]
      exact hi.perIP ip' seg hsuf hnot
    · rw [PinLimiter.recordSuccess]
      dsimp only
      rcases eq_or_ne ip' ip with rfl | hne
      · rw [Function.update_self]
        exact Tracks.fresh ip' s.clock
      · rw [Function.update_of_ne hne]
        exact hi.perIP ip' [] List.nil_suffix (by simp)
  | retryAfter ip now =>
    simp only [State.step, PinLimiter.retryAfter] at h
    split_ifs at h with hc
    have hc := Nat.not_lt.1 hc
    cases h
    exact hi.skip hc (fun ip seg hsuf hnot _ => hi.prune hc ip seg hsuf hnot)
      (fun ip => hi.prune hc ip [] List.nil_suffix (by simp)) rfl rfl rfl rfl

theorem pinInv_init : PinInv [] State.init := by
  refine ⟨⟨fun ip seg hin _ => ?_, fun ip seg hin _ _ => ?_, ?_⟩, fun ip seg hsuf _ => ?_, ?_, ?_⟩
  · rw [List.infix_nil.1 hin]
    exact (Tracks.fresh ip 0).throttle.spans
  · rw [List.infix_nil.1 hin]
    exact List.Pairwise.nil
  · exact (Throttle.nil (by decide) : Throttle pinGlobalFailCap minute 0 0 0 []).spans
  · rw [List.suffix_nil.1 hsuf]
    exact Tracks.fresh ip 0
  · exact Throttle.nil (by decide)
  · simp [allTimes]

/-- PINs can be tried only slowly, whatever is called in what order. -/
theorem pin_attempts_bounded {as : List Action} {es : List Event} {s : State}
    (hx : exec State.step State.init as = some (s, es)) : Bounded es :=
  (exec_invariant pinInv_step pinInv_init (meets_of_forall (fun _ _ => trivial) _ _) hx).bounded

/-- So many attempts of one IP at a time in seconds. -/
def tries (n t : ℕ) : List Action := List.replicate n (.beginAttempt "192.0.2.1" (t * second))

/-- The sixth attempt waits for the end of the lock. -/
theorem pin_attempts_bounded_sixth :
    ∃ s es, exec State.step State.init (tries 6 10 ++ tries 1 70) = some (s, es) ∧
      attemptTimes "192.0.2.1" es = [10 * second, 10 * second, 10 * second, 10 * second, 10 * second,
        70 * second] ∧ Bounded es :=
  ⟨_, _, rfl, by decide, pin_attempts_bounded
    (rfl : exec State.step State.init (tries 6 10 ++ tries 1 70) = some (_, _))⟩

/-- After a success the first lock is the short one again. -/
theorem success_shortens_lock :
    ¬ ∀ as s es, exec State.step State.init as = some (s, es) →
      ∀ ip, NotIdle ip es → (locks ip es).Pairwise (· ≤ ·) := by
  intro h
  have hp := h (tries 5 10 ++ tries 5 70 ++ tries 1 370 ++ [.recordSuccess "192.0.2.1"] ++ tries 5 371) _ _
    rfl "192.0.2.1" (by rw [NotIdle]; decide)
  exact absurd hp (by decide)

end ManyAiCli.Hub.PinAuth
