import ManyAiCli.Hub.PinAuth
import Mathlib.Data.Set.Finite.Basic

/-! What a login with the right PIN leaves behind. Its attempt is counted as a failure of
its IP and as one of all IPs; the success takes the first count away and not the second. -/

namespace ManyAiCli.Hub.PinAuth

open Runs

/-- A login with the right PIN. -/
def PinLimiter.login (l : PinLimiter) (ip : String) (now : ℕ) : PinLimiter :=
  (l.beginAttempt ip now).1.recordSuccess ip

/-- Whatever is called from then on, no other IP is locked that would not be locked
without the login. -/
def Undone (l : PinLimiter) (ip : String) (now : ℕ) : Prop :=
  ∀ calls s s' es es', exec State.step ⟨l, now⟩ calls = some (s, es) →
    exec State.step ⟨l.login ip now, now⟩ calls = some (s', es') →
      ∀ other ≠ ip, ∀ t ≥ s.clock, 0 < (s'.limiter.retryAfter other t).2 → 0 < (s.limiter.retryAfter other t).2

/-- An IP without an entry, free to try, and `fails` attempts in the count of all IPs. -/
structure Idle (ip : String) (now fails : ℕ) (l : PinLimiter) : Prop where
  entry : l.perIP ip = none
  free : l.globalUntil ≤ now
  count : (if now - l.globalSeen > pinAttemptTTL then 0 else l.globalFails) = fails

variable {l : PinLimiter} {ip other : String} {now fails : ℕ}

/-- The count of all IPs is kept apart from the entries. -/
theorem failGlobal_set_perIP (perIP : String → Option PinAttempt) :
    { l with perIP := perIP }.failGlobal now = { l.failGlobal now with perIP := perIP } := by
  unfold PinLimiter.failGlobal
  simp only
  split_ifs <;> rfl

/-- A login touches one entry and is counted. -/
theorem login_eq (h : (l.beginAttempt ip now).2.isRight = true) :
    ∃ perIP, (∀ x, l.perIP x = none → perIP x = none) ∧
      l.login ip now = { l.failGlobal now with perIP := perIP } := by
  rw [PinLimiter.login]
  unfold PinLimiter.beginAttempt at h ⊢
  cases hl : (l.pruneLocked now).locked ip now with
  | some retry => simp [hl] at h
  | none =>
    refine ⟨Function.update (l.pruneLocked now).perIP ip none, ?_, ?_⟩
    · intro x hx
      by_cases hxip : x = ip
      · rw [hxip, Function.update_self]
      · rw [Function.update_of_ne hxip]
        show Option.filter _ (l.perIP x) = none
        rw [hx, Option.filter_none]
    · have hprune : (l.pruneLocked now).failGlobal now = _ := failGlobal_set_perIP _
      simp only [hl, PinLimiter.recordSuccess, failGlobal_set_perIP, hprune, Function.update_idem]

namespace Idle

theorem not_locked (h : Idle ip now fails l) : (l.pruneLocked now).locked ip now = none := by
  have hentry : (l.pruneLocked now).perIP ip = none := by
    show Option.filter _ (l.perIP ip) = none
    rw [h.entry, Option.filter_none]
  have hfree : ¬ now < (l.pruneLocked now).globalUntil := Nat.not_lt.2 h.free
  rw [PinLimiter.locked, if_neg hfree, hentry]

theorem permitted (h : Idle ip now fails l) : (l.beginAttempt ip now).2.isRight = true := by
  simp only [PinLimiter.beginAttempt, h.not_locked, Sum.isRight_inr]

theorem retryAfter_eq (h : Idle ip now fails l) : (l.retryAfter ip now).2 = 0 := by
  simp only [PinLimiter.retryAfter, h.not_locked, Option.getD_none]

/-- A login below the cap is one more in the count. -/
theorem login (h : Idle other now fails l) (hp : (l.beginAttempt ip now).2.isRight = true)
    (hlt : fails + 1 < pinGlobalFailCap) : Idle other now (fails + 1) (l.login ip now) := by
  obtain ⟨perIP, hkeep, heq⟩ := login_eq hp
  have hcap : ¬ fails + 1 ≥ pinGlobalFailCap := Nat.not_le.2 hlt
  rw [heq, PinLimiter.failGlobal]
  simp only [h.count, if_neg hcap]
  exact ⟨hkeep other h.entry, h.free, by simp⟩

/-- The login that reaches the cap locks everybody. -/
theorem login_locks (h : Idle other now fails l) (hp : (l.beginAttempt ip now).2.isRight = true)
    (hge : pinGlobalFailCap ≤ fails + 1) (x : String) : 0 < ((l.login ip now).retryAfter x now).2 := by
  obtain ⟨perIP, -, heq⟩ := login_eq hp
  have hcap : fails + 1 ≥ pinGlobalFailCap := hge
  have huntil : now < (l.login ip now).globalUntil := by
    rw [heq, PinLimiter.failGlobal]
    simp only [h.count, if_pos hcap]
    exact Nat.lt_add_of_pos_right (by decide)
  have hlocked : ((l.login ip now).pruneLocked now).locked x now =
      some (retrySeconds (l.login ip now).globalUntil now) := if_pos huntil
  simp only [PinLimiter.retryAfter, hlocked, Option.getD_some]
  exact Nat.succ_pos _

end Idle

/-! ### Logins in a row -/

/-- The calls of one login. -/
def loginCalls (ip : String) (now : ℕ) : List Action := [.beginAttempt ip now, .recordSuccess ip]

theorem exec_login (h : (l.beginAttempt ip now).2.isRight = true) :
    ∃ es, exec State.step ⟨l, now⟩ (loginCalls ip now) = some (⟨l.login ip now, now⟩, es) := by
  rcases hb : l.beginAttempt ip now with ⟨m, retry | lock⟩
  · rw [hb] at h
    exact absurd h Bool.false_ne_true
  · refine ⟨[.attempt ip now lock, .success ip], ?_⟩
    simp [loginCalls, exec, State.step, hb, PinLimiter.login]

/-- Logins in a row, as long as they stay below the cap. -/
theorem Idle.logins (h : Idle ip now fails l) (n : ℕ) (hlt : fails + n < pinGlobalFailCap) :
    ∃ m es, exec State.step ⟨l, now⟩ (List.replicate n (loginCalls ip now)).flatten = some (⟨m, now⟩, es) ∧
      Idle ip now (fails + n) m := by
  induction n generalizing l fails with
  | zero => exact ⟨l, [], rfl, h⟩
  | succ n ih =>
    obtain ⟨es, hfirst⟩ := exec_login h.permitted
    obtain ⟨m, fs, hrest, hm⟩ := ih (h.login h.permitted (by omega)) (by omega)
    refine ⟨m, es ++ fs, ?_, ?_⟩
    · rw [List.replicate_succ, List.flatten_cons]
      exact exec_append hfirst hrest
    · rwa [Nat.add_right_comm, Nat.add_assoc] at hm

/-- The one more in the count of all IPs lets later logins reach the cap that would stay
below it. -/
theorem Idle.not_undone_of_ne (h : Idle other now fails l) (hne : other ≠ ip)
    (hp : (l.beginAttempt ip now).2.isRight = true) : ¬ Undone l ip now := by
  intro hu
  by_cases hcap : pinGlobalFailCap ≤ fails + 1
  · have := hu [] _ _ _ _ rfl rfl other hne now (Nat.le_refl now) (h.login_locks hp hcap other)
    rw [h.retryAfter_eq] at this
    exact absurd this (Nat.lt_irrefl 0)
  · rw [Nat.not_le] at hcap
    -- the last of these logins finds the count at the cap after the login, below it without
    obtain ⟨n, hn⟩ : ∃ n, fails + 1 + n + 1 = pinGlobalFailCap := ⟨pinGlobalFailCap - (fails + 2), by omega⟩
    obtain ⟨m, es, hrun, hm⟩ := h.logins (n + 1) (by omega)
    obtain ⟨m', es', hrun', hm'⟩ := (h.login hp hcap).logins n (by omega)
    obtain ⟨fs, hlast⟩ := exec_login hm'.permitted
    have hsame : (List.replicate (n + 1) (loginCalls other now)).flatten =
        (List.replicate n (loginCalls other now)).flatten ++ loginCalls other now := by
      rw [List.replicate_succ', List.flatten_append, List.flatten_singleton]
    rw [hsame] at hrun
    have := hu _ _ _ _ _ hrun (exec_append hrun' hlast) other hne now (Nat.le_refl now)
      (hm'.login_locks hm'.permitted (by omega) other)
    rw [hm.retryAfter_eq] at this
    exact absurd this (Nat.lt_irrefl 0)

/-- No login is undone, whatever the limiter has counted before. -/
theorem not_undone (hfin : {x | l.perIP x ≠ none}.Finite)
    (hp : (l.beginAttempt ip now).2.isRight = true) : ¬ Undone l ip now := by
  obtain ⟨x, hx⟩ := (hfin.insert ip).exists_notMem
  obtain ⟨hne, hentry⟩ : x ≠ ip ∧ l.perIP x = none := by simpa using hx
  have hfree : l.globalUntil ≤ now := by
    by_contra hlock
    have hlocked : (l.pruneLocked now).locked ip now = some (retrySeconds l.globalUntil now) :=
      if_pos (Nat.not_le.1 hlock)
    simp [PinLimiter.beginAttempt, hlocked] at hp
  exact Idle.not_undone_of_ne ⟨hentry, hfree, rfl⟩ hne hp

theorem not_undone_first : ¬ Undone newPINLimiter "192.0.2.1" second :=
  not_undone (by simp [newPINLimiter]) rfl

/-- A login on the new limiter is not undone. After thirty logins of one IP, each with the
right PIN, another IP may not even try. -/
theorem logins_lock_out :
    ¬ (∀ (l : PinLimiter) (ip : String) (now : ℕ), {x | l.perIP x ≠ none}.Finite →
      (l.beginAttempt ip now).2.isRight = true → Undone l ip now) ∧
    ((exec State.step .init (List.replicate 30 (loginCalls "192.0.2.1" second)).flatten).map fun r =>
      (r.1.limiter.beginAttempt "192.0.2.2" second).2) = some (.inl 61) := by
  constructor
  · intro h
    have hfirst : Idle "192.0.2.2" second 0 newPINLimiter := ⟨rfl, Nat.zero_le _, rfl⟩
    exact hfirst.not_undone_of_ne (by decide) rfl (h newPINLimiter "192.0.2.1" second (by simp [newPINLimiter]) rfl)
  · rfl

end ManyAiCli.Hub.PinAuth
