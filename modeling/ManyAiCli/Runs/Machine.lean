import Mathlib.Data.List.Basic
import Mathlib.Tactic.Common

/-! Runs of a machine that takes labelled steps and emits events. A step may be
disabled. Safety is stated for every run, over the state it ends in and the
events it has emitted; since each prefix of a run is a run, this speaks about
every state on the way too. -/

namespace ManyAiCli.Runs

variable {σ α ε : Type*}

/-- Take the steps in order: the last state and all events, `none` as soon as a
step is disabled. -/
def exec (step : σ → α → Option (σ × List ε)) : σ → List α → Option (σ × List ε)
  | s, [] => some (s, [])
  | s, a :: as =>
    match step s a with
    | none => none
    | some (t, es) => (exec step t as).map fun r => (r.1, es ++ r.2)

/-- Every step of the run is taken in a state that allows it by `ok`. -/
def Meets (step : σ → α → Option (σ × List ε)) (ok : σ → α → Prop) : σ → List α → Prop
  | _, [] => True
  | s, a :: as =>
    ok s a ∧ match step s a with
      | none => True
      | some (t, _) => Meets step ok t as

variable {step : σ → α → Option (σ × List ε)} {ok ok' : σ → α → Prop}

instance Meets.decidable [∀ s a, Decidable (ok s a)] (s : σ) (as : List α) :
    Decidable (Meets step ok s as) :=
  match as with
  | [] => .isTrue trivial
  | a :: as =>
    match h : step s a with
    | none => decidable_of_iff (ok s a) (by simp [Meets, h])
    | some (t, _) =>
      have := Meets.decidable t as
      decidable_of_iff (ok s a ∧ Meets step ok t as) (by simp [Meets, h])

@[simp] theorem exec_nil (s : σ) : exec step s [] = some (s, []) := rfl

theorem exec_cons_eq_some {s t : σ} {a : α} {as : List α} {es : List ε} :
    exec step s (a :: as) = some (t, es) ↔
      ∃ u es₁ es₂, step s a = some (u, es₁) ∧ exec step u as = some (t, es₂) ∧ es = es₁ ++ es₂ := by
  rcases h : step s a with _ | ⟨u, es₁⟩
  · simp [exec, h]
  · simp only [exec, h, Option.map_eq_some_iff, Prod.mk.injEq, Prod.exists, Option.some.injEq]
    constructor
    · rintro ⟨t', es₂, hx, rfl, rfl⟩
      exact ⟨u, es₁, es₂, ⟨rfl, rfl⟩, hx, rfl⟩
    · rintro ⟨u', e₁, e₂, ⟨rfl, rfl⟩, hx, rfl⟩
      exact ⟨t, e₂, hx, rfl, rfl⟩

/-- One run after another. -/
theorem exec_append {s t u : σ} {as bs : List α} {es fs : List ε} (h : exec step s as = some (t, es))
    (h' : exec step t bs = some (u, fs)) : exec step s (as ++ bs) = some (u, es ++ fs) := by
  induction as generalizing s es with
  | nil =>
    obtain ⟨rfl, rfl⟩ : s = t ∧ es = [] := by simpa [eq_comm] using h
    exact h'
  | cons a as ih =>
    obtain ⟨v, e₁, e₂, hs, hv, rfl⟩ := exec_cons_eq_some.1 h
    exact exec_cons_eq_some.2 ⟨v, e₁, e₂ ++ fs, hs, ih hv, List.append_assoc ..⟩

theorem meets_of_forall (h : ∀ s a, ok s a) (s : σ) (as : List α) : Meets step ok s as := by
  induction as generalizing s with
  | nil => trivial
  | cons a as ih =>
    refine ⟨h s a, ?_⟩
    cases step s a with
    | none => trivial
    | some r => exact ih r.1

theorem meets_of_mem {as : List α} (h : ∀ s, ∀ a ∈ as, ok s a) (s : σ) : Meets step ok s as := by
  induction as generalizing s with
  | nil => trivial
  | cons a as ih =>
    refine ⟨h s a List.mem_cons_self, ?_⟩
    cases step s a with
    | none => trivial
    | some r => exact ih (fun s a ha => h s a (List.mem_cons_of_mem _ ha)) r.1

theorem Meets.imp {s : σ} {as : List α} (h : ∀ s a, ok s a → ok' s a) (hm : Meets step ok s as) :
    Meets step ok' s as := by
  induction as generalizing s with
  | nil => trivial
  | cons a as ih =>
    obtain ⟨h1, h2⟩ := hm
    refine ⟨h s a h1, ?_⟩
    cases hs : step s a with
    | none => trivial
    | some r =>
      rw [hs] at h2
      exact ih h2

theorem Meets.and {s : σ} {as : List α} (h : Meets step ok s as) (h' : Meets step ok' s as) :
    Meets step (fun s a => ok s a ∧ ok' s a) s as := by
  induction as generalizing s with
  | nil => trivial
  | cons a as ih =>
    refine ⟨⟨h.1, h'.1⟩, ?_⟩
    cases hs : step s a with
    | none => trivial
    | some r =>
      have h2 := h.2
      have h2' := h'.2
      rw [hs] at h2 h2'
      exact ih h2 h2'

/-- The steps of either part of a run are allowed. -/
theorem Meets.of_append {s u : σ} {as bs : List α} {es : List ε} (hm : Meets step ok s (as ++ bs))
    (hx : exec step s as = some (u, es)) : Meets step ok s as ∧ Meets step ok u bs := by
  induction as generalizing s es with
  | nil =>
    obtain ⟨rfl, -⟩ : s = u ∧ [] = es := by simpa using hx
    exact ⟨trivial, hm⟩
  | cons a as ih =>
    obtain ⟨v, e₁, e₂, hs, hv, rfl⟩ := exec_cons_eq_some.1 hx
    obtain ⟨hok, hm⟩ := hm
    rw [hs] at hm
    obtain ⟨has, hbs⟩ := ih hm hv
    exact ⟨⟨hok, by rw [hs]; exact has⟩, hbs⟩

/-- What holds at first and is kept by every allowed step holds of every run of
allowed steps. The property may speak about the events so far. -/
theorem exec_invariant {I : List ε → σ → Prop}
    (hstep : ∀ h s a t es, I h s → ok s a → step s a = some (t, es) → I (h ++ es) t)
    {h : List ε} {s t : σ} {as : List α} {es : List ε} (hI : I h s) (hm : Meets step ok s as)
    (hx : exec step s as = some (t, es)) : I (h ++ es) t := by
  induction as generalizing h s es with
  | nil =>
    simp only [exec_nil, Option.some.injEq, Prod.mk.injEq] at hx
    obtain ⟨rfl, rfl⟩ := hx
    rwa [List.append_nil]
  | cons a as ih =>
    obtain ⟨u, e₁, e₂, hs, hu, rfl⟩ := exec_cons_eq_some.1 hx
    obtain ⟨hok, hm⟩ := hm
    rw [hs] at hm
    rw [← List.append_assoc]
    exact ih (hstep h s a u e₁ hI hok hs) hm hu

/-- The same for a property of the state alone. -/
theorem exec_state_invariant {I : σ → Prop}
    (hstep : ∀ s a t es, I s → ok s a → step s a = some (t, es) → I t) {s t : σ} {as : List α}
    {es : List ε} (hI : I s) (hm : Meets step ok s as) (hx : exec step s as = some (t, es)) : I t :=
  exec_invariant (I := fun _ u => I u) (fun _ s a t es => hstep s a t es) (h := []) hI hm hx

/-- What every step keeps. -/
theorem exec_keeps {I : σ → Prop} (hstep : ∀ s a t es, I s → step s a = some (t, es) → I t)
    {s t : σ} {as : List α} {es : List ε} (hI : I s) (hx : exec step s as = some (t, es)) : I t :=
  exec_state_invariant (fun s a t es h (_ : True) hs => hstep s a t es h hs) hI
    (meets_of_forall (fun _ _ => trivial) s as) hx

/-- When an invariant implies a property, is kept by the allowed steps, and every other
step breaks the property, all prefixes of a run have the property exactly if all steps of
the run are allowed. -/
theorem forall_prefix_iff_meets_of {I P : List ε → σ → Prop} (hIP : ∀ h s, I h s → P h s)
    (hstep : ∀ h s a t es, I h s → step s a = some (t, es) →
      (ok s a → I (h ++ es) t) ∧ (P (h ++ es) t → ok s a))
    {h : List ε} {s t : σ} {as : List α} {es : List ε} (hI : I h s)
    (hx : exec step s as = some (t, es)) :
    (∀ bs, bs <+: as → ∀ u fs, exec step s bs = some (u, fs) → P (h ++ fs) u) ↔
      Meets step ok s as := by
  induction as generalizing h s es with
  | nil =>
    refine ⟨fun _ => trivial, fun _ bs hb u fs hu => ?_⟩
    obtain rfl := List.prefix_nil.1 hb
    obtain ⟨rfl, rfl⟩ : s = u ∧ fs = [] := by simpa using hu
    rw [List.append_nil]
    exact hIP h s hI
  | cons a as ih =>
    obtain ⟨v, e₁, e₂, hs, hv, rfl⟩ := exec_cons_eq_some.1 hx
    obtain ⟨hkeep, hbreak⟩ := hstep h s a v e₁ hI hs
    simp only [Meets, hs]
    constructor
    · intro hall
      have hok : ok s a := hbreak <|
        hall [a] (by simp) v e₁ (exec_cons_eq_some.2 ⟨v, e₁, [], hs, rfl, by simp⟩)
      refine ⟨hok, (ih (hkeep hok) hv).1 fun bs hb u fs hu => ?_⟩
      rw [List.append_assoc]
      exact hall (a :: bs) (List.cons_prefix_cons.2 ⟨rfl, hb⟩) u (e₁ ++ fs)
        (exec_cons_eq_some.2 ⟨v, e₁, fs, hs, hu, rfl⟩)
    · rintro ⟨ha, hm⟩ bs hb u fs hu
      rcases bs with _ | ⟨b, bs⟩
      · obtain ⟨rfl, rfl⟩ : s = u ∧ fs = [] := by simpa using hu
        rw [List.append_nil]
        exact hIP h s hI
      · obtain ⟨rfl, hb'⟩ := List.cons_prefix_cons.1 hb
        obtain ⟨v', e, e', hs', hu', rfl⟩ := exec_cons_eq_some.1 hu
        obtain ⟨rfl, rfl⟩ : v = v' ∧ e₁ = e := by simpa using hs.symm.trans hs'
        rw [← List.append_assoc]
        exact (ih (hkeep ha) hv).2 hm bs hb' u e' hu'

/-- When a step keeps the property exactly if it is allowed, all prefixes of a run
have it exactly if all steps of the run are allowed. -/
theorem forall_prefix_iff_meets {P : List ε → σ → Prop}
    (hstep : ∀ h s a t es, P h s → step s a = some (t, es) → (P (h ++ es) t ↔ ok s a))
    {h : List ε} {s t : σ} {as : List α} {es : List ε} (hP : P h s)
    (hx : exec step s as = some (t, es)) :
    (∀ bs, bs <+: as → ∀ u fs, exec step s bs = some (u, fs) → P (h ++ fs) u) ↔
      Meets step ok s as :=
  forall_prefix_iff_meets_of (fun _ _ h => h)
    (fun h s a t es hP hs => ⟨(hstep h s a t es hP hs).2, (hstep h s a t es hP hs).1⟩) hP hx

/-- When an invariant implies a property of the events, is kept by the allowed steps,
and every other step breaks the property, a run has the property exactly if all its
steps are allowed. -/
theorem history_iff_meets {I : List ε → σ → Prop} {Q : List ε → Prop} (hpre : ∀ h es, Q (h ++ es) → Q h)
    (hIQ : ∀ h s, I h s → Q h)
    (hstep : ∀ h s a t es, I h s → step s a = some (t, es) →
      (ok s a → I (h ++ es) t) ∧ (Q (h ++ es) → ok s a))
    {h : List ε} {s t : σ} {as : List α} {es : List ε} (hI : I h s) (hx : exec step s as = some (t, es)) :
    Q (h ++ es) ↔ Meets step ok s as := by
  refine ⟨fun hQ => ?_, fun hm => hIQ _ t <|
    exec_invariant (fun h s a t es hI hok hs => (hstep h s a t es hI hs).1 hok) hI hm hx⟩
  induction as generalizing h s es with
  | nil => trivial
  | cons a as ih =>
    obtain ⟨u, e₁, e₂, hs, hu, rfl⟩ := exec_cons_eq_some.1 hx
    rw [← List.append_assoc] at hQ
    have hok := (hstep h s a u e₁ hI hs).2 (hpre _ _ hQ)
    simp only [Meets, hs]
    exact ⟨hok, ih ((hstep h s a u e₁ hI hs).1 hok) hu hQ⟩

end ManyAiCli.Runs
