import ManyAiCli.Hub.ApprovalTargets

/-! Do the instruction files match the live sessions once no handler runs? They do while no
handler takes out, spares or forgets a file on an old view of the sessions, or another one
comes after it. -/

namespace ManyAiCli.Hub.ApprovalTargets

open Runs

variable {pl : Places}

/-- The handler has still to put the rules into the file. -/
def Phase.injects (t : Path) : Phase → Prop
  | .gate | .snapshot => True
  | .injecting todo _ => t ∈ todo
  | _ => False

/-- The handler has still to see whether the rules in the file have to go. -/
def Phase.cleans (known active : Finset Path) (t : Path) : Phase → Prop
  | .gate | .snapshot | .legacy => t ∈ known
  | .injecting _ done => t ∈ known ∨ t ∈ done
  | .candidates ts => t ∈ known ∨ t ∈ ts
  | .sparing ts | .disablingLegacy ts => t ∈ ts
  | .removing todo _ => t ∈ todo
  | .disabling => t ∈ known ∨ t ∈ active
  | .disablingActive ts => t ∈ ts ∨ t ∈ active
  | _ => False

theorem Phase.cleans_mono {known known' active active' : Finset Path} {t : Path} {p : Phase}
    (h : p.cleans known active t) (hk : t ∈ known → t ∈ known') (ha : t ∈ active → t ∈ active') :
    p.cleans known' active' t := by
  cases p <;> simp only [Phase.cleans] at h ⊢ <;> tauto

/-- Of the active targets a handler has seen, one that is gone is all there is to lose. -/
theorem Phase.cleans_or_mem {known active active' : Finset Path} {t : Path} {p : Phase}
    (h : p.cleans known active t) : p.cleans known active' t ∨ t ∈ active := by
  cases p <;> simp only [Phase.cleans] at h ⊢ <;> tauto

namespace State

variable (pl) (s : State)

/-- A live session wants the rules in the file, and the feature is on. -/
def applies (t : Path) : Prop := s.enabled = true ∧ t ∈ activeApprovalRuleTargets pl s.reg

def cleans (t : Path) : Phase → Prop := Phase.cleans s.known (activeApprovalRuleTargets pl s.reg) t

/-- One of the handlers is of the kind. -/
def any (p : Phase → Prop) : Prop := ∃ (i : ℕ) (x : Handler), s.handlers[i]? = some x ∧ p x.phase

/-- Of the other handlers one is of the kind. -/
def others (p : Phase → Prop) (h : ℕ) : Prop :=
  ∃ (i : ℕ) (x : Handler), s.handlers[i]? = some x ∧ i ≠ h ∧ p x.phase

/-- A registration that finds the feature off leaves no rules that nobody sees to, an active
target is not spared while the feature is off, and no rules are forgotten. Else another
handler comes after. -/
def goesOn (h : ℕ) : Phase → Prop
  | .gate => s.enabled = false → ∀ t ∈ s.rules, s.others (s.cleans pl t) h
  | .sparing ts => s.enabled = false → ∀ t ∈ ts, t ∈ activeApprovalRuleTargets pl s.reg → t ∈ s.rules →
      s.others (s.cleans pl t) h
  | .removing _ done => ∀ t ∈ done, t ∈ s.rules → s.applies pl t ∨
      s.others (Phase.cleans (s.known \ done) (activeApprovalRuleTargets pl s.reg) t) h
  | _ => True

/-- No ID is taken over while a file is unknown, no handler goes on wrongly, and the rules
that are taken out are those of no live session, or are put in again. -/
def undisturbed : Action → Prop
  | .register id _ _ | .reattach id _ _ => s.reg.wrappers.lookup id = none ∨ s.rules ⊆ s.known
  | .proceed h => ∀ x, s.handlers[h]? = some x → s.goesOn pl h x.phase
  | .write h t => ∀ id loops todo done, s.handlers[h]? = some ⟨id, loops, .removing todo done⟩ →
      s.applies pl t → s.others (Phase.injects t) h
  | _ => True

/-- Whoever has still to see to the files that do not match. -/
structure Kept : Prop where
  cleaned : ∀ t ∈ s.rules, s.applies pl t ∨ s.any (s.cleans pl t)
  injected : ∀ t, s.applies pl t → t ∈ s.rules ∨ s.any (Phase.injects t)

variable {pl} {s} {u : State} {h : ℕ} {x y : Handler} {t : Path} {p q : Phase → Prop}

theorem any_of_others (ho : s.others p h) (hu : u.handlers = s.handlers.set h y) (hpq : ∀ ph, p ph → q ph) :
    u.any q := by
  obtain ⟨i, z, hi, hne, hp⟩ := ho
  exact ⟨i, z, by rw [hu, List.getElem?_set_ne hne.symm, hi], hpq _ hp⟩

theorem any_of_self (hx : s.handlers[h]? = some x) (hu : u.handlers = s.handlers.set h y) (hq : q y.phase) :
    u.any q :=
  ⟨h, y, by rw [hu, List.getElem?_set_self (List.getElem?_eq_some_iff.1 hx).1], hq⟩

theorem others_or_self (ha : s.any p) (hx : s.handlers[h]? = some x) : s.others p h ∨ p x.phase := by
  obtain ⟨i, z, hi, hp⟩ := ha
  by_cases hne : i = h
  · subst hne
    obtain rfl := Option.some.inj (hx.symm.trans hi)
    exact .inr hp
  · exact .inl ⟨i, z, hi, hne, hp⟩

theorem any_append (ha : s.any p) (hu : u.handlers = s.handlers ++ [y]) (hpq : ∀ ph, p ph → q ph) : u.any q := by
  obtain ⟨i, z, hi, hp⟩ := ha
  refine ⟨i, z, ?_, hpq _ hp⟩
  rw [hu, List.getElem?_append_left (List.getElem?_eq_some_iff.1 hi).1, hi]

theorem any_last (hu : u.handlers = s.handlers ++ [y]) (hq : q y.phase) : u.any q :=
  ⟨s.handlers.length, y, by rw [hu]; simp, hq⟩

/-- A handler goes on that writes and forgets nothing. -/
theorem Kept.goOn (hk : s.Kept pl) (hx : s.handlers[h]? = some x) {known : Finset Path} (hsub : s.known ⊆ known)
    (hc : ∀ t ∈ s.rules, s.cleans pl t x.phase → s.applies pl t ∨ s.others (s.cleans pl t) h ∨
      y.phase.cleans known (activeApprovalRuleTargets pl s.reg) t)
    (hi : ∀ t, s.applies pl t → x.phase.injects t → y.phase.injects t) :
    Kept pl { s.set h y with known := known } := by
  have hmono : ∀ {t : Path} (ph : Phase), s.cleans pl t ph →
      ph.cleans known (activeApprovalRuleTargets pl s.reg) t :=
    fun ph hp => Phase.cleans_mono hp (fun ht => hsub ht) id
  refine ⟨fun t ht => ?_, fun t ht => ?_⟩
  · rcases hk.cleaned t ht with ha | ha
    · exact .inl ha
    · have hor : s.applies pl t ∨ s.others (s.cleans pl t) h ∨
          y.phase.cleans known (activeApprovalRuleTargets pl s.reg) t := by
        rcases others_or_self ha hx with ho | hself
        · exact .inr (.inl ho)
        · exact hc t ht hself
      rcases hor with ha | ho | hy
      · exact .inl ha
      · exact .inr (any_of_others ho rfl hmono)
      · exact .inr (any_of_self hx rfl hy)
  · refine (hk.injected t ht).imp_right fun ha => ?_
    rcases others_or_self ha hx with ho | hself
    · exact any_of_others ho rfl fun _ hp => hp
    · exact any_of_self hx rfl (hi t ht hself)

theorem Kept.goOn_set (hk : s.Kept pl) (hx : s.handlers[h]? = some x)
    (hc : ∀ t ∈ s.rules, s.cleans pl t x.phase → s.applies pl t ∨ s.others (s.cleans pl t) h ∨
      s.cleans pl t y.phase)
    (hi : ∀ t, s.applies pl t → x.phase.injects t → y.phase.injects t) : Kept pl (s.set h y) :=
  hk.goOn hx (Finset.Subset.refl _) hc hi

theorem Kept.forget {id : ℕ} {loops : Bool} {done : Finset Path} (hk : s.Kept pl)
    (hx : s.handlers[h]? = some ⟨id, loops, .removing ∅ done⟩) (hok : s.goesOn pl h (.removing ∅ done)) :
    Kept pl { s.set h y with known := s.known \ done } := by
  refine ⟨fun t ht => ?_, fun t ht => ?_⟩
  · by_cases hd : t ∈ done
    · exact (hok t hd ht).imp_right fun ho => any_of_others ho rfl fun _ hp => hp
    · refine (hk.cleaned t ht).imp_right fun ha => ?_
      rcases others_or_self ha hx with ho | hself
      · exact any_of_others ho rfl fun _ hp =>
          Phase.cleans_mono hp (fun hm => Finset.mem_sdiff.2 ⟨hm, hd⟩) fun ht => ht
      · exact absurd hself (Finset.notMem_empty t)
  · refine (hk.injected t ht).imp_right fun ha => ?_
    rcases others_or_self ha hx with ho | hself
    · exact any_of_others ho rfl fun _ hp => hp
    · exact hself.elim

theorem Kept.proceed (hk : s.Kept pl) (hx : s.handlers[h]? = some x) (hok : s.goesOn pl h x.phase)
    (hs : s.proceed pl h x = some u) : u.Kept pl := by
  obtain ⟨id, loops, ph⟩ := x
  cases ph <;> simp only [State.proceed] at hs
  case gate =>
    obtain rfl := Option.some.inj hs
    cases he : s.enabled with
    | true => exact hk.goOn_set hx (fun t _ hc => .inr (.inr hc)) fun t _ hi => hi
    | false =>
      refine hk.goOn_set hx (fun t ht _ => .inr (.inl (hok he t ht))) fun t ha => ?_
      rw [applies, he] at ha
      cases ha.1
  case snapshot =>
    obtain rfl := Option.some.inj hs
    exact hk.goOn_set hx (fun t _ hc => .inr (.inr (.inl hc))) fun t ha _ => ha.2
  case injecting todo done =>
    by_cases htodo : todo = ∅
    · rw [if_pos htodo] at hs
      subst htodo
      obtain rfl := Option.some.inj hs
      refine hk.goOn hx Finset.subset_union_left (fun t _ hc => .inr (.inr (Finset.mem_union.2 hc))) ?_
      exact fun t _ hi => absurd hi (Finset.notMem_empty t)
    · rw [if_neg htodo] at hs
      cases hs
  case legacy =>
    obtain rfl := Option.some.inj hs
    exact hk.goOn_set hx (fun t _ hc => .inr (.inr (.inl hc))) fun t _ hi => hi.elim
  case candidates ts =>
    obtain rfl := Option.some.inj hs
    refine hk.goOn_set hx (fun t _ hc => ?_) fun t _ hi => hi.elim
    have hmem : t ∈ ts ∪ s.known := Finset.mem_union.2 hc.symm
    rw [if_neg (Finset.ne_empty_of_mem hmem)]
    exact .inr (.inr hmem)
  case sparing ts =>
    obtain rfl := Option.some.inj hs
    refine hk.goOn_set hx (fun t ht hc => ?_) fun t _ hi => hi.elim
    by_cases hact : t ∈ activeApprovalRuleTargets pl s.reg
    · cases he : s.enabled with
      | true => exact .inl ⟨he, hact⟩
      | false => exact .inr (.inl (hok he t hc hact ht))
    · exact .inr (.inr (Finset.mem_sdiff.2 ⟨hc, hact⟩))
  case removing todo done =>
    by_cases htodo : todo = ∅
    · rw [if_pos htodo] at hs
      subst htodo
      obtain rfl := Option.some.inj hs
      exact hk.forget hx hok
    · rw [if_neg htodo] at hs
      cases hs
  case disabling =>
    obtain rfl := Option.some.inj hs
    exact hk.goOn_set hx (fun t _ hc => .inr (.inr hc)) fun t _ hi => hi.elim
  case disablingActive ts =>
    obtain rfl := Option.some.inj hs
    exact hk.goOn_set hx (fun t _ hc => .inr (.inr (Finset.mem_union.2 hc))) fun t _ hi => hi.elim
  case disablingLegacy ts =>
    obtain rfl := Option.some.inj hs
    exact hk.goOn_set hx (fun t _ hc => .inr (.inr (Finset.mem_union_left _ hc))) fun t _ hi => hi.elim
  case announced =>
    obtain rfl := Option.some.inj hs
    exact hk.goOn_set hx (fun t _ hc => hc.elim) fun t _ hi => hi.elim
  case looping => cases hs
  case finished => cases hs

/-- A file gets the rules, and its handler will remember it. -/
theorem Kept.inject {id : ℕ} {loops : Bool} {todo done : Finset Path} (hk : s.Kept pl)
    (hx : s.handlers[h]? = some ⟨id, loops, .injecting todo done⟩) (t : Path) :
    Kept pl { s.set h ⟨id, loops, .injecting (todo.erase t) (insert t done)⟩ with rules := insert t s.rules } := by
  refine ⟨fun i hi => ?_, fun i hi => ?_⟩
  · rcases Finset.mem_insert.1 hi with rfl | hi
    · exact .inr (any_of_self hx rfl (.inr (Finset.mem_insert_self ..)))
    · refine (hk.cleaned i hi).imp_right fun ha => ?_
      rcases others_or_self ha hx with ho | hself
      · exact any_of_others ho rfl fun _ hp => hp
      · exact any_of_self hx rfl (hself.imp_right (Finset.mem_insert_of_mem ·))
  · by_cases hit : i = t
    · exact .inl (Finset.mem_insert.2 (.inl hit))
    · refine (hk.injected i hi).imp (Finset.mem_insert_of_mem ·) fun ha => ?_
      rcases others_or_self ha hx with ho | hself
      · exact any_of_others ho rfl fun _ hp => hp
      · exact any_of_self hx rfl (Finset.mem_erase.2 ⟨hit, hself⟩)

theorem Kept.remove {id : ℕ} {loops : Bool} {todo done : Finset Path} (hk : s.Kept pl)
    (hx : s.handlers[h]? = some ⟨id, loops, .removing todo done⟩)
    (hok : s.applies pl t → s.others (Phase.injects t) h) :
    Kept pl { s.set h ⟨id, loops, .removing (todo.erase t) (insert t done)⟩ with rules := s.rules.erase t } := by
  refine ⟨fun i hi => ?_, fun i hi => ?_⟩
  · obtain ⟨hit, hi⟩ := Finset.mem_erase.1 hi
    refine (hk.cleaned i hi).imp_right fun ha => ?_
    rcases others_or_self ha hx with ho | hself
    · exact any_of_others ho rfl fun _ hp => hp
    · exact any_of_self hx rfl (Finset.mem_erase.2 ⟨hit, hself⟩)
  · by_cases hit : i = t
    · subst hit
      exact .inr (any_of_others (hok hi) rfl fun _ hp => hp)
    · refine (hk.injected i hi).imp (fun hm => Finset.mem_erase.2 ⟨hit, hm⟩) fun ha => ?_
      rcases others_or_self ha hx with ho | hself
      · exact any_of_others ho rfl fun _ hp => hp
      · exact hself.elim

/-- A session comes that no other one has to make room for, or no file of theirs is unknown. -/
theorem Kept.store {id : ℕ} (hk : s.Kept pl) (ses : LiveSession)
    (hok : s.reg.wrappers.lookup id = none ∨ s.rules ⊆ s.known) : Kept pl (s.store id ses) := by
  refine ⟨fun t ht => ?_, fun t _ => .inr (any_last rfl trivial)⟩
  rcases hok with hw | hknown
  · have hact : t ∈ activeApprovalRuleTargets pl s.reg →
        t ∈ activeApprovalRuleTargets pl (s.reg.store id ses s.handlers.length) :=
      mem_active_store hw ses _
    refine (hk.cleaned t ht).imp (And.imp_right hact) fun ha => ?_
    exact any_append ha rfl fun _ hp => Phase.cleans_mono hp (fun ht => ht) hact
  · exact .inr (any_last rfl (hknown ht))

theorem Kept.enable (hk : s.Kept pl) : Kept pl { s.spawn ⟨0, false, .snapshot⟩ with enabled := true } := by
  refine ⟨fun t ht => ?_, fun t _ => .inr (any_last rfl trivial)⟩
  refine (hk.cleaned t ht).imp (And.imp_left fun _ => rfl) fun ha => ?_
  exact any_append ha rfl fun _ hp => hp

theorem Kept.disable (hk : s.Kept pl) : Kept pl { s.spawn ⟨0, false, .disabling⟩ with enabled := false } := by
  refine ⟨fun t ht => ?_, fun t ha => (by cases ha.1)⟩
  rcases hk.cleaned t ht with ha | ha
  · exact .inr (any_last rfl (.inr ha.2))
  · exact .inr (any_append ha rfl fun _ hp => hp)

/-- The end of a connection looks at the files of its session. -/
theorem Kept.disconnect {id : ℕ} {loops : Bool} (hk : s.Kept pl)
    (hx : s.handlers[h]? = some ⟨id, loops, .looping⟩) :
    Kept pl { s.set h ⟨id, false, .candidates (filesOf (providerApprovalRuleTargets pl) s.reg id)⟩ with
      reg := s.reg.disconnect id h } := by
  refine ⟨fun t ht => ?_, fun t ha => ?_⟩
  · by_cases hf : t ∈ filesOf (providerApprovalRuleTargets pl) s.reg id
    · exact .inr (any_of_self hx rfl (.inr hf))
    · have hact : t ∈ activeApprovalRuleTargets pl s.reg →
          t ∈ activeApprovalRuleTargets pl (s.reg.disconnect id h) :=
        fun ha => (mem_active_disconnect h ha).resolve_right hf
      refine (hk.cleaned t ht).imp (And.imp_right hact) fun ha => ?_
      rcases others_or_self ha hx with ho | hself
      · exact any_of_others ho rfl fun _ hp => Phase.cleans_mono hp (fun ht => ht) hact
      · exact hself.elim
  · refine (hk.injected t ⟨ha.1, mem_active_of_disconnect ha.2⟩).imp_right fun ha => ?_
    rcases others_or_self ha hx with ho | hself
    · exact any_of_others ho rfl fun _ hp => hp
    · exact hself.elim

theorem Kept.write {i : Path} (hk : s.Kept pl) (hx : s.handlers[h]? = some x)
    (hok : s.undisturbed pl (.write h i)) (hs : s.write h x i = some u) : u.Kept pl := by
  obtain ⟨id, loops, ph⟩ := x
  simp only [State.write] at hs
  split at hs
  · split_ifs at hs
    obtain rfl := Option.some.inj hs
    exact hk.inject hx i
  · split_ifs at hs
    obtain rfl := Option.some.inj hs
    exact hk.remove hx (hok _ _ _ _ hx)
  · cases hs

theorem Kept.move {a : Action} (hk : s.Kept pl) (hok : s.undisturbed pl a) (hs : s.move pl a = some u) :
    u.Kept pl := by
  cases a with
  | register id provider cwd =>
    obtain rfl := Option.some.inj hs
    exact hk.store _ hok
  | reattach id provider cwd =>
    obtain rfl := Option.some.inj hs
    exact hk.store _ hok
  | handleApprovalEnable =>
    obtain rfl := Option.some.inj hs
    exact hk.enable
  | handleApprovalDisable =>
    obtain rfl := Option.some.inj hs
    exact hk.disable
  | disconnect h =>
    simp only [State.move] at hs
    split at hs
    · rename_i id loops hx
      obtain rfl := Option.some.inj hs
      exact hk.disconnect hx
    · cases hs
  | proceed h =>
    obtain ⟨x, hx, hs⟩ := Option.bind_eq_some_iff.1 hs
    exact hk.proceed hx (hok x hx) hs
  | write h t =>
    obtain ⟨x, hx, hs⟩ := Option.bind_eq_some_iff.1 hs
    exact hk.write hx hok hs

end State

open State

end ManyAiCli.Hub.ApprovalTargets
