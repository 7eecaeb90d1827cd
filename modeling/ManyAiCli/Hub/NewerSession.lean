import ManyAiCli.Hub.Connections
import ManyAiCli.Runs.Jobs

/-! Does the end of a connection leave a newer session under its ID alone? It does if each
step of the newer one's start comes after the step of the old one's end that undoes the same
thing: the row after `EndSession`, the session object after `DeleteSessionUsageStat` and the
announcement after `session_end`. -/

namespace ManyAiCli.Hub.Connections

open Runs SessionStore

namespace State

/-- A step of connection `c`, of the ID, changes no session object of another connection,
not its usage entry and not the row of its start. -/
structure Spares (s t : State) (c id : ℕ) : Prop where
  object : ∀ ses, s.sessions.lookup id = some ses → ses.conn ≠ c → t.sessions.lookup id = some ses
  usage : ∀ ses, s.sessions.lookup id = some ses → ses.conn ≠ c → (id ∈ t.usage ↔ id ∈ s.usage)
  row : ∀ ses, s.sessions.lookup id = some ses → ses.conn ≠ c →
    ∀ r ∈ s.store.rows, r.id = ses.storeID → r ∈ t.store.rows
  startedRow : ∀ (d : ℕ) (y : Conn) storeID cardMeta, s.conns[d]? = some y → d ≠ c → y.id = id →
    y.phase = .store storeID cardMeta → ∀ r ∈ s.store.rows, r.id = storeID → r ∈ t.store.rows

end State

/-- The steps of a connection in their order. -/
def Phase.rank : Phase → ℕ
  | .attach => 0
  | .store _ _ => 1
  | .announce => 2
  | .looping => 3
  | .ending _ _ => 4
  | .deleting => 5
  | .closing => 6
  | .finished => 7

/-- What the other connections of the ID have to be at for the step: past `EndSession`, past
`DeleteSessionUsageStat`, past the `session_end`. -/
def Phase.waits : Phase → ℕ
  | .attach => 5
  | .store _ _ => 6
  | .announce => 7
  | _ => 0

/-- No step of a start comes before the matching step at the end of another connection of
the ID, unless that one has not started yet either. -/
def State.inOrder (s : State) : Action → Prop
  | .proceed c _ => ∀ x, s.conns[c]? = some x → ∀ (d : ℕ) (y : Conn), s.conns[d]? = some y → d ≠ c → y.id = x.id →
      y.phase = .attach ∨ x.phase.waits ≤ y.phase.rank
  | _ => True

instance (s : State) (a : Action) : Decidable (s.inOrder a) :=
  match a with
  | .proceed c _ => decidable_of_iff
      (∀ x ∈ s.conns[c]?, ∀ d < s.conns.length, ∀ y ∈ s.conns[d]?, d ≠ c → y.id = x.id →
        y.phase = .attach ∨ x.phase.waits ≤ y.phase.rank)
      ⟨fun h x hx d y hy => h x hx d (List.getElem?_eq_some_iff.1 hy).1 y hy, fun h x hx d _ y hy => h x hx d y hy⟩
  | .register _ _ _ | .reattach _ _ _ _ | .dismiss _ | .proceedDismiss _ _ | .setState _ _ _ | .usage _
  | .update _ _ | .restart _ => .isTrue trivial

/-! ### Connections of one ID are apart -/

/-- What the other connections of the ID are at, in a phase. -/
def Phase.needs : Phase → ℕ
  | .attach | .finished => 0
  | .store _ _ => 5
  | .announce => 6
  | _ => 7

theorem Phase.Next.rank_le {p q : Phase} (h : p.Next q) : p.rank ≤ q.rank := by
  cases p <;> cases q <;> first | exact h.elim | (simp [Phase.rank])

theorem Phase.Next.needs_le {p q : Phase} (h : p.Next q) : q.needs ≤ p.needs ∨ q.needs ≤ p.waits := by
  cases p <;> cases q <;> first | exact h.elim | (simp [Phase.needs, Phase.waits])

theorem Phase.Next.between {p q : Phase} (h : p.Next q) (hq : q ≠ .announce) :
    q.rank < 2 ∨ 6 ≤ q.rank ∨ 2 ≤ p.rank ∧ p.rank < 6 := by
  cases p <;> cases q <;> first | exact h.elim | exact absurd rfl hq | (simp [Phase.rank])

/-- Of two phases one is far enough for the other. -/
def Phase.Apart (p q : Phase) : Prop := q.needs ≤ p.rank ∨ p.needs ≤ q.rank

theorem Phase.Apart.symm {p q : Phase} (h : p.Apart q) : q.Apart p := Or.symm h

theorem Phase.Apart.next {p p' q : Phase} (h : p.Apart q) (hn : p.Next p')
    (hok : q = .attach ∨ p.waits ≤ q.rank) : p'.Apart q := by
  rcases h with h | h
  · exact .inl (h.trans hn.rank_le)
  · rcases hn.needs_le with hle | hle
    · exact .inr (hle.trans h)
    · rcases hok with rfl | hok
      · exact .inl (Nat.zero_le _)
      · exact .inr (hle.trans hok)

namespace State

variable {s t : State} {c id : ℕ} {x : Conn} {q : Phase} {es fs : List Event}

/-- Two connections of one ID are apart. -/
def Apart (s : State) : Prop := ∀ (c d : ℕ) (x y : Conn), s.conns[c]? = some x → s.conns[d]? = some y →
  c ≠ d → x.id = y.id → x.phase.Apart y.phase

/-- Where a session has its object, no other connection of the ID is between its store and its end. -/
def Own (s : State) : Prop := ∀ id ses, s.sessions.lookup id = some ses →
  ∀ (c : ℕ) (y : Conn), s.conns[c]? = some y → c ≠ ses.conn → y.id = id → y.phase.rank < 2 ∨ 6 ≤ y.phase.rank

/-- The last message about an open session is no `session_end`. -/
def Last (es : List Event) (s : State) : Prop :=
  ∀ (c : ℕ) (x : Conn), s.conns[c]? = some x → x.phase = .looping → lastUI es x.id ≠ some .sessionEnd

variable {a : Action}

/-- The connections after a step: as before, or one that has just started or gone on. -/
theorem ConnStep.getElem? (h : s.ConnStep c x q t fs) {d : ℕ} {y : Conn} (hy : t.conns[d]? = some y) :
    d = c ∧ y = { x with phase := q } ∨ d ≠ c ∧ s.conns[d]? = some y := by
  rw [h.conns] at hy
  exact getElem?_set_cases hy

theorem getElem?_spawn {d : ℕ} {y : Conn} (ht : t.conns = s.conns ++ [x]) (hy : t.conns[d]? = some y) :
    s.conns[d]? = some y ∨ y = x := by
  rw [ht] at hy
  rcases lt_or_ge d s.conns.length with hd | hd
  · rw [List.getElem?_append_left hd] at hy
    exact .inl hy
  · rw [List.getElem?_append_right hd] at hy
    exact .inr (List.mem_singleton.1 (List.mem_of_getElem? hy))

theorem Apart.step (h : s.Apart) (hok : s.inOrder a) (hs : s.step a = some (t, fs)) : t.Apart := by
  intro d e y z hy hz hne hid
  rcases step_conns hs with ⟨c, now, x, q, rfl, hx, hc⟩ | ⟨x, hconns, -, hph, -⟩ | ⟨hconns, -⟩ | ⟨hconns, -⟩
  · rcases hc.getElem? hy with ⟨rfl, rfl⟩ | ⟨hdc, hy⟩
    · rcases hc.getElem? hz with ⟨rfl, rfl⟩ | ⟨hec, hz⟩
      · exact absurd rfl hne
      · exact (h d e x z hx hz hne hid).next hc.next (hok x hx e z hz hec hid.symm)
    · rcases hc.getElem? hz with ⟨rfl, rfl⟩ | ⟨hec, hz⟩
      · exact ((h e d x y hx hy hne.symm hid.symm).next hc.next (hok x hx d y hy hdc hid)).symm
      · exact h d e y z hy hz hne hid
  · rcases getElem?_spawn hconns hy with hy | rfl
    · rcases getElem?_spawn hconns hz with hz | rfl
      · exact h d e y z hy hz hne hid
      · exact .inl (by rw [hph]; exact Nat.zero_le _)
    · exact .inr (by rw [hph]; exact Nat.zero_le _)
  · rw [hconns] at hy
    cases hy
  · rw [hconns] at hy hz
    exact h d e y z hy hz hne hid

/-- A step that puts no connection between its store and its end. -/
theorem Own.of_conns (h : s.Own) (hm : s.SameMakers t) (hconns : ∀ (d : ℕ) (y : Conn), t.conns[d]? = some y →
    y.phase.rank < 2 ∨ 6 ≤ y.phase.rank ∨ ∃ z, s.conns[d]? = some z ∧ z.id = y.id ∧
      2 ≤ z.phase.rank ∧ z.phase.rank < 6) : t.Own := by
  intro id ses hses d y hy hne hid
  obtain ⟨ses₀, hses₀, hmaker⟩ := hm id ses hses
  rcases hconns d y hy with hlt | hge | ⟨z, hz, hzid, hz2, hz6⟩
  · exact .inl hlt
  · exact .inr hge
  · have := h id ses₀ hses₀ d z hz (hmaker ▸ hne) (hzid.trans hid)
    omega

theorem Own.step (h : s.Own) (hok : s.inOrder a) (hs : s.step a = some (t, fs)) : t.Own := by
  have hsame : ∀ (d : ℕ) (y : Conn), s.conns[d]? = some y → y.phase.rank < 2 ∨ 6 ≤ y.phase.rank ∨
      ∃ z, s.conns[d]? = some z ∧ z.id = y.id ∧ 2 ≤ z.phase.rank ∧ z.phase.rank < 6 := by
    intro d y hy
    by_cases hlt : y.phase.rank < 2
    · exact .inl hlt
    · by_cases hge : 6 ≤ y.phase.rank
      · exact .inr (.inl hge)
      · exact .inr (.inr ⟨y, hy, rfl, Nat.le_of_not_lt hlt, Nat.lt_of_not_le hge⟩)
  rcases step_conns hs with ⟨c, now, x, q, rfl, hx, hc⟩ | ⟨x, hconns, -, hph, hses, -⟩ | ⟨hconns, -⟩ |
    ⟨hconns, hm, -⟩
  · rcases hc.makers with ⟨hq, hm⟩ | ⟨rfl, ses, hmaker, hses⟩
    · refine h.of_conns hm fun d y hy => ?_
      rcases hc.getElem? hy with ⟨rfl, rfl⟩ | ⟨-, hy⟩
      · rcases hc.next.between hq with hlt | hge | ⟨h2, h6⟩
        · exact .inl hlt
        · exact .inr (.inl hge)
        · exact .inr (.inr ⟨x, hx, rfl, h2, h6⟩)
      · exact hsame d y hy
    · intro id ses' hses' d y hy hne hid
      rw [hses] at hses'
      rcases hc.getElem? hy with ⟨rfl, rfl⟩ | ⟨hdc, hy⟩
      · subst hid
        rw [AList.lookup_insert] at hses'
        obtain rfl := Option.some.inj hses'
        exact absurd hmaker.symm hne
      · by_cases hxi : id = x.id
        · subst hxi
          have hwaits : 6 ≤ x.phase.waits := by
            have hnext := hc.next
            cases hph : x.phase <;> rw [hph] at hnext <;> first | exact hnext.elim | exact Nat.le_refl 6
          rcases hok x hx d y hy hdc hid with hph | hge
          · exact .inl (by rw [hph]; decide)
          · exact .inr (hwaits.trans hge)
        · rw [AList.lookup_insert_ne hxi] at hses'
          exact h id ses' hses' d y hy hne hid
  · refine h.of_conns (.of_eq hses) fun d y hy => ?_
    rcases getElem?_spawn hconns hy with hy | rfl
    · exact hsame d y hy
    · exact .inl (by rw [hph]; decide)
  · intro id ses _ d y hy
    rw [hconns] at hy
    cases hy
  · exact h.of_conns hm fun d y hy => hsame d y (hconns ▸ hy)

/-! ### The last message -/

theorem lastUI_append : lastUI (es ++ fs) id = (lastUI fs id).or (lastUI es id) := by
  rw [lastUI, List.reverse_append, List.findSome?_append]
  rfl

theorem mem_of_lastUI {msg : UIMessage} (h : lastUI es id = some msg) : .ui id msg ∈ es := by
  obtain ⟨e, he, hm⟩ := List.exists_of_findSome?_eq_some h
  cases e with
  | attached _ _ _ _ => cases hm
  | ui id' msg' =>
    simp only at hm
    split_ifs at hm with hid
    obtain rfl := Option.some.inj hm
    exact hid ▸ List.mem_reverse.1 he

/-- The session was open before, and the step has sent no `session_end` about it. -/
theorem Last.of_mem (h : s.Last es) {d : ℕ} {y : Conn} (hy : s.conns[d]? = some y) (hl : y.phase = .looping)
    (hno : .ui y.id .sessionEnd ∉ fs) : lastUI (es ++ fs) y.id ≠ some .sessionEnd := by
  rw [lastUI_append]
  intro he
  rcases Option.or_eq_some_iff.1 he with hf | ⟨-, he⟩
  · exact hno (mem_of_lastUI hf)
  · exact h d y hy hl he

theorem Last.step (h : s.Last es) (hap : s.Apart) (hs : s.step a = some (t, fs)) : t.Last (es ++ fs) := by
  intro d y hy hl
  rcases step_conns hs with ⟨c, now, x, q, rfl, hx, hc⟩ | ⟨x, hconns, -, hph, -, rfl⟩ | ⟨hconns, -⟩ |
    ⟨hconns, -, hno⟩
  · rcases hc.getElem? hy with ⟨rfl, rfl⟩ | ⟨hdc, hy⟩
    · have hlast : lastUI (es ++ fs) x.id = some .sessionUpdate := by
        rw [lastUI_append, hc.announced hl]
        rfl
      rw [hlast]
      simp
    · refine h.of_mem hy hl fun he => ?_
      obtain ⟨hph, hid⟩ := hc.ended y.id he
      -- the session that ends and the one that is open are not apart
      have hapart := hap c d x y hx hy hdc.symm hid
      rw [hph, hl] at hapart
      exact absurd hapart (by simp [Phase.Apart, Phase.needs, Phase.rank])
  · rcases getElem?_spawn hconns hy with hy | rfl
    · exact h.of_mem hy hl fun he => nomatch he
    · rw [hph] at hl
      cases hl
  · rw [hconns] at hy
    cases hy
  · exact h.of_mem (hconns ▸ hy) hl (hno y.id)

/-! ### The end of a connection -/

end State

open State

end ManyAiCli.Hub.Connections
