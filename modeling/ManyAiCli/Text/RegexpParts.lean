import ManyAiCli.Text.Replace

/-! Matches in a text and in the beginning of it. Of an expression that does not ask for
the end of the text, the matches in the beginning are those of the whole text that end in
it. So a text can be searched part by part where no match goes on from one part into the
next. -/

namespace ManyAiCli.Text

namespace Regexp

/-- The expression does not look at the end of the text. -/
def openEnded : Regexp → Bool
  | empty | char _ | bot => true
  | eot => false
  | seq a b | alt a b => a.openEnded && b.openEnded
  | star a _ | group _ a => a.openEnded

/-- The same place in a longer text. -/
def Cursor.extend (c : Cursor) (y : List Char) : Cursor := { c with rest := c.rest ++ y }

@[simp] theorem Cursor.extend_pos (c : Cursor) (y : List Char) : (c.extend y).pos = c.pos := rfl

@[simp] theorem Cursor.extend_rest (c : Cursor) (y : List Char) : (c.extend y).rest = c.rest ++ y := rfl

/-- A search goes forward in the text. -/
structure Cursor.Leads (c d : Cursor) : Prop where
  pos : c.pos + c.rest.length = d.pos + d.rest.length
  rest : d.rest.length ≤ c.rest.length

theorem Cursor.Leads.refl (c : Cursor) : c.Leads c := ⟨rfl, Nat.le_refl _⟩

theorem Cursor.Leads.trans {c d e : Cursor} (h : c.Leads d) (h' : d.Leads e) : c.Leads e :=
  ⟨h.pos.trans h'.pos, Nat.le_trans h'.rest h.rest⟩

/-- All results of a search are further on. -/
def Forward (search : Cursor → List Cursor) : Prop := ∀ c, ∀ d ∈ search c, c.Leads d

/-- What the rounds of a repetition relate. -/
theorem rounds_induction {search : Cursor → List Cursor} {R : Cursor → Cursor → Prop} (hrefl : ∀ c, R c c)
    (htrans : ∀ c d e, R c d → R d e → R c e) (h : ∀ c, ∀ d ∈ search c, R c d) (greedy : Bool) (n : ℕ)
    (c : Cursor) : ∀ d ∈ rounds search greedy n c, R c d := by
  induction n generalizing c with
  | zero =>
    intro d hd
    obtain rfl := List.mem_singleton.1 hd
    exact hrefl _
  | succ n ih =>
    have hmore : ∀ d ∈ ((search c).filter fun d => c.pos < d.pos).flatMap (rounds search greedy n), R c d :=
      by
      intro d hd
      obtain ⟨e, he, hd⟩ := List.mem_flatMap.1 hd
      exact htrans _ _ _ (h c e (List.mem_of_mem_filter he)) (ih e d hd)
    intro d hd
    rw [rounds] at hd
    split at hd
    · rcases List.mem_append.1 hd with hd | hd
      · exact hmore d hd
      · obtain rfl := List.mem_singleton.1 hd
        exact hrefl _
    · rcases List.mem_cons.1 hd with rfl | hd
      · exact hrefl _
      · exact hmore d hd

theorem forward_rounds {search : Cursor → List Cursor} (h : Forward search) (greedy : Bool) (n : ℕ) :
    Forward (rounds search greedy n) :=
  rounds_induction Cursor.Leads.refl (fun _ _ _ => Cursor.Leads.trans) h greedy n

theorem forward_ends (re : Regexp) : Forward (ends re) := by
  induction re with
  | empty =>
    intro c d hd
    obtain rfl := List.mem_singleton.1 hd
    exact .refl _
  | char p =>
    rintro ⟨pos, rest, groups⟩ d hd
    cases rest with
    | nil => exact absurd hd List.not_mem_nil
    | cons r rest =>
      rw [ends] at hd
      split_ifs at hd
      · obtain rfl := List.mem_singleton.1 hd
        exact ⟨by simp only [List.length_cons]; omega, Nat.le_succ _⟩
      · exact absurd hd List.not_mem_nil
  | seq a b iha ihb =>
    intro c d hd
    obtain ⟨e, he, hd⟩ := List.mem_flatMap.1 hd
    exact (iha c e he).trans (ihb e d hd)
  | alt a b iha ihb =>
    intro c d hd
    exact (List.mem_append.1 hd).elim (iha c d) (ihb c d)
  | star a greedy ih =>
    intro c d hd
    exact forward_rounds ih greedy _ c d hd
  | group n a ih =>
    intro c d hd
    obtain ⟨e, he, rfl⟩ := List.mem_map.1 hd
    exact ⟨(ih c e he).pos, (ih c e he).rest⟩
  | bot =>
    intro c d hd
    rw [ends] at hd
    split_ifs at hd
    · obtain rfl := List.mem_singleton.1 hd
      exact .refl _
    · exact absurd hd List.not_mem_nil
  | eot =>
    intro c d hd
    rw [ends] at hd
    split_ifs at hd
    · obtain rfl := List.mem_singleton.1 hd
      exact .refl _
    · exact absurd hd List.not_mem_nil

/-- The expression has no groups. -/
def groupless : Regexp → Bool
  | empty | char _ | bot | eot => true
  | seq a b | alt a b => a.groupless && b.groupless
  | star a _ => a.groupless
  | group _ _ => false

theorem groups_of_groupless {re : Regexp} (h : re.groupless = true) (c : Cursor) :
    ∀ d ∈ ends re c, d.groups = c.groups := by
  induction re generalizing c with
  | empty =>
    intro d hd
    rw [List.mem_singleton.1 hd]
  | char p =>
    obtain ⟨pos, rest, groups⟩ := c
    intro d hd
    cases rest with
    | nil => exact absurd hd List.not_mem_nil
    | cons r rest =>
      rw [ends] at hd
      split_ifs at hd
      · rw [List.mem_singleton.1 hd]
      · exact absurd hd List.not_mem_nil
  | seq a b iha ihb =>
    rw [groupless, Bool.and_eq_true] at h
    intro d hd
    obtain ⟨e, he, hd⟩ := List.mem_flatMap.1 hd
    exact (ihb h.2 e d hd).trans (iha h.1 c e he)
  | alt a b iha ihb =>
    rw [groupless, Bool.and_eq_true] at h
    intro d hd
    exact (List.mem_append.1 hd).elim (iha h.1 c d) (ihb h.2 c d)
  | star a greedy ih =>
    exact rounds_induction (R := fun c d => d.groups = c.groups) (fun _ => rfl)
      (fun _ _ _ h h' => h'.trans h) (fun c => ih h c) greedy _ c
  | group n a ih => cases h
  | bot =>
    intro d hd
    rw [ends] at hd
    split_ifs at hd
    · rw [List.mem_singleton.1 hd]
    · exact absurd hd List.not_mem_nil
  | eot =>
    intro d hd
    rw [ends] at hd
    split_ifs at hd
    · rw [List.mem_singleton.1 hd]
    · exact absurd hd List.not_mem_nil

/-- What a search finds, it finds at some place of the text. -/
theorem mem_of_search {re : Regexp} {pos : ℕ} {s : List Char} {d : Cursor} (h : search re pos s = some d) :
    ∃ t k, t <:+ s ∧ d ∈ ends re ⟨k, t, []⟩ := by
  induction s generalizing pos with
  | nil => exact ⟨[], pos, List.suffix_rfl, List.mem_of_head? h⟩
  | cons r rest ih =>
    rw [search] at h
    split at h
    next c hc =>
      obtain rfl := Option.some.inj h
      exact ⟨r :: rest, pos, List.suffix_rfl, List.mem_of_head? hc⟩
    next =>
      obtain ⟨t, k, ht, hd⟩ := ih h
      exact ⟨t, k, ht.trans (List.suffix_cons r rest), hd⟩

/-- The place is in the text without its last part `y`. -/
def Cursor.before (y : List Char) (d : Cursor) : Bool := y.length ≤ d.rest.length

theorem flatMap_filter_of {α β : Type*} {f : α → List β} {p : α → Bool} {l : List α}
    (h : ∀ a ∈ l, p a = false → f a = []) : l.flatMap f = (l.filter p).flatMap f := by
  induction l with
  | nil => rfl
  | cons a l ih =>
    rw [List.flatMap_cons, ih fun b hb => h b (List.mem_cons_of_mem a hb)]
    cases hp : p a with
    | false => rw [h a List.mem_cons_self hp, List.filter_cons_of_neg (by simp [hp]), List.nil_append]
    | true => rw [List.filter_cons_of_pos hp, List.flatMap_cons]

variable {y : List Char} {search : Cursor → List Cursor} {a b : Regexp}

theorem filter_eq_nil_of_forward (hs : Forward search) {c : Cursor} (hc : c.before y = false) :
    (search c).filter (Cursor.before y) = [] := by
  rw [List.filter_eq_nil_iff]
  intro d hd
  have hle := (hs c d hd).rest
  simp only [Cursor.before, decide_eq_false_iff_not, decide_eq_true_eq] at hc ⊢
  omega

/-- What a search finds before `y` goes on before `y`. -/
theorem filter_flatMap_of_forward (hs : Forward search) (l : List Cursor) :
    (l.flatMap search).filter (Cursor.before y) =
      (l.filter (Cursor.before y)).flatMap fun d => (search d).filter (Cursor.before y) := by
  rw [List.filter_flatMap]
  exact flatMap_filter_of fun d _ hd => filter_eq_nil_of_forward hs hd

/-- A search in a longer text finds the same before the part `y` that is new. -/
def Extends (y : List Char) (search : Cursor → List Cursor) : Prop :=
  ∀ c : Cursor, (search (c.extend y)).filter (Cursor.before y) = (search c).map fun d => d.extend y

theorem before_extend (c : Cursor) : (c.extend y).before y = true := by
  simp [Cursor.before]

/-- The rounds that take some text. -/
def taking (search : Cursor → List Cursor) (c : Cursor) : List Cursor := (search c).filter fun d => c.pos <
    d.pos

theorem length_of_mem_taking (hs : Forward search) {c d : Cursor} (h : d ∈ taking search c) :
    d.rest.length < c.rest.length := by
  obtain ⟨hd, hpos⟩ := List.mem_filter.1 h
  have hlead := (hs c d hd).pos
  rw [decide_eq_true_eq] at hpos
  omega

/-- With as many rounds as there is text left, one more makes no difference. -/
theorem rounds_eq (hs : Forward search) (greedy : Bool) {n : ℕ} {c : Cursor} (hn : c.rest.length ≤ n) :
    rounds search greedy n c =
      if greedy then (taking search c).flatMap (rounds search greedy (n - 1)) ++ [c]
      else c :: (taking search c).flatMap (rounds search greedy (n - 1)) := by
  cases n with
  | zero =>
    have hnone : taking search c = [] := by
      rw [List.eq_nil_iff_forall_not_mem]
      intro d hd
      have hlt := length_of_mem_taking hs hd
      omega
    rw [hnone, rounds]
    cases greedy <;> rfl
  | succ n => rfl

theorem taking_extend (hext : Extends y search) (c : Cursor) :
    (taking search (c.extend y)).filter (Cursor.before y) = (taking search c).map fun d => d.extend y := by
  have hsame : (search (c.extend y)).filter (Cursor.before y) = (search c).map fun d => d.extend y := hext c
  rw [taking, List.filter_comm, hsame, List.filter_map]
  rfl

theorem rounds_extend (hs : Forward search) (hext : Extends y search) (greedy : Bool) {n m : ℕ} {c : Cursor}
    (hn : c.rest.length + y.length ≤ n) (hm : c.rest.length ≤ m) :
    (rounds search greedy n (c.extend y)).filter (Cursor.before y) =
      (rounds search greedy m c).map fun d => d.extend y := by
  induction h : c.rest.length using Nat.strongRecOn generalizing n m c with
  | _ k ih =>
    have hmore : ((taking search (c.extend y)).flatMap (rounds search greedy (n - 1))).filter
      (Cursor.before y) =
        ((taking search c).flatMap (rounds search greedy (m - 1))).map fun d => d.extend y := by
      rw [filter_flatMap_of_forward (forward_rounds hs greedy _), taking_extend hext, List.flatMap_map,
        List.map_flatMap]
      refine List.flatMap_congr fun d hd => ?_
      have hlt := length_of_mem_taking hs hd
      exact ih d.rest.length (by omega) (by omega) (by omega) rfl
    rw [rounds_eq hs greedy (by simpa using hn), rounds_eq hs greedy hm]
    cases greedy with
    | false =>
      simp only [Bool.false_eq_true, if_false]
      rw [List.filter_cons_of_pos (before_extend c), hmore, List.map_cons]
    | true =>
      simp only [if_true]
      rw [List.filter_append, hmore, List.filter_cons_of_pos (before_extend c), List.map_append]
      rfl

theorem ends_extend {re : Regexp} (h : re.openEnded = true) : Extends y (ends re) := by
  induction re with
  | empty =>
    intro c
    rw [ends, ends, List.filter_cons_of_pos (before_extend c)]
    rfl
  | char p =>
    rintro ⟨pos, rest, groups⟩
    cases rest with
    | nil =>
      cases y with
      | nil => rfl
      | cons r y =>
        simp only [Cursor.extend, List.nil_append, ends]
        split_ifs <;> simp [Cursor.before]
    | cons r rest =>
      simp only [Cursor.extend, List.cons_append, ends]
      split_ifs <;> simp [Cursor.before]
  | seq a b iha ihb =>
    rw [openEnded, Bool.and_eq_true] at h
    intro c
    rw [ends, filter_flatMap_of_forward (forward_ends b), iha h.1 c, List.flatMap_map, ends, List.map_flatMap]
    exact List.flatMap_congr fun d _ => ihb h.2 d
  | alt a b iha ihb =>
    rw [openEnded, Bool.and_eq_true] at h
    intro c
    rw [ends, List.filter_append, iha h.1 c, ihb h.2 c, ends, List.map_append]
  | star a greedy ih =>
    intro c
    exact rounds_extend (forward_ends a) (ih h) greedy (by simp) (Nat.le_refl _)
  | group n a ih =>
    intro c
    rw [ends, List.filter_map]
    have hsame : (ends a (c.extend y)).filter (Cursor.before y) = (ends a c).map fun d => d.extend y := ih h c
    rw [show (Cursor.before y ∘ fun d : Cursor =>
        { d with groups := (n, (c.extend y).rest.take (d.pos - (c.extend y).pos)) :: d.groups }) =
      Cursor.before y from rfl, hsame, ends, List.map_map, List.map_map]
    refine List.map_congr_left fun d hd => ?_
    have hlead := forward_ends a c d hd
    have hlen : d.pos - c.pos ≤ c.rest.length := by
      have hpos := hlead.pos
      omega
    simp only [Function.comp_apply, Cursor.extend, List.take_append_of_le_length hlen]
  | bot =>
    intro c
    rw [ends, ends]
    split_ifs <;> simp_all [before_extend]
  | eot => cases h

end Regexp

/-! ### Search part by part -/

section Parts

open Regexp

variable {α : Type} {val : α → Char} {re : Regexp} {f : List α → List α} {x y a t : List α}

/-- What of `y` is in a match that begins before it. -/
def spill (val : α → Char) (re : Regexp) (y : List α) : ℕ → List α → ℕ
  | skip, [] => skip
  | skip + 1, _ :: s => spill val re y skip s
  | 0, c :: s =>
    match front val re (c :: s ++ y) with
    | some m => spill val re y (m.pos - 1) s
    | none => spill val re y 0 s

/-- The matches that a replacement of all takes, from the left. -/
def found (val : α → Char) (re : Regexp) : ℕ → List α → List (List α)
  | _, [] => []
  | skip + 1, _ :: s => found val re skip s
  | 0, c :: s =>
    match front val re (c :: s) with
    | some m => if m.pos = 0 then found val re 0 s else (c :: s).take m.pos :: found val re (m.pos - 1) s
    | none => found val re 0 s

/-- No match begins in the first of the two texts. -/
def NoFront (val : α → Char) (re : Regexp) (a t : List α) : Prop :=
  ∀ u, u ≠ [] → u <:+ a → front val re (u ++ t) = none

theorem front_pos_le {m : Cursor} (h : front val re x = some m) : m.pos ≤ x.length := by
  have hmem : m ∈ ends re ⟨0, x.map val, []⟩ := List.mem_of_head? h
  have hpos := (forward_ends re _ m hmem).pos
  simp only [List.length_map] at hpos
  omega

/-- A match that ends in a part of the text is found in the part. -/
theorem front_append (hre : re.openEnded = true)
    (h : ∀ m, front val re (x ++ y) = some m → m.pos ≤ x.length) :
    (front val re x).map Cursor.pos = (front val re (x ++ y)).map Cursor.pos := by
  have hext : (ends re ⟨0, (x ++ y).map val, []⟩).filter (Cursor.before (y.map val)) =
      (ends re ⟨0, x.map val, []⟩).map fun d => d.extend (y.map val) := by
    rw [List.map_append]
    exact ends_extend hre ⟨0, x.map val, []⟩
  rw [front, front] at *
  cases hall : ends re ⟨0, (x ++ y).map val, []⟩ with
  | nil =>
    rw [hall, List.filter_nil] at hext
    rw [List.map_eq_nil_iff.1 hext.symm]
  | cons m ms =>
    have hpos := (forward_ends re _ m (hall ▸ List.mem_cons_self)).pos
    have hle := h m (by rw [hall]; rfl)
    have hbefore : m.before (y.map val) = true := by
      simp only [Cursor.before, decide_eq_true_eq]
      simp only [List.length_map, List.length_append] at hpos ⊢
      omega
    rw [hall, List.filter_cons_of_pos hbefore] at hext
    cases hpart : ends re ⟨0, x.map val, []⟩ with
    | nil => simp [hpart] at hext
    | cons d ds =>
      rw [hpart, List.map_cons] at hext
      rw [List.head?_cons, List.head?_cons, Option.map_some, Option.map_some, (List.cons.inj hext).1]
      rfl

theorem spill_ge (skip : ℕ) (x : List α) : skip ≤ x.length + spill val re y skip x := by
  induction x generalizing skip with
  | nil => simp [spill]
  | cons c x ih =>
    cases skip with
    | zero => exact Nat.zero_le _
    | succ skip =>
      have hle := ih skip
      simp only [spill, List.length_cons]
      omega

/-- Where no match goes over the border, the two parts are searched on their own. -/
theorem front_cases {c : α} (hre : re.openEnded = true) (h : spill val re y 0 (c :: x) = 0) :
    (front val re (c :: x ++ y) = none ∧ front val re (c :: x) = none ∧ spill val re y 0 x = 0) ∨
      ∃ m m', front val re (c :: x ++ y) = some m ∧ front val re (c :: x) = some m' ∧ m'.pos = m.pos ∧
        m.pos ≤ (c :: x).length ∧ spill val re y (m.pos - 1) x = 0 := by
  cases hfront : front val re (c :: x ++ y) with
  | none =>
    have hpart := front_append hre (x := c :: x) (y := y) fun m hm => by rw [hfront] at hm; cases hm
    rw [hfront, Option.map_none, Option.map_eq_none_iff] at hpart
    refine .inl ⟨rfl, hpart, ?_⟩
    rwa [spill, hfront] at h
  | some m =>
    rw [spill, hfront] at h
    replace h : spill val re y (m.pos - 1) x = 0 := h
    have hle : m.pos ≤ (c :: x).length := by
      have hge : m.pos - 1 ≤ x.length + spill val re y (m.pos - 1) x := spill_ge _ _
      rw [List.length_cons]
      omega
    have hpart := front_append hre (x := c :: x) (y := y) fun m' hm => by
      rw [hfront] at hm
      exact Option.some.inj hm ▸ hle
    rw [hfront, Option.map_some, Option.map_eq_some_iff] at hpart
    obtain ⟨m', hm', hpos⟩ := hpart
    exact .inr ⟨m, m', rfl, hm', hpos, hle, h⟩

theorem replaceAllFunc_append (hre : re.openEnded = true) {skip : ℕ} (h : spill val re y skip x = 0) :
    replaceAllFunc val re f skip (x ++ y) = replaceAllFunc val re f skip x ++ replaceAllFunc val re f 0 y :=
      by
  induction x generalizing skip with
  | nil =>
    obtain rfl : skip = 0 := h
    rfl
  | cons c x ih =>
    cases skip with
    | succ skip => exact ih h
    | zero =>
      rcases front_cases hre h with ⟨hwhole, hpart, hx⟩ | ⟨m, m', hwhole, hpart, hpos, hle, hx⟩
      · rw [List.cons_append] at hwhole
        rw [List.cons_append, replaceAllFunc, hwhole, replaceAllFunc, hpart]
        exact congrArg (c :: ·) (ih hx)
      · rw [List.cons_append] at hwhole
        rw [List.cons_append, replaceAllFunc, hwhole, replaceAllFunc, hpart]
        simp only [hpos]
        split_ifs with hzero
        · rw [hzero] at hx
          exact congrArg (c :: ·) (ih hx)
        · have htake : (c :: (x ++ y)).take m.pos = (c :: x).take m.pos := List.take_append_of_le_length hle
          rw [ih hx, htake, List.append_assoc]

theorem found_append (hre : re.openEnded = true) {skip : ℕ} (h : spill val re y skip x = 0) :
    found val re skip (x ++ y) = found val re skip x ++ found val re 0 y := by
  induction x generalizing skip with
  | nil =>
    obtain rfl : skip = 0 := h
    rfl
  | cons c x ih =>
    cases skip with
    | succ skip => exact ih h
    | zero =>
      rcases front_cases hre h with ⟨hwhole, hpart, hx⟩ | ⟨m, m', hwhole, hpart, hpos, hle, hx⟩
      · rw [List.cons_append] at hwhole
        rw [List.cons_append, found, hwhole, found, hpart]
        exact ih hx
      · rw [List.cons_append] at hwhole
        rw [List.cons_append, found, hwhole, found, hpart]
        simp only [hpos]
        split_ifs with hzero
        · rw [hzero] at hx
          exact ih hx
        · have htake : (c :: (x ++ y)).take m.pos = (c :: x).take m.pos := List.take_append_of_le_length hle
          rw [ih hx, htake, List.cons_append]

theorem NoFront.tail {c : α} (h : NoFront val re (c :: a) t) :
    front val re (c :: (a ++ t)) = none ∧ NoFront val re a t :=
  ⟨h (c :: a) (List.cons_ne_nil c a) List.suffix_rfl,
    fun u hne hu => h u hne (hu.trans (List.suffix_cons c a))⟩

/-- Where no match begins, nothing changes. -/
theorem replaceAllFunc_of_noFront (h : NoFront val re a t) :
    replaceAllFunc val re f 0 (a ++ t) = a ++ replaceAllFunc val re f 0 t := by
  induction a with
  | nil => rfl
  | cons c a ih => rw [List.cons_append, replaceAllFunc, h.tail.1, ih h.tail.2, List.cons_append]

theorem found_of_noFront (h : NoFront val re a t) : found val re 0 (a ++ t) = found val re 0 t := by
  induction a with
  | nil => rfl
  | cons c a ih => rw [List.cons_append, found, h.tail.1, ih h.tail.2]

/-- If a replacement splits what a match holds into what stays and what goes, the same is
so of the text. -/
theorem perm_replaceAllFunc {β : Type*} (h : α → List β) {gone : List α → List α}
    (hf : ∀ m : List α, (m.flatMap h).Perm ((f m).flatMap h ++ (gone m).flatMap h)) (skip : ℕ) (s : List α) :
    ((s.drop skip).flatMap h).Perm ((replaceAllFunc val re f skip s).flatMap h ++
      (found val re skip s).flatMap fun m => (gone m).flatMap h) := by
  induction s generalizing skip with
  | nil => cases skip <;> exact .refl _
  | cons c s ih =>
    have hstay : ((c :: s).flatMap h).Perm ((c :: replaceAllFunc val re f 0 s).flatMap h ++
        (found val re 0 s).flatMap fun m => (gone m).flatMap h) := by
      rw [List.flatMap_cons, List.flatMap_cons, List.append_assoc]
      exact (ih 0).append_left (h c)
    cases skip with
    | succ skip => exact ih skip
    | zero =>
      rw [List.drop_zero, replaceAllFunc, found]
      cases front val re (c :: s) with
      | none => exact hstay
      | some m =>
        dsimp only
        split_ifs with hzero
        · exact hstay
        · have hsplit : c :: s = (c :: s).take m.pos ++ s.drop (m.pos - 1) := by
            obtain ⟨k, hk⟩ := Nat.exists_eq_succ_of_ne_zero hzero
            rw [hk, Nat.succ_sub_one, List.take_succ_cons, List.cons_append, List.take_append_drop]
          conv_lhs => rw [hsplit]
          rw [List.flatMap_append, List.flatMap_append, List.flatMap_cons]
          refine ((hf _).append (ih _)).trans ?_
          rw [List.append_assoc, List.append_assoc]
          exact .append_left _ ((List.perm_append_comm_assoc _ _ _))

end Parts

end ManyAiCli.Text
