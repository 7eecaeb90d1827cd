import ManyAiCli.Yaml.Codec

/-! Records. A block of fields is put together from single fields, each of which is always written
or written only where it is not zero; the keys of a block are distinct, so every field is read
from its own entry. A record is a block seen through its constructor. -/

namespace ManyAiCli.Yaml

/-- The fields of a record, as the entries they are written as and read from. -/
structure Fields (α : Type) where
  keys : List String
  zero : α
  isZero : α → Bool
  encode : α → List (String × Node)
  /-- Reads the entries over a value. -/
  decode : List (String × Node) → α → Option α
  isZero_zero : isZero zero = true
  keys_nodup : keys.Nodup
  encode_keys : ∀ a, ((encode a).map Prod.fst).Sublist keys
  /-- Only the entries of the block's own keys are read. -/
  decode_congr : ∀ es es', (∀ k ∈ keys, es.lookup k = es'.lookup k) → decode es = decode es'

namespace Fields

variable {α β : Type}

/-- The fields that are read back as they were written, over the value `init`. -/
def Recovers (F : Fields α) (init a : α) : Prop := F.decode (F.encode a) init = some a

class Exact (F : Fields α) : Prop where
  eq_zero : ∀ a, F.isZero a = true → a = F.zero
  recovers : ∀ a, F.Recovers F.zero a

class Overwrites (F : Fields α) : Prop where
  recovers : ∀ init a, F.Recovers init a

/-- Reads the entry of a key over a value; without the entry the value stays. -/
def readKey (c : Codec α) (key : String) (es : List (String × Node)) (init : α) : Option α :=
  match es.lookup key with
  | none => some init
  | some n => c.unmarshal n init

theorem readKey_nil (c : Codec α) (key : String) (init : α) : readKey c key [] init = some init :=
  rfl

theorem readKey_singleton (c : Codec α) (key : String) (n : Node) (init : α) :
    readKey c key [(key, n)] init = c.unmarshal n init := by
  simp only [readKey, List.lookup_cons, beq_self_eq_true]

/-! ### Single fields -/

/-- A field that is always written. -/
def field (key : String) (c : Codec α) : Fields α where
  keys := [key]
  zero := c.zero
  isZero := c.isZero
  encode a := [(key, c.marshal a)]
  decode := readKey c key
  isZero_zero := c.isZero_zero
  keys_nodup := List.nodup_singleton key
  encode_keys _ := List.Sublist.refl _
  decode_congr es es' h := by
    funext init
    rw [readKey, readKey, h key (List.mem_singleton_self key)]

/-- A field left out where it is zero. -/
def omitempty (key : String) (c : Codec α) : Fields α where
  keys := [key]
  zero := c.zero
  isZero := c.isZero
  encode a := if c.isZero a then [] else [(key, c.marshal a)]
  decode := readKey c key
  isZero_zero := c.isZero_zero
  keys_nodup := List.nodup_singleton key
  encode_keys a := by
    split
    next => exact List.nil_sublist _
    next => exact List.Sublist.refl _
  decode_congr es es' h := by
    funext init
    rw [readKey, readKey, h key (List.mem_singleton_self key)]

/-- A pointer left out where it is nil. -/
def pointer (key : String) (c : Codec α) : Fields (Option α) where
  keys := [key]
  zero := none
  isZero p := p.isNone
  encode p := (p.map fun a => (key, c.marshal a)).toList
  decode es init :=
    match es.lookup key with
    | none => some init
    | some n => if n.isNull then some none else (c.unmarshal n (init.getD c.zero)).map some
  isZero_zero := rfl
  keys_nodup := List.nodup_singleton key
  encode_keys p := by
    cases p with
    | none => exact List.nil_sublist _
    | some a => exact List.Sublist.refl _
  decode_congr es es' h := by
    funext init
    rw [h key (List.mem_singleton_self key)]

section Single

variable {key : String} {c : Codec α}

theorem field_recovers {init a : α} : (field key c).Recovers init a ↔ c.Recovers init a := by
  change readKey c key [(key, c.marshal a)] init = some a ↔ _
  rw [readKey_singleton]
  exact Iff.rfl

theorem omitempty_recovers {init a : α} (ha : c.isZero a = false) :
    (omitempty key c).Recovers init a ↔ c.Recovers init a := by
  change readKey c key (if c.isZero a then [] else [(key, c.marshal a)]) init = some a ↔ _
  rw [ha, if_neg Bool.false_ne_true, readKey_singleton]
  exact Iff.rfl

/-- A zero that is left out is read back only over itself. -/
theorem omitempty_recovers_isZero {init a : α} (ha : c.isZero a = true) :
    (omitempty key c).Recovers init a ↔ init = a := by
  change readKey c key (if c.isZero a then [] else [(key, c.marshal a)]) init = some a ↔ _
  rw [ha, if_pos rfl, readKey_nil, Option.some.injEq]

theorem omitempty_recovers_zero [hc : c.Exact] (a : α) :
    (omitempty key c).Recovers c.zero a := by
  cases ha : c.isZero a with
  | true => exact (omitempty_recovers_isZero ha).mpr (hc.eq_zero a ha).symm
  | false => exact (omitempty_recovers ha).mpr (hc.recovers a)

instance [hc : c.Overwrites] : (field key c).Overwrites :=
  ⟨fun init a => field_recovers.mpr (hc.recovers init a)⟩

instance [hc : c.Exact] : (field key c).Exact :=
  ⟨hc.eq_zero, fun a => field_recovers.mpr (hc.recovers a)⟩

instance [hc : c.Exact] : (omitempty key c).Exact := ⟨hc.eq_zero, omitempty_recovers_zero⟩

instance [hc : c.Exact] : (pointer key c).Exact where
  eq_zero p hp := Option.isNone_iff_eq_none.mp hp
  recovers p := by
    cases p with
    | none => rfl
    | some a =>
      have ha : c.unmarshal (c.marshal a) c.zero = some a := hc.recovers a
      change (match List.lookup key [(key, c.marshal a)] with
        | none => some none
        | some n => if n.isNull then some none else (c.unmarshal n c.zero).map some) = _
      simp only [List.lookup_cons, beq_self_eq_true, c.notNull, Bool.false_eq_true, if_false, ha,
        Option.map_some]

end Single

/-! ### Several fields -/

section Block

variable (F : Fields α) (G : Fields β)

theorem lookup_encode_of_notMem (a : α) {k : String} (hk : k ∉ F.keys) :
    (F.encode a).lookup k = none := by
  rw [List.lookup_eq_none_iff]
  intro e he
  rw [bne_iff_ne]
  rintro rfl
  exact hk ((F.encode_keys a).subset (List.mem_map_of_mem he))

/-- Two blocks without a common key. -/
def and (h : ∀ k ∈ F.keys, k ∉ G.keys := by decide) : Fields (α × β) where
  keys := F.keys ++ G.keys
  zero := (F.zero, G.zero)
  isZero p := F.isZero p.1 && G.isZero p.2
  encode p := F.encode p.1 ++ G.encode p.2
  decode es init := (F.decode es init.1).bind fun a => (G.decode es init.2).map (a, ·)
  isZero_zero := by rw [F.isZero_zero, G.isZero_zero, Bool.and_self]
  keys_nodup := by
    rw [List.nodup_append]
    exact ⟨F.keys_nodup, G.keys_nodup, fun k hk k' hk' he => h k hk (he ▸ hk')⟩
  encode_keys p := by
    rw [List.map_append]
    exact (F.encode_keys p.1).append (G.encode_keys p.2)
  decode_congr es es' hes := by
    funext init
    rw [F.decode_congr es es' fun k hk => hes k (List.mem_append_left _ hk),
      G.decode_congr es es' fun k hk => hes k (List.mem_append_right _ hk)]

variable {F G}

/-- Each of two blocks is read back by itself. -/
theorem and_recovers {h : ∀ k ∈ F.keys, k ∉ G.keys} {init p : α × β} :
    (F.and G h).Recovers init p ↔ F.Recovers init.1 p.1 ∧ G.Recovers init.2 p.2 := by
  have hF : F.decode (F.encode p.1 ++ G.encode p.2) = F.decode (F.encode p.1) := by
    apply F.decode_congr
    intro k hk
    rw [List.lookup_append, G.lookup_encode_of_notMem p.2 (h k hk), Option.or_none]
  have hG : G.decode (F.encode p.1 ++ G.encode p.2) = G.decode (G.encode p.2) := by
    apply G.decode_congr
    intro k hk
    rw [List.lookup_append, F.lookup_encode_of_notMem p.1 fun hk' => h k hk' hk, Option.none_or]
  change (F.decode (F.encode p.1 ++ G.encode p.2) init.1).bind
    (fun a => (G.decode (F.encode p.1 ++ G.encode p.2) init.2).map (a, ·)) = some p ↔ _
  rw [hF, hG]
  simp only [Recovers, Option.bind_eq_some_iff, Option.map_eq_some_iff]
  constructor
  · rintro ⟨a, ha, b, hb, rfl⟩
    exact ⟨ha, hb⟩
  · rintro ⟨ha, hb⟩
    exact ⟨p.1, ha, p.2, hb, rfl⟩

instance [hF : F.Exact] [hG : G.Exact] {h : ∀ k ∈ F.keys, k ∉ G.keys} : (F.and G h).Exact where
  eq_zero p hp := by
    obtain ⟨h₁, h₂⟩ := Bool.and_eq_true_iff.mp hp
    exact Prod.ext (hF.eq_zero p.1 h₁) (hG.eq_zero p.2 h₂)
  recovers p := and_recovers.mpr ⟨hF.recovers p.1, hG.recovers p.2⟩

instance [hF : F.Overwrites] [hG : G.Overwrites] {h : ∀ k ∈ F.keys, k ∉ G.keys} :
    (F.and G h).Overwrites :=
  ⟨fun init p => and_recovers.mpr ⟨hF.recovers init.1 p.1, hG.recovers init.2 p.2⟩⟩

end Block

end Fields

/-! ### Records -/

section Records

variable {α β : Type}

/-- A record whose fields are those of `F`; no key may come twice in the document. -/
def record (F : Fields α) (toFields : β → α) (ofFields : α → β)
    (_h : ∀ b, ofFields (toFields b) = b) (h' : ∀ a, toFields (ofFields a) = a) : Codec β where
  zero := ofFields F.zero
  isZero b := F.isZero (toFields b)
  marshal b := .map (F.encode (toFields b))
  unmarshal
    | .scalar .null _, init => some init
    | .map entries, init =>
      if (entries.map Prod.fst).Nodup then (F.decode entries (toFields init)).map ofFields
      else none
    | _, _ => none
  isZero_zero := by rw [h', F.isZero_zero]
  notNull _ := rfl

variable {F : Fields α} {toFields : β → α} {ofFields : α → β}
  {h : ∀ b, ofFields (toFields b) = b} {h' : ∀ a, toFields (ofFields a) = a}

/-- A record is read back exactly when its fields are. -/
theorem record_recovers {init b : β} : (record F toFields ofFields h h').Recovers init b ↔
    F.Recovers (toFields init) (toFields b) := by
  have hn : ((F.encode (toFields b)).map Prod.fst).Nodup :=
    (F.encode_keys (toFields b)).nodup F.keys_nodup
  change (if _ then (F.decode (F.encode (toFields b)) (toFields init)).map ofFields else none) =
    some b ↔ _
  rw [if_pos hn, Option.map_eq_some_iff]
  constructor
  · rintro ⟨a, ha, rfl⟩
    rw [Fields.Recovers, h', ← ha, h']
  · intro hb
    exact ⟨toFields b, hb, h b⟩

instance [hF : F.Exact] : (record F toFields ofFields h h').Exact where
  eq_zero b hb := by
    rw [← h b, hF.eq_zero (toFields b) hb]
    rfl
  recovers b := by
    rw [record_recovers]
    change F.Recovers (toFields (ofFields F.zero)) (toFields b)
    rw [h']
    exact hF.recovers (toFields b)

instance [hF : F.Overwrites] : (record F toFields ofFields h h').Overwrites :=
  ⟨fun init b => record_recovers.mpr (hF.recovers (toFields init) (toFields b))⟩

end Records

end ManyAiCli.Yaml
