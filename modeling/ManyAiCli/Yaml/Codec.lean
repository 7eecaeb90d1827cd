import Mathlib.Data.Finmap
import Mathlib.Data.Finset.Sort
import Mathlib.Data.String.Basic

/-! Typed YAML documents. A codec writes the values of a type as nodes and reads a node over the
value that is there already. A record is written field by field, an omitempty field only where it
is not zero, and reading leaves a field as it was where the document has no such key. What a
document says of a value it was written from therefore depends on the value it is read over. -/

namespace ManyAiCli.Yaml

/-- What the text of a scalar resolves to. -/
inductive Tag where
  | null
  | bool (value : Bool)
  | int (value : ℤ)
  | float (whole : ℤ)
  | str
  deriving DecidableEq, Repr

/-- A document. -/
inductive Node where
  | scalar (tag : Tag) (text : String)
  | seq (items : List Node)
  | map (entries : List (String × Node))

def Node.isNull : Node → Bool
  | .scalar .null _ => true
  | _ => false

/-- How a type is written and read. -/
structure Codec (α : Type) where
  /-- The zero value of the type. -/
  zero : α
  /-- What an omitempty field takes for zero. -/
  isZero : α → Bool
  marshal : α → Node
  /-- Reads a node over a value. -/
  unmarshal : Node → α → Option α
  isZero_zero : isZero zero = true
  notNull : ∀ a, (marshal a).isNull = false

variable {α β : Type}

/-- A value that is read back as it was written, over the value `init`. -/
def Codec.Recovers (c : Codec α) (init a : α) : Prop := c.unmarshal (c.marshal a) init = some a

/-- Every value is read back over the zero value, which alone counts as zero. -/
class Codec.Exact (c : Codec α) : Prop where
  eq_zero : ∀ a, c.isZero a = true → a = c.zero
  recovers : ∀ a, c.Recovers c.zero a

/-- Every value is read back whatever it is read over. -/
class Codec.Overwrites (c : Codec α) : Prop where
  recovers : ∀ init a, c.Recovers init a

theorem Codec.isZero_eq_false {c : Codec α} [hc : c.Exact] {a : α} (h : a ≠ c.zero) :
    c.isZero a = false := by
  rw [Bool.eq_false_iff]
  exact fun hz => h (hc.eq_zero a hz)

/-! ### Scalars -/

/-- A string takes the text of any scalar but null. -/
def string : Codec String where
  zero := ""
  isZero s := decide (s = "")
  marshal s := .scalar .str s
  unmarshal
    | .scalar .null _, init => some init
    | .scalar _ text, _ => some text
    | _, _ => none
  isZero_zero := rfl
  notNull _ := rfl

def int : Codec ℤ where
  zero := 0
  isZero i := decide (i = 0)
  marshal i := .scalar (.int i) (toString i)
  unmarshal
    | .scalar .null _, init => some init
    | .scalar (.int i) _, _ => some i
    | .scalar (.float i) _, _ => some i
    | _, _ => none
  isZero_zero := rfl
  notNull _ := rfl

/-- A boolean also takes the words of YAML 1.1. -/
def bool : Codec Bool where
  zero := false
  isZero b := !b
  marshal b := .scalar (.bool b) (toString b)
  unmarshal
    | .scalar .null _, init => some init
    | .scalar (.bool b) _, _ => some b
    | .scalar .str text, _ =>
      if text ∈ ["y", "Y", "yes", "on"] then some true
      else if text ∈ ["n", "N", "no", "off"] then some false
      else none
    | _, _ => none
  isZero_zero := rfl
  notNull _ := rfl

instance : string.Overwrites := ⟨fun _ _ => rfl⟩
instance : int.Overwrites := ⟨fun _ _ => rfl⟩
instance : bool.Overwrites := ⟨fun _ _ => rfl⟩

instance : string.Exact := ⟨fun _ h => of_decide_eq_true h, fun _ => rfl⟩
instance : int.Exact := ⟨fun _ h => of_decide_eq_true h, fun _ => rfl⟩
instance : bool.Exact where
  eq_zero b h := (Bool.not_eq_true' b).mp h
  recovers _ := rfl

/-! ### Sequences -/

section Sequences

variable (c : Codec α)

/-- The items of a sequence; a null item adds nothing. -/
def readItems (items : List Node) : Option (List α) :=
  (items.filter fun n => !n.isNull).mapM fun n => c.unmarshal n c.zero

theorem readItems_marshal [hc : c.Exact] (xs : List α) :
    readItems c (xs.map c.marshal) = some xs := by
  have hf : ((xs.map c.marshal).filter fun n => !n.isNull) = xs.map c.marshal := by
    rw [List.filter_eq_self]
    intro n hn
    obtain ⟨a, -, rfl⟩ := List.mem_map.mp hn
    simp only [c.notNull, Bool.not_false]
  rw [readItems, hf]
  induction xs with
  | nil => rfl
  | cons x xs ih =>
    have hx : c.unmarshal (c.marshal x) c.zero = some x := hc.recovers x
    rw [List.map_cons, List.mapM_cons, hx]
    simp only [Option.pure_def, Option.bind_eq_bind, Option.bind_some]
    rw [ih]
    · rfl
    · rw [List.map_cons, List.filter_cons] at hf
      simp only [c.notNull, Bool.not_false, if_true, List.cons.injEq, true_and] at hf
      exact hf

/-- A list whose nil and empty values are one. -/
def list : Codec (List α) where
  zero := []
  isZero xs := xs.isEmpty
  marshal xs := .seq (xs.map c.marshal)
  unmarshal
    | .scalar .null _, _ => some []
    | .seq items, _ => readItems c items
    | _, _ => none
  isZero_zero := rfl
  notNull _ := rfl

instance [c.Exact] : (list c).Overwrites := ⟨fun _ xs => readItems_marshal c xs⟩

instance [c.Exact] : (list c).Exact where
  eq_zero _ h := List.isEmpty_iff.mp h
  recovers xs := readItems_marshal c xs

/-- A list that may be nil. Nil is written as the empty list is, and both count as zero. -/
def nilable : Codec (Option (List α)) where
  zero := none
  isZero xs := (xs.getD []).isEmpty
  marshal xs := .seq ((xs.getD []).map c.marshal)
  unmarshal
    | .scalar .null _, _ => some none
    | .seq items, _ => (readItems c items).map some
    | _, _ => none
  isZero_zero := rfl
  notNull _ := rfl

theorem nilable_recovers_some [c.Exact] (init : Option (List α)) (xs : List α) :
    (nilable c).Recovers init (some xs) := by
  change (readItems c (xs.map c.marshal)).map some = some (some xs)
  rw [readItems_marshal, Option.map_some]

end Sequences

/-! ### Maps from strings -/

section Maps

/-- A map from strings. -/
abbrev StringMap (α : Type) := Finmap fun _ : String => α

/-- The entries of a map in the order of their keys. -/
def StringMap.entries (m : StringMap α) : List (String × α) :=
  (m.keys.sort (· ≤ ·)).filterMap fun k => (m.lookup k).map (k, ·)

theorem StringMap.entries_keys_nodup (m : StringMap α) : (m.entries.map Prod.fst).Nodup := by
  have hs : (m.entries.map Prod.fst).Sublist (m.keys.sort (· ≤ ·)) := by
    rw [StringMap.entries]
    induction m.keys.sort (· ≤ ·) with
    | nil => exact List.Sublist.slnil
    | cons k ks ih =>
      rw [List.filterMap_cons]
      cases m.lookup k with
      | none => exact ih.cons k
      | some a => exact ih.cons_cons k
  exact hs.nodup (Finset.sort_nodup _ _)

theorem StringMap.lookup_foldl_insert (m init : StringMap α) (ks : List String) (k : String) :
    ((ks.filterMap fun k => (m.lookup k).map (k, ·)).foldl
      (fun acc e => acc.insert e.1 e.2) init).lookup k =
    if k ∈ ks then (m.lookup k).or (init.lookup k) else init.lookup k := by
  induction ks generalizing init with
  | nil => rfl
  | cons k' ks ih =>
    rw [List.filterMap_cons]
    by_cases hk : k = k'
    · subst hk
      cases hm : m.lookup k with
      | none => simp only [Option.map_none, ih, hm, Option.none_or, ite_self]
      | some a =>
        simp only [Option.map_some, List.foldl_cons, ih, hm, Option.some_or,
          Finmap.lookup_insert, ite_self, List.mem_cons_self, if_true]
    · have hmem : k ∈ k' :: ks ↔ k ∈ ks := by simp only [List.mem_cons, hk, false_or]
      simp only [hmem]
      cases m.lookup k' with
      | none => simp only [Option.map_none, ih]
      | some a => simp only [Option.map_some, List.foldl_cons, ih, Finmap.lookup_insert_of_ne _ hk]

/-- A map is what its entries make of the empty map. -/
theorem StringMap.foldl_entries (m : StringMap α) :
    m.entries.foldl (fun acc e => acc.insert e.1 e.2) (∅ : StringMap α) = m := by
  apply Finmap.ext_lookup
  intro k
  rw [StringMap.entries, StringMap.lookup_foldl_insert, Finmap.lookup_empty, Option.or_none]
  split
  next => rfl
  next hk =>
    rw [Finset.mem_sort, Finmap.mem_keys] at hk
    exact (Finmap.lookup_eq_none.mpr hk).symm

variable (c : Codec α)

/-- Adds one entry of a document; a null value is the zero value. -/
def readEntry (m : StringMap α) (e : String × Node) : Option (StringMap α) :=
  if e.2.isNull then some (m.insert e.1 c.zero)
  else (c.unmarshal e.2 c.zero).map (m.insert e.1)

theorem foldlM_readEntry [hc : c.Exact] (es : List (String × α)) (init : StringMap α) :
    (es.map fun e => (e.1, c.marshal e.2)).foldlM (readEntry c) init =
      some (es.foldl (fun acc e => acc.insert e.1 e.2) init) := by
  induction es generalizing init with
  | nil => rfl
  | cons e es ih =>
    have he : c.unmarshal (c.marshal e.2) c.zero = some e.2 := hc.recovers e.2
    rw [List.map_cons, List.foldlM_cons, readEntry]
    simp only [c.notNull, Bool.false_eq_true, if_false, he, Option.map_some, Option.bind_eq_bind,
      Option.bind_some]
    exact ih _

/-- A map, read by adding the entries of the document to it; no key may come twice. -/
def dict : Codec (StringMap α) where
  zero := ∅
  isZero m := m.keys.card == 0
  marshal m := .map (m.entries.map fun e => (e.1, c.marshal e.2))
  unmarshal
    | .scalar .null _, _ => some ∅
    | .map entries, init =>
      if (entries.map Prod.fst).Nodup then entries.foldlM (readEntry c) init else none
    | _, _ => none
  isZero_zero := rfl
  notNull _ := rfl

instance [c.Exact] : (dict c).Exact where
  eq_zero m h := by
    apply Finmap.ext_lookup
    intro k
    have hk : k ∉ m.keys := by
      rw [Finset.card_eq_zero.mp (beq_iff_eq.mp h)]
      exact Finset.notMem_empty k
    rw [Finmap.mem_keys] at hk
    exact Finmap.lookup_eq_none.mpr hk
  recovers m := by
    have hk : ((m.entries.map fun e => (e.1, c.marshal e.2)).map Prod.fst).Nodup := by
      rw [List.map_map]
      exact m.entries_keys_nodup
    change (if _ then _ else none) = some m
    rw [if_pos hk, foldlM_readEntry]
    exact congrArg some m.foldl_entries

end Maps

end ManyAiCli.Yaml
