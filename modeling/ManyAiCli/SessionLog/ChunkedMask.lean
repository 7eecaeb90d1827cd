import ManyAiCli.SessionLog.MaskSecrets
import ManyAiCli.Text.RegexpParts
import ManyAiCli.Text.Utf8

/-! The secrets in the log of a session. The text of the PTY is masked chunk by chunk,
while those who read the log put the chunks together again. A byte carries its place in
the stream, so that what is left of a secret can be told from other text. -/

namespace ManyAiCli.SessionLog

open Text Text.Regexp

/-! ### Chunks -/

/-- A byte and its place in the stream; the stars of a mask have none. -/
abbrev Byte := Option ℕ × UInt8

/-- A rune with its bytes. -/
structure Sym where
  val : Char
  bytes : List Byte
  deriving DecidableEq, Repr

/-- How the expressions read bytes; the first number of bytes is a rune's already. -/
def symbols : ℕ → List Byte → List Sym
  | _, [] => []
  | skip + 1, _ :: s => symbols skip s
  | 0, b :: s =>
    let r := decodeRune ((b :: s).map Prod.snd)
    ⟨r.1, (b :: s).take r.2⟩ :: symbols (r.2 - 1) s

def stars : List Sym := List.replicate 3 ⟨'*', [(none, 0x2A)]⟩

def patterns : List Pattern := secretPatterns ++ secretGroup2Patterns

/-- `MaskSecrets` of a chunk. -/
def maskedRaw (chunk : List Byte) : List Sym := maskAll Sym.val stars (symbols 0 chunk)

def notBell : Regexp := char (· ≠ '\x07')

def inRange (lo hi : Char) : Regexp := char fun c => lo ≤ c && c ≤ hi

def oscRE : Regexp := cat [lit "\x1b]", many notBell, oneOf [lit "\x07", lit "\x1b\\"]]

def ansiRE : Regexp := cat [lit "\x1b[", many (inRange '0' '?'), many (inRange ' ' '/'), inRange '@' '~']

def ansiSimpleRE : Regexp := cat [lit "\x1b", inRange '@' '_']

/-- `StripANSI`. -/
def stripANSI (s : List Sym) : List Sym :=
  [oscRE, ansiRE, ansiSimpleRE].foldl (fun s re => replaceAllFunc Sym.val re (fun _ => []) 0 s) s

/-- The fields `data_b64` (before its encoding) and `text` of the event of a chunk. -/
def ptyOutput (chunk : List Byte) : List Sym × List Sym := (maskedRaw chunk, stripANSI (maskedRaw chunk))

/-! ### What is logged of a secret -/

/-- The bytes of the stream in a text, by their places. -/
def Sym.places (c : Sym) : List ℕ := c.bytes.filterMap Prod.fst

def places (s : List Sym) : List ℕ := s.flatMap Sym.places

/-- Bytes with their places, the first one at `n`. -/
def placed (n : ℕ) (s : List UInt8) : List Byte := s.mapIdx fun i b => (some (n + i), b)

def placedChunks : ℕ → List (List UInt8) → List (List Byte)
  | _, [] => []
  | n, chunk :: chunks => placed n chunk :: placedChunks (n + chunk.length) chunks

/-- The part of a match that stars stand for. -/
def secretPart (p : Pattern) (m : List Sym) : List Sym :=
  (m.take (m.length - (kept Sym.val p m).2)).drop (kept Sym.val p m).1

/-- All that the patterns take out of a text, one pattern after the other. -/
def secrets : List Pattern → List Sym → List (List Sym)
  | [], _ => []
  | p :: ps, s =>
    (found Sym.val p.re 0 s).map (secretPart p) ++ secrets ps (maskPattern Sym.val stars p s)

/-- Every byte of the secret is there. -/
def Appears (secret log : List Sym) : Prop := ∀ n ∈ places secret, n ∈ places log

/-- No secret of the whole stream is in the data or the texts of the events; what is only
stars already is no secret. -/
def NoSecretLogged (chunks : List (List UInt8)) : Prop :=
  ∀ secret ∈ secrets patterns (symbols 0 (placed 0 chunks.flatten)), places secret ≠ [] →
    ¬ Appears secret ((placedChunks 0 chunks).flatMap fun chunk => (ptyOutput chunk).1) ∧
      ¬ Appears secret ((placedChunks 0 chunks).flatMap fun chunk => (ptyOutput chunk).2)

/-! ### Where a chunk ends -/

/-- How a text is read that goes on after its chunk `x` with `y`, and how the two are read
on their own: they differ in a rune that the end of the chunk cuts. -/
structure Cut (x y : List Byte) where
  before : List Sym
  cut : List Sym
  after : List Sym
  left : List Sym
  right : List Sym
  whole_eq : symbols 0 (x ++ y) = before ++ (cut ++ after)
  first_eq : symbols 0 x = before ++ left
  second_eq : symbols 0 y = right ++ after

/-- No match of the pattern goes over the end of the chunk, or has a cut rune or a piece of
one in it. -/
structure Pattern.Spares (p : Pattern) (before cut after left right : List Sym) : Prop where
  whole : spill Sym.val p.re (cut ++ after) 0 before = 0
  cut : NoFront Sym.val p.re cut after
  first : spill Sym.val p.re left 0 before = 0
  left : NoFront Sym.val p.re left []
  right : NoFront Sym.val p.re right after

/-- None does when its turn comes. -/
def Spared : List Pattern → (before cut after left right : List Sym) → Prop
  | [], _, _, _, _, _ => True
  | p :: ps, before, cut, after, left, right => p.Spares before cut after left right ∧
    Spared ps (maskPattern Sym.val stars p before) cut (maskPattern Sym.val stars p after) left right

/-- The end of no chunk cuts a match. -/
def Uncut : List (List Byte) → Prop
  | [] => True
  | chunk :: chunks =>
    (∃ c : Cut chunk chunks.flatten, Spared patterns c.before c.cut c.after c.left c.right) ∧ Uncut chunks

/-- Of each secret of the stream some byte is in a secret that its chunk has on its own. -/
def Overlapped (chunks : List (List UInt8)) : Prop :=
  ∀ secret ∈ secrets patterns (symbols 0 (placed 0 chunks.flatten)), places secret ≠ [] →
    ∃ chunk ∈ placedChunks 0 chunks, ∃ piece ∈ secrets patterns (symbols 0 chunk),
      ∃ n ∈ places secret, n ∈ places piece

/-! ### What stays of a match -/

section Kept

variable {α : Type} {val : α → Char} {a b c : Regexp}

/-- The first group of an expression that begins with it. -/
theorem groupLength_le (ha : a.groupless = true) (hb : b.groupless = true) (m : List α) :
    groupLength val (seq (group 1 a) b) m 1 ≤ m.length := by
  rw [groupLength, findSubmatch]
  cases hsearch : search (seq (group 1 a) b) 0 (m.map val) with
  | none => exact Nat.zero_le _
  | some d =>
    obtain ⟨t, k, ht, hd⟩ := mem_of_search hsearch
    obtain ⟨e, he, hd⟩ := List.mem_flatMap.1 hd
    obtain ⟨e₁, he₁, rfl⟩ := List.mem_map.1 he
    have hgroups : d.groups = [(1, t.take (e₁.pos - k))] := by
      rw [groups_of_groupless hb _ d hd, groups_of_groupless ha _ e₁ he₁]
    have hlen : t.length ≤ m.length := by simpa using ht.length_le
    have hone : ([(1, t.take (e₁.pos - k))].lookup 1).getD [] = t.take (e₁.pos - k) := rfl
    simp only [Option.map_some, hgroups, hone, List.length_take]
    omega

/-- The first and the last of three groups. -/
theorem groupLength_add_le (ha : a.groupless = true) (hb : b.groupless = true) (hc : c.groupless = true)
    (m : List α) : groupLength val (cat [group 1 a, group 2 b, group 3 c]) m 1 +
      groupLength val (cat [group 1 a, group 2 b, group 3 c]) m 3 ≤ m.length := by
  rw [groupLength, groupLength, findSubmatch]
  cases hsearch : search (cat [group 1 a, group 2 b, group 3 c]) 0 (m.map val) with
  | none => exact Nat.zero_le _
  | some d =>
    obtain ⟨t, k, ht, hd⟩ := mem_of_search hsearch
    obtain ⟨e, he, hd⟩ := List.mem_flatMap.1 hd
    obtain ⟨e₁, he₁, rfl⟩ := List.mem_map.1 he
    obtain ⟨e, he, hd⟩ := List.mem_flatMap.1 hd
    obtain ⟨e₂, he₂, rfl⟩ := List.mem_map.1 he
    obtain ⟨e₃, he₃, rfl⟩ := List.mem_map.1 hd
    have h₁ := forward_ends a _ e₁ he₁
    have h₂ := forward_ends b _ e₂ he₂
    have h₃ := forward_ends c _ e₃ he₃
    have hlen : t.length ≤ m.length := by simpa using ht.length_le
    have hgroups : e₃.groups = [(2, (e₁.rest.take (e₂.pos - e₁.pos))), (1, t.take (e₁.pos - k))] := by
      rw [groups_of_groupless hc _ e₃ he₃, groups_of_groupless hb _ e₂ he₂, groups_of_groupless ha _ e₁ he₁]
    have hpos₁ : k + t.length = e₁.pos + e₁.rest.length := h₁.pos
    have hpos₂ : e₁.pos + e₁.rest.length = e₂.pos + e₂.rest.length := h₂.pos
    have hpos₃ : e₂.pos + e₂.rest.length = e₃.pos + e₃.rest.length := h₃.pos
    have hrest₁ : e₁.rest.length ≤ t.length := h₁.rest
    have hrest₂ : e₂.rest.length ≤ e₁.rest.length := h₂.rest
    have hone : ([(3, e₂.rest.take (e₃.pos - e₂.pos)), (2, e₁.rest.take (e₂.pos - e₁.pos)),
        (1, t.take (e₁.pos - k))].lookup 1).getD [] = t.take (e₁.pos - k) := rfl
    have hthree : ([(3, e₂.rest.take (e₃.pos - e₂.pos)), (2, e₁.rest.take (e₂.pos - e₁.pos)),
        (1, t.take (e₁.pos - k))].lookup 3).getD [] = e₂.rest.take (e₃.pos - e₂.pos) := rfl
    simp only [Option.map_some, hgroups, hone, hthree, List.length_take]
    omega

theorem kept_le {p : Pattern} (hp : p ∈ patterns) (m : List α) :
    (kept val p m).1 + (kept val p m).2 ≤ m.length := by
  have hnothing : ∀ re, (kept val ⟨re, .nothing⟩ m).1 + (kept val ⟨re, .nothing⟩ m).2 ≤ m.length :=
    fun _ => Nat.zero_le _
  simp only [patterns, secretPatterns, secretGroup2Patterns, List.cons_append, List.nil_append, List.mem_cons,
    List.not_mem_nil, or_false] at hp
  rcases hp with rfl | rfl | rfl | rfl | rfl | rfl | rfl | rfl | rfl | rfl | rfl | rfl
  · exact groupLength_le (by decide) (by decide) m
  · exact groupLength_le (by decide) (by decide) m
  · exact hnothing _
  · exact hnothing _
  · exact hnothing _
  · exact hnothing _
  · exact hnothing _
  · exact hnothing _
  · exact groupLength_le (by decide) (by decide) m
  · exact hnothing _
  · exact hnothing _
  · exact groupLength_add_le (by decide) (by decide) (by decide) m

end Kept

/-! ### The places of what is masked -/

variable {p : Pattern} {ps : List Pattern} {s before cut after left right : List Sym} {secret : List Sym}

/-- A match is what stays of it and its secret. -/
theorem perm_maskMatch (hp : p ∈ patterns) (m : List Sym) :
    (places m).Perm (places (maskMatch Sym.val stars p m) ++ places (secretPart p m)) := by
  have hle : (kept Sym.val p m).1 + (kept Sym.val p m).2 ≤ m.length := kept_le hp m
  generalize hk : kept Sym.val p m = k at hle
  have hsplit : m = m.take k.1 ++ ((m.take (m.length - k.2)).drop k.1 ++ m.drop (m.length - k.2)) := by
    have htake : m.take k.1 = (m.take (m.length - k.2)).take k.1 := by
      rw [List.take_take, Nat.min_eq_left (by omega)]
    rw [htake, ← List.append_assoc, List.take_append_drop, List.take_append_drop]
  have hstars : places stars = [] := rfl
  rw [maskMatch, secretPart, hk]
  conv_lhs => rw [hsplit]
  simp only [places, List.flatMap_append] at hstars ⊢
  rw [hstars, List.append_nil, List.append_assoc]
  exact .append_left _ List.perm_append_comm

theorem perm_maskPattern (hp : p ∈ patterns) (s : List Sym) :
    (places s).Perm (places (maskPattern Sym.val stars p s) ++
      (found Sym.val p.re 0 s).flatMap fun m => places (secretPart p m)) :=
  perm_replaceAllFunc Sym.places (perm_maskMatch hp) 0 s

theorem places_maskPattern_subset (hp : p ∈ patterns) (s : List Sym) :
    places (maskPattern Sym.val stars p s) ⊆ places s :=
  fun _ h => (perm_maskPattern hp s).mem_iff.2 (List.mem_append_left _ h)

/-- The text after the patterns have taken their turns. -/
def maskedBy (ps : List Pattern) (s : List Sym) : List Sym :=
  ps.foldl (fun s p => maskPattern Sym.val stars p s) s

theorem places_maskedBy_subset (hps : ∀ p ∈ ps, p ∈ patterns) (s : List Sym) :
    places (maskedBy ps s) ⊆ places s := by
  induction ps generalizing s with
  | nil => exact List.Subset.refl _
  | cons p ps ih =>
    exact List.Subset.trans (ih (fun q hq => hps q (List.mem_cons_of_mem p hq)) _)
      (places_maskPattern_subset (hps p List.mem_cons_self) s)

/-- A text of no length has no secret. -/
theorem secrets_nil (ps : List Pattern) : secret ∉ secrets ps [] := by
  induction ps with
  | nil => exact List.not_mem_nil
  | cons p ps ih =>
    rw [secrets, List.mem_append, not_or]
    exact ⟨List.not_mem_nil, ih⟩

theorem places_secret_subset (hps : ∀ p ∈ ps, p ∈ patterns) (h : secret ∈ secrets ps s) :
    places secret ⊆ places s := by
  induction ps generalizing s with
  | nil => exact absurd h List.not_mem_nil
  | cons p ps ih =>
    have hp := hps p List.mem_cons_self
    rcases List.mem_append.1 h with h | h
    · obtain ⟨m, hm, rfl⟩ := List.mem_map.1 h
      exact fun n hn => (perm_maskPattern hp s).mem_iff.2
        (List.mem_append_right _ (List.mem_flatMap.2 ⟨m, hm, hn⟩))
    · exact List.Subset.trans (ih (fun q hq => hps q (List.mem_cons_of_mem p hq)) h)
        (places_maskPattern_subset hp s)

/-- What a pattern takes out at its turn is out of the text from then on. -/
theorem secret_disjoint (hps : ∀ p ∈ ps, p ∈ patterns) (hnodup : (places s).Nodup)
    (h : secret ∈ secrets ps s) :
    (places secret).Disjoint (places (maskedBy ps s)) := by
  induction ps generalizing s with
  | nil => exact absurd h List.not_mem_nil
  | cons p ps ih =>
    have hp := hps p List.mem_cons_self
    have hrest : ∀ q ∈ ps, q ∈ patterns := fun q hq => hps q (List.mem_cons_of_mem p hq)
    have hsplit := (perm_maskPattern hp s).nodup_iff.1 hnodup
    rw [List.nodup_append] at hsplit
    rcases List.mem_append.1 h with h | h
    · obtain ⟨m, hm, rfl⟩ := List.mem_map.1 h
      intro n hn hlog
      exact hsplit.2.2 n (places_maskedBy_subset hrest _ hlog) n (List.mem_flatMap.2 ⟨m, hm, hn⟩) rfl
    · exact ih hrest hsplit.1 h

/-- A byte of the text is in the masked text or in a secret. -/
theorem mem_masked_or_secret (hps : ∀ p ∈ ps, p ∈ patterns) {n : ℕ} (hn : n ∈ places s) :
    n ∈ places (maskedBy ps s) ∨ ∃ secret ∈ secrets ps s, n ∈ places secret := by
  induction ps generalizing s with
  | nil => exact .inl hn
  | cons p ps ih =>
    have hsplit := (perm_maskPattern (hps p List.mem_cons_self) s).mem_iff.1 hn
    rcases List.mem_append.1 hsplit with hmasked | htaken
    · rcases ih (fun q hq => hps q (List.mem_cons_of_mem p hq)) hmasked with h | ⟨secret, hmem, h⟩
      · exact .inl h
      · exact .inr ⟨secret, List.mem_append_right _ hmem, h⟩
    · obtain ⟨m, hm, h⟩ := List.mem_flatMap.1 htaken
      exact .inr ⟨secretPart p m, List.mem_append_left _ (List.mem_map_of_mem hm), h⟩

theorem places_replaceAll_nothing (re : Regexp) (s : List Sym) :
    places (replaceAllFunc Sym.val re (fun _ => []) 0 s) ⊆ places s := by
  have hperm : ((s.drop 0).flatMap Sym.places).Perm
      ((replaceAllFunc Sym.val re (fun _ => []) 0 s).flatMap Sym.places ++
        (found Sym.val re 0 s).flatMap fun m => (id m).flatMap Sym.places) :=
    perm_replaceAllFunc Sym.places (fun m => by simp) 0 s
  exact fun n hn => hperm.mem_iff.2 (List.mem_append_left _ hn)

theorem places_replaceEach_subset (res : List Regexp) (s : List Sym) :
    places (res.foldl (fun s re => replaceAllFunc Sym.val re (fun _ => []) 0 s) s) ⊆ places s := by
  induction res generalizing s with
  | nil => exact List.Subset.refl _
  | cons re res ih => exact List.Subset.trans (ih _) (places_replaceAll_nothing re s)

theorem places_stripANSI_subset (s : List Sym) : places (stripANSI s) ⊆ places s :=
  places_replaceEach_subset _ s

theorem places_append (s t : List Sym) : places (s ++ t) = places s ++ places t := List.flatMap_append

/-- Reading a text loses none of its bytes. -/
theorem places_symbols (skip : ℕ) (s : List Byte) : places (symbols skip s) = (s.drop skip).filterMap
    Prod.fst := by
  induction s generalizing skip with
  | nil => simp [symbols, places]
  | cons b s ih =>
    cases skip with
    | succ skip =>
      rw [symbols, ih, List.drop_succ_cons]
    | zero =>
      have hwidth := decodeRune_width b.2 (s.map Prod.snd)
      rw [symbols, List.map_cons]
      generalize decodeRune (b.2 :: s.map Prod.snd) = r at hwidth ⊢
      obtain ⟨k, hk⟩ := Nat.exists_eq_succ_of_ne_zero (Nat.one_le_iff_ne_zero.1 hwidth)
      have hrest : places (symbols k s) = (s.drop k).filterMap Prod.fst := ih k
      rw [List.drop_zero, hk, Nat.succ_sub_one]
      calc places (⟨r.1, (b :: s).take (k + 1)⟩ :: symbols k s)
          = ((b :: s).take (k + 1)).filterMap Prod.fst ++ places (symbols k s) := rfl
        _ = ((b :: s).take (k + 1) ++ s.drop k).filterMap Prod.fst := by rw [hrest, List.filterMap_append]
        _ = (b :: s).filterMap Prod.fst := by
          rw [List.take_succ_cons, List.cons_append, List.take_append_drop]

theorem places_maskedRaw_subset (chunk : List Byte) :
    places (maskedRaw chunk) ⊆ chunk.filterMap Prod.fst := by
  have hsub : places (maskedRaw chunk) ⊆ places (symbols 0 chunk) :=
    places_maskedBy_subset (fun p (h : p ∈ patterns) => h) _
  rwa [places_symbols, List.drop_zero] at hsub

theorem places_logged_subset (chunks : List (List Byte)) :
    places (chunks.flatMap maskedRaw) ⊆ chunks.flatten.filterMap Prod.fst := by
  induction chunks with
  | nil => exact List.Subset.refl _
  | cons chunk chunks ih =>
    rw [List.flatMap_cons, List.flatten_cons, places_append, List.filterMap_append]
    exact List.append_subset.2 ⟨List.subset_append_of_subset_left _ (places_maskedRaw_subset chunk),
      List.subset_append_of_subset_right _ ih⟩

/-- No byte has two places. -/
theorem nodup_placed (n : ℕ) (s : List UInt8) : ((placed n s).filterMap Prod.fst).Nodup := by
  have hrange : (placed n s).filterMap Prod.fst = List.range' n s.length := by
    induction s generalizing n with
    | nil => rfl
    | cons b s ih =>
      have hnext : (placed n (b :: s)) = (some n, b) :: placed (n + 1) s := by
        simp [placed, List.mapIdx_cons, Nat.add_assoc, Nat.add_comm 1]
      rw [hnext, List.length_cons, List.range'_succ, ← ih]
      rfl
  rw [hrange]
  exact List.nodup_range'

theorem placed_append (n : ℕ) (s t : List UInt8) : placed n (s ++ t) = placed n s ++ placed (n + s.length) t
    := by
  simp [placed, List.mapIdx_append, Nat.add_assoc, Nat.add_comm s.length]

theorem flatten_placedChunks (n : ℕ) (chunks : List (List UInt8)) :
    (placedChunks n chunks).flatten = placed n chunks.flatten := by
  induction chunks generalizing n with
  | nil => rfl
  | cons chunk chunks ih => rw [placedChunks, List.flatten_cons, List.flatten_cons, placed_append, ih]

/-! ### A text in two parts -/

/-- The secrets of a text that goes on after its chunk are those of the chunk and of what
comes after it. -/
theorem mem_secrets_of_spared (hps : ∀ p ∈ ps, p.re.openEnded = true)
    (h : Spared ps before cut after left right) (hsecret : secret ∈ secrets ps (before ++ (cut ++ after))) :
    secret ∈ secrets ps (before ++ left) ∨ secret ∈ secrets ps (right ++ after) := by
  induction ps generalizing before after with
  | nil => exact absurd hsecret List.not_mem_nil
  | cons p ps ih =>
    obtain ⟨hp, hrest⟩ := h
    have hre := hps p List.mem_cons_self
    have hleft : left = left ++ [] := (List.append_nil left).symm
    have hwhole : maskPattern Sym.val stars p (before ++ (cut ++ after)) =
        maskPattern Sym.val stars p before ++ (cut ++ maskPattern Sym.val stars p after) := by
      rw [maskPattern, replaceAllFunc_append hre hp.whole, replaceAllFunc_of_noFront hp.cut]
      rfl
    have hfirst : maskPattern Sym.val stars p (before ++ left) = maskPattern Sym.val stars p before ++ left
      := by
      have hnone : replaceAllFunc Sym.val p.re (maskMatch Sym.val stars p) 0 left = left := by
        conv_lhs => rw [hleft]
        rw [replaceAllFunc_of_noFront hp.left, replaceAllFunc, List.append_nil]
      rw [maskPattern, replaceAllFunc_append hre hp.first, hnone]
      rfl
    have hsecond : maskPattern Sym.val stars p (right ++ after) = right ++ maskPattern Sym.val stars p after
      :=
      replaceAllFunc_of_noFront hp.right
    have hfound : found Sym.val p.re 0 (before ++ (cut ++ after)) =
        found Sym.val p.re 0 before ++ found Sym.val p.re 0 after := by
      rw [found_append hre hp.whole, found_of_noFront hp.cut]
    have hfoundFirst : found Sym.val p.re 0 (before ++ left) = found Sym.val p.re 0 before := by
      have hnone : found Sym.val p.re 0 left = [] := by
        rw [hleft, found_of_noFront hp.left, found]
      rw [found_append hre hp.first, hnone, List.append_nil]
    have hfoundSecond : found Sym.val p.re 0 (right ++ after) = found Sym.val p.re 0 after :=
      found_of_noFront hp.right
    rw [secrets, hwhole, hfound, List.map_append] at hsecret
    rw [secrets, secrets, hfirst, hsecond, hfoundFirst, hfoundSecond]
    simp only [List.mem_append] at hsecret ⊢
    rcases hsecret with (h | h) | h
    · exact .inl (.inl h)
    · exact .inr (.inl h)
    · exact (ih (fun q hq => hps q (List.mem_cons_of_mem p hq)) hrest h).imp .inr .inr

/-! ### How the end of a chunk is read -/

theorem symbols_skip (skip : ℕ) (s : List Byte) : symbols skip s = symbols 0 (s.drop skip) := by
  induction s generalizing skip with
  | nil => simp [symbols]
  | cons b s ih =>
    cases skip with
    | zero => rfl
    | succ skip => exact ih skip

theorem symbols_cons (b : Byte) (s : List Byte) {r : Char × ℕ} (hr : decodeRune ((b :: s).map Prod.snd) = r) :
    symbols 0 (b :: s) = ⟨r.1, (b :: s).take r.2⟩ :: symbols 0 ((b :: s).drop r.2) := by
  have hwidth : 1 ≤ r.2 := hr ▸ decodeRune_width b.2 (s.map Prod.snd)
  obtain ⟨k, hk⟩ := Nat.exists_eq_succ_of_ne_zero (Nat.one_le_iff_ne_zero.1 hwidth)
  rw [symbols, hr, symbols_skip, hk, Nat.succ_sub_one, List.drop_succ_cons]

/-- Bytes that are read one by one, as errors. -/
def broken (s : List Byte) : List Sym := s.map fun b => ⟨runeError, [b]⟩

theorem symbols_tails {s : List Byte} (h : ∀ b ∈ s, isTail b.2 = true) (t : List Byte) :
    symbols 0 (s ++ t) = broken s ++ symbols 0 t := by
  induction s with
  | nil => rfl
  | cons b s ih =>
    have hlead := lead_of_isTail (h b List.mem_cons_self)
    have hr : decodeRune ((b :: (s ++ t)).map Prod.snd) = (runeError, 1) := by
      simp [decodeRune, hlead]
    have hrest := ih fun c hc => h c (List.mem_cons_of_mem b hc)
    rw [List.cons_append, symbols_cons b (s ++ t) hr, List.drop_succ_cons, List.drop_zero, hrest]
    rfl

/-- The end of a chunk cuts no more than one rune. -/
theorem exists_cut (x y : List Byte) : ∃ c : Cut x y, c.cut.length ≤ 1 := by
  induction h : x.length using Nat.strongRecOn generalizing x with
  | _ n ih =>
    cases x with
    | nil => exact ⟨⟨[], [], symbols 0 y, [], [], rfl, rfl, rfl⟩, Nat.zero_le _⟩
    | cons b s =>
      by_cases hfull : fullRune ((b :: s).map Prod.snd) = true
      · obtain ⟨r, hr⟩ : ∃ r, decodeRune ((b :: s).map Prod.snd) = r := ⟨_, rfl⟩
        have hwhole : decodeRune ((b :: (s ++ y)).map Prod.snd) = r := by
          rw [← List.cons_append, List.map_append, decodeRune_append hfull, hr]
        have hwidth : 1 ≤ r.2 := hr ▸ decodeRune_width b.2 (s.map Prod.snd)
        have hle : r.2 ≤ (b :: s).length := by
          have hle := decodeRune_le b.2 (s.map Prod.snd)
          rw [← List.map_cons, hr, List.length_map] at hle
          exact hle
        have hshort : ((b :: s).drop r.2).length < n := by
          rw [List.length_drop]
          omega
        obtain ⟨c, hc⟩ := ih _ hshort ((b :: s).drop r.2) rfl
        refine ⟨⟨⟨r.1, (b :: s).take r.2⟩ :: c.before, c.cut, c.after, c.left, c.right, ?_, ?_, c.second_eq⟩,
          hc⟩
        · rw [List.cons_append, symbols_cons b (s ++ y) hwhole, ← List.cons_append,
            List.take_append_of_le_length hle, List.drop_append_of_le_length hle, c.whole_eq,
              List.cons_append]
        · rw [symbols_cons b s hr, c.first_eq, List.cons_append]
      · rw [Bool.not_eq_true, List.map_cons] at hfull
        obtain ⟨⟨w, lo, hi, hlead, hshort⟩, htails⟩ := isTail_of_not_fullRune hfull
        rw [List.length_map] at hshort
        have hs : ∀ c ∈ s, isTail c.2 = true := fun c hc => htails c.2 (List.mem_map_of_mem hc)
        have hone : ∀ t, decodeRune ((b :: t).map Prod.snd) = (runeError, 1) →
            symbols 0 (b :: t) = broken [b] ++ symbols 0 t := fun t hr => symbols_cons b t hr
        have hfirst : symbols 0 (b :: s) = broken (b :: s) := by
          have hrest : symbols 0 s = broken s := by
            have hall := symbols_tails hs []
            rwa [List.append_nil, symbols, List.append_nil] at hall
          rw [hone s (decodeRune_of_not_fullRune hfull), hrest]
          rfl
        rcases decodeRune_cases b.2 ((s ++ y).map Prod.snd) with herr | ⟨w', lo', hi', hlead', hwidth, hcont⟩
        · refine ⟨⟨broken (b :: s), [], symbols 0 y, [], [], ?_, ?_, rfl⟩, Nat.zero_le _⟩
          · rw [List.cons_append, hone (s ++ y) herr, symbols_tails hs]
            rfl
          · rw [hfirst, List.append_nil]
        · obtain rfl : w' = w := by
            rw [hlead] at hlead'
            exact (congrArg Prod.fst (Option.some.inj hlead')).symm
          obtain ⟨k, rfl⟩ : ∃ k, w' = (b :: s).length + k := ⟨w' - (b :: s).length, by
            rw [List.length_cons]
            omega⟩
          have hy : ∀ c ∈ y.take k, isTail c.2 = true := by
            intro c hc
            refine hcont c.2 ?_
            rw [← List.map_take, List.length_cons, Nat.add_right_comm, Nat.add_sub_cancel,
              List.take_length_add_append]
            exact List.mem_map_of_mem (List.mem_append_right s hc)
          rw [← List.map_cons] at hwidth
          refine ⟨⟨[], [⟨(decodeRune ((b :: (s ++ y)).map Prod.snd)).1, b :: s ++ y.take k⟩], symbols 0
            (y.drop k),
            broken (b :: s), broken (y.take k), ?_, hfirst, ?_⟩, Nat.le_refl _⟩
          · rw [List.cons_append, symbols_cons b (s ++ y) rfl, hwidth, ← List.cons_append,
              List.take_length_add_append, List.drop_length_add_append]
            rfl
          · rw [← symbols_tails hy, List.take_append_drop]

/-! ### The log of the chunks -/

theorem patterns_openEnded : ∀ p ∈ patterns, p.re.openEnded = true := by decide

theorem places_read (s : List Byte) : places (symbols 0 s) = s.filterMap Prod.fst := by
  rw [places_symbols, List.drop_zero]

/-- A byte in a secret of its chunk is not in the data. -/
theorem not_mem_logged {chunks : List (List Byte)} (hnodup : (chunks.flatten.filterMap Prod.fst).Nodup)
    {chunk : List Byte} (hchunk : chunk ∈ chunks) {piece : List Sym}
    (hpiece : piece ∈ secrets patterns (symbols 0 chunk)) {n : ℕ} (hn : n ∈ places piece) :
    n ∉ places (chunks.flatMap maskedRaw) := by
  have hplace : n ∈ chunk.filterMap Prod.fst := by
    rw [← places_read]
    exact places_secret_subset (fun _ h => h) hpiece hn
  induction chunks with
  | nil => exact absurd hchunk List.not_mem_nil
  | cons first chunks ih =>
    rw [List.flatten_cons, List.filterMap_append, List.nodup_append] at hnodup
    obtain ⟨hfirst, hrest, hapart⟩ := hnodup
    rw [List.flatMap_cons, places_append, List.mem_append, not_or]
    rcases List.mem_cons.1 hchunk with rfl | hlater
    · have hmasked : (places piece).Disjoint (places (maskedRaw chunk)) :=
        secret_disjoint (fun _ h => h) (by rwa [places_read]) hpiece
      exact ⟨hmasked hn, fun hlog => hapart n hplace n (places_logged_subset chunks hlog) rfl⟩
    · have hin : n ∈ chunks.flatten.filterMap Prod.fst := by
        obtain ⟨b, hb, hbn⟩ := List.mem_filterMap.1 hplace
        exact List.mem_filterMap.2 ⟨b, List.mem_flatten.2 ⟨chunk, hlater, hb⟩, hbn⟩
      exact ⟨fun hlog => hapart n (places_maskedRaw_subset first hlog) n hin rfl, ih hrest hlater⟩

/-- A byte of a chunk that is not in the data is in a secret of the chunk. -/
theorem exists_secret_of_not_logged {chunks : List (List Byte)} {n : ℕ}
    (hn : n ∈ chunks.flatten.filterMap Prod.fst) (hlog : n ∉ places (chunks.flatMap maskedRaw)) :
    ∃ chunk ∈ chunks, ∃ piece ∈ secrets patterns (symbols 0 chunk), n ∈ places piece := by
  obtain ⟨b, hb, hbn⟩ := List.mem_filterMap.1 hn
  obtain ⟨chunk, hchunk, hb⟩ := List.mem_flatten.1 hb
  have hplace : n ∈ places (symbols 0 chunk) := by
    rw [places_read]
    exact List.mem_filterMap.2 ⟨b, hb, hbn⟩
  refine ⟨chunk, hchunk, (mem_masked_or_secret (fun _ h => h) hplace).resolve_left fun hmasked => hlog ?_⟩
  obtain ⟨c, hc, hcn⟩ := List.mem_flatMap.1 hmasked
  exact List.mem_flatMap.2 ⟨c, List.mem_flatMap.2 ⟨chunk, hchunk, hc⟩, hcn⟩

/-- Where the end of no chunk cuts a match, the secrets of the stream are those of the chunks. -/
theorem mem_secrets_of_uncut {chunks : List (List Byte)} (h : Uncut chunks)
    (hsecret : secret ∈ secrets patterns (symbols 0 chunks.flatten)) :
    ∃ chunk ∈ chunks, secret ∈ secrets patterns (symbols 0 chunk) := by
  induction chunks with
  | nil => exact absurd hsecret (secrets_nil patterns)
  | cons chunk chunks ih =>
    obtain ⟨⟨c, hspared⟩, hrest⟩ := h
    rw [List.flatten_cons, c.whole_eq] at hsecret
    rcases mem_secrets_of_spared patterns_openEnded hspared hsecret with hin | hin
    · rw [← c.first_eq] at hin
      exact ⟨chunk, List.mem_cons_self, hin⟩
    · rw [← c.second_eq] at hin
      obtain ⟨later, hlater, hin⟩ := ih hrest hin
      exact ⟨later, List.mem_cons_of_mem chunk hlater, hin⟩

theorem ptyOutput_data (chunk : List Byte) : (ptyOutput chunk).1 = maskedRaw chunk := by
  rw [ptyOutput]

theorem ptyOutput_text (chunk : List Byte) : (ptyOutput chunk).2 = stripANSI (maskedRaw chunk) := by
  rw [ptyOutput]

theorem places_texts_subset (chunks : List (List Byte)) :
    places (chunks.flatMap fun chunk => (ptyOutput chunk).2) ⊆ places (chunks.flatMap maskedRaw) := by
  induction chunks with
  | nil =>
    rw [List.flatMap_nil, List.flatMap_nil]
    exact List.Subset.refl _
  | cons chunk chunks ih =>
    rw [List.flatMap_cons, List.flatMap_cons, places_append, places_append]
    have htext : places (ptyOutput chunk).2 ⊆ places (maskedRaw chunk) := by
      rw [ptyOutput_text]
      exact places_stripANSI_subset (maskedRaw chunk)
    exact List.append_subset.2 ⟨List.subset_append_of_subset_left _ htext,
      List.subset_append_of_subset_right _ ih⟩

/-- The log hides each secret exactly if a byte of it is masked in its chunk; so it does
where the end of no chunk cuts a match. -/
theorem noSecretLogged_iff (chunks : List (List UInt8)) :
    (NoSecretLogged chunks ↔ Overlapped chunks) ∧ (Uncut (placedChunks 0 chunks) → Overlapped chunks) := by
  have hflat := flatten_placedChunks 0 chunks
  have hnodup : ((placedChunks 0 chunks).flatten.filterMap Prod.fst).Nodup := by
    rw [hflat]
    exact nodup_placed 0 chunks.flatten
  have hdata : ((placedChunks 0 chunks).flatMap fun chunk => (ptyOutput chunk).1) =
      (placedChunks 0 chunks).flatMap maskedRaw :=
    List.flatMap_congr fun chunk _ => ptyOutput_data chunk
  refine ⟨⟨fun h secret hsecret hsome => ?_, fun h secret hsecret hsome => ?_⟩, fun h secret hsecret hsome => ?_⟩
  · have hhidden := (h secret hsecret hsome).1
    rw [hdata, Appears] at hhidden
    push Not at hhidden
    obtain ⟨n, hn, hlog⟩ := hhidden
    have hplace := places_secret_subset (fun _ h => h) hsecret hn
    rw [places_read, ← hflat] at hplace
    obtain ⟨chunk, hchunk, piece, hpiece, hin⟩ := exists_secret_of_not_logged hplace hlog
    exact ⟨chunk, hchunk, piece, hpiece, n, hn, hin⟩
  · obtain ⟨chunk, hchunk, piece, hpiece, n, hn, hin⟩ := h secret hsecret hsome
    have hlog := not_mem_logged hnodup hchunk hpiece hin
    rw [hdata]
    exact ⟨fun hall => hlog (hall n hn), fun hall => hlog (places_texts_subset _ (hall n hn))⟩
  · rw [← hflat] at hsecret
    obtain ⟨chunk, hchunk, hin⟩ := mem_secrets_of_uncut h hsecret
    obtain ⟨n, hn⟩ := List.exists_mem_of_ne_nil _ hsome
    exact ⟨chunk, hchunk, secret, hin, n, hn, hn⟩

/-- `Spared` where the end of the chunk cuts no rune. -/
def sparedBetween : List Pattern → List Sym → List Sym → Bool
  | [], _, _ => true
  | p :: ps, before, after =>
    spill Sym.val p.re after 0 before == 0 && spill Sym.val p.re [] 0 before == 0 &&
      sparedBetween ps (maskPattern Sym.val stars p before) (maskPattern Sym.val stars p after)

theorem noFront_nil (re : Regexp) (t : List Sym) : NoFront Sym.val re [] t :=
  fun _ hne hu => absurd (List.suffix_nil.1 hu) hne

theorem spared_of_between (h : sparedBetween ps before after = true) : Spared ps before [] after [] [] := by
  induction ps generalizing before after with
  | nil => exact trivial
  | cons p ps ih =>
    rw [sparedBetween, Bool.and_eq_true, Bool.and_eq_true, beq_iff_eq, beq_iff_eq] at h
    obtain ⟨⟨hwhole, hfirst⟩, hrest⟩ := h
    exact ⟨⟨hwhole, noFront_nil _ _, hfirst, noFront_nil _ _, noFront_nil _ _⟩, ih hrest⟩

/-- The chunks "pwd=abcdef\n" and "ok". -/
theorem password_in_one_chunk :
    (secrets patterns (symbols 0 (placed 0 [112, 119, 100, 61, 97, 98, 99, 100, 101, 102, 10, 111, 107]))).map
        places = [[4, 5, 6, 7, 8, 9]] ∧
      NoSecretLogged [[112, 119, 100, 61, 97, 98, 99, 100, 101, 102, 10], [111, 107]] := by
  have hiff := noSecretLogged_iff [[112, 119, 100, 61, 97, 98, 99, 100, 101, 102, 10], [111, 107]]
  refine ⟨by decide +kernel, hiff.1.2 (hiff.2 ⟨⟨⟨symbols 0 (placed 0
    [112, 119, 100, 61, 97, 98, 99, 100, 101, 102, 10]), [], symbols 0 (placed 11 [111, 107]), [], [],
    by decide +kernel, by decide +kernel, by decide +kernel⟩, spared_of_between (by decide +kernel)⟩,
    ⟨⟨symbols 0 (placed 11 [111, 107]), [], [], [], [], by decide +kernel, by decide +kernel, rfl⟩,
      spared_of_between (by decide +kernel)⟩, trivial⟩)⟩

/-- The chunks "pwd=abc" and "def": six characters are a password, three are none. -/
theorem password_in_two_chunks :
    ¬ NoSecretLogged [[112, 119, 100, 61, 97, 98, 99], [100, 101, 102]] := by
  intro h
  have hsecret : (secrets patterns (symbols 0 (placed 0 [112, 119, 100, 61, 97, 98, 99, 100, 101, 102]))).map
      places = [[4, 5, 6, 7, 8, 9]] := by decide +kernel
  have hlog : places ((placedChunks 0 [[112, 119, 100, 61, 97, 98, 99], [100, 101, 102]]).flatMap
      fun chunk => (ptyOutput chunk).1) = [0, 1, 2, 3, 4, 5, 6, 7, 8, 9] := by decide +kernel
  obtain ⟨secret, hmem, hplaces⟩ := List.mem_map.1 (hsecret ▸ List.mem_singleton_self _)
  refine (h secret hmem (by simp [hplaces])).1 ?_
  rw [Appears, hplaces, hlog]
  decide

end ManyAiCli.SessionLog
