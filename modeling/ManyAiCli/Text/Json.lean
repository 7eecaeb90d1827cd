import Mathlib.Data.List.Basic
import Mathlib.Data.List.Infix
import Mathlib.Algebra.Group.Nat.Defs

/-! JSON as Go's `encoding/json` reads it, and a list of texts as it writes it with an indent of
two blanks. A text is its list of runes. -/

namespace ManyAiCli.Text

inductive Json
  | null
  | bool (b : Bool)
  /-- As it stands in the text. -/
  | num (raw : List Char)
  | str (s : List Char)
  | arr (xs : List Json)
  /-- In the order of the text; a name may occur again. -/
  | obj (members : List (List Char × Json))

namespace Json

/-! ### Strings -/

def isWhite (c : Char) : Bool := c = ' ' || c = '\t' || c = '\n' || c = '\r'

def skipWhite (s : List Char) : List Char := s.dropWhile isWhite

def hexDigit (d : ℕ) : Char := if d < 10 then Char.ofNat (48 + d) else Char.ofNat (87 + d)

def hexValue (c : Char) : Option ℕ :=
  if '0' ≤ c ∧ c ≤ '9' then some (c.toNat - 48)
  else if 'a' ≤ c ∧ c ≤ 'f' then some (c.toNat - 87)
  else if 'A' ≤ c ∧ c ≤ 'F' then some (c.toNat - 55)
  else none

def hex4 (n : ℕ) : List Char :=
  [hexDigit (n / 4096 % 16), hexDigit (n / 256 % 16), hexDigit (n / 16 % 16), hexDigit (n % 16)]

/-- The four digits after a `\u`. -/
def readHex4 : List Char → Option (ℕ × List Char)
  | a :: b :: c :: d :: rest => do
    let a ← hexValue a
    let b ← hexValue b
    let c ← hexValue c
    let d ← hexValue d
    some (a * 4096 + b * 256 + c * 16 + d, rest)
  | _ => none

def isSurrogate (n : ℕ) : Bool := 0xD800 ≤ n && n < 0xE000

/-- The second half of a pair, with what comes after it. -/
def lowHalf : List Char → Option (ℕ × List Char)
  | '\\' :: 'u' :: rest => (readHex4 rest).filter fun r => 0xDC00 ≤ r.1 && r.1 < 0xE000
  | _ => none

def shortEscapes : List (Char × Char) :=
  [('"', '"'), ('\\', '\\'), ('/', '/'), ('b', '\x08'), ('f', '\x0C'), ('n', '\n'), ('r', '\r'), ('t', '\t')]

/-- After a backslash; half of a pair alone is the replacement character. -/
def readEscape : List Char → Option (Char × List Char)
  | [] => none
  | e :: rest =>
    if e = 'u' then
      (readHex4 rest).map fun (n, rest) =>
        if isSurrogate n then
          match if n < 0xDC00 then lowHalf rest else none with
          | some (m, rest') => (Char.ofNat ((n - 0xD800) * 0x400 + (m - 0xDC00) + 0x10000), rest')
          | none => ('\uFFFD', rest)
        else (Char.ofNat n, rest)
    else (shortEscapes.lookup e).map fun c => (c, rest)

/-- After the quote at the beginning. -/
def readString : ℕ → List Char → Option (List Char × List Char)
  | _, [] => none
  | 0, _ => none
  | fuel + 1, c :: rest =>
    if c = '"' then some ([], rest)
    else if c = '\\' then
      (readEscape rest).bind fun (c, rest) => (readString fuel rest).map fun (s, rest) => (c :: s, rest)
    else if c < ' ' then none
    else (readString fuel rest).map fun (s, rest) => (c :: s, rest)

/-! ### Numbers -/

def isDigit (c : Char) : Bool := '0' ≤ c && c ≤ '9'

def isNumberChar (c : Char) : Bool := isDigit c || c = '-' || c = '+' || c = '.' || c = 'e' || c = 'E'

def digits1 (s : List Char) : Bool := s ≠ [] && s.all isDigit

/-- The part after the whole number. -/
def isFraction (s : List Char) : Bool :=
  let exponent (s : List Char) : Bool :=
    match s with
    | [] => true
    | e :: rest => (e = 'e' || e = 'E') && digits1 
        (if rest.head? = some '+' ∨ rest.head? = some '-' then rest.tail else rest)
  match s with
  | '.' :: rest => digits1 (rest.takeWhile isDigit) && exponent (rest.dropWhile isDigit)
  | _ => exponent s

def isNumber (s : List Char) : Bool :=
  let s := if s.head? = some '-' then s.tail else s
  let whole := s.takeWhile isDigit
  whole ≠ [] && (whole = ['0'] || whole.head? ≠ some '0') && isFraction (s.dropWhile isDigit)

/-! ### Values -/

/-- Values with commas in between, up to the closing bracket. -/
def readItems {α : Type} (item : List Char → Option (α × List Char)) (close : Char) :
    ℕ → List Char → Option (List α × List Char)
  | 0, _ => none
  | fuel + 1, s =>
    (item s).bind fun (x, rest) =>
      match skipWhite rest with
      | [] => none
      | c :: rest =>
        if c = ',' then (readItems item close fuel rest).map fun (xs, rest) => (x :: xs, rest)
        else if c = close then some ([x], rest)
        else none

/-- What is between brackets. -/
def readList {α : Type} (item : List Char → Option (α × List Char)) (close : Char) (s : List Char) :
    Option (List α × List Char) :=
  if (skipWhite s).head? = some close then some ([], (skipWhite s).tail)
  else readItems item close (s.length + 1) s

/-- A name, a colon and a value. -/
def readMember {α : Type} (value : List Char → Option (α × List Char)) (s : List Char) :
    Option ((List Char × α) × List Char) :=
  match skipWhite s with
  | '"' :: rest =>
    (readString rest.length rest).bind fun (name, rest) =>
      match skipWhite rest with
      | ':' :: rest => (value rest).map fun (v, rest) => ((name, v), rest)
      | _ => none
  | _ => none

def readWord (word : String) (v : Json) (s : List Char) : Option (Json × List Char) :=
  if word.toList <+: s then some (v, s.drop word.length) else none

/-- A list or an object takes one of the depth. -/
def readValue : ℕ → List Char → Option (Json × List Char)
  | 0, _ => none
  | depth + 1, s =>
    let s := skipWhite s
    match s with
    | [] => none
    | c :: rest =>
      if c = '"' then (readString rest.length rest).map fun (t, rest) => (.str t, rest)
      else if c = '[' then
        if depth = 0 then none else (readList (readValue depth) ']' rest).map fun (xs, rest) =>
          (.arr xs, rest)
      else if c = '{' then
        if depth = 0 then none
        else (readList (readMember (readValue depth)) '}' rest).map fun (ms, rest) => (.obj ms, rest)
      else if c = 't' then readWord "true" (.bool true) s
      else if c = 'f' then readWord "false" (.bool false) s
      else if c = 'n' then readWord "null" .null s
      else if isNumber (s.takeWhile isNumberChar) then
        some (.num (s.takeWhile isNumberChar), s.dropWhile isNumberChar)
      else none

/-- Go's limit of what is within each other. -/
def maxNestingDepth : ℕ := 10000

/-- A text that is one value. -/
def parse (s : List Char) : Option Json :=
  (readValue (maxNestingDepth + 1) s).bind fun (v, rest) => if skipWhite rest = [] then some v else none

/-- `json.Unmarshal` into a `[]string`; no list is an empty one here. -/
def texts : Json → Option (List (List Char))
  | .null => some []
  | .arr xs => xs.mapM fun
    | .str s => some s
    | .null => some []
    | _ => none
  | _ => none

def unmarshalTexts (s : List Char) : Option (List (List Char)) := (parse s).bind texts

/-! ### Writing -/

def shortEscaped : List (Char × Char) :=
  [('"', '"'), ('\\', '\\'), ('\x08', 'b'), ('\x0C', 'f'), ('\n', 'n'), ('\r', 'r'), ('\t', 't')]

def writeChar (c : Char) : List Char :=
  match shortEscaped.lookup c with
  | some e => ['\\', e]
  | none =>
    if c < ' ' ∨ c = '<' ∨ c = '>' ∨ c = '&' ∨ c = '\u2028' ∨ c = '\u2029' then '\\' :: 'u' :: hex4 c.toNat
    else [c]

def writeString (s : List Char) : List Char := '"' :: s.flatMap writeChar ++ ['"']

/-- The elements after the bracket, each on its line. -/
def writeItems : List (List Char) → List Char
  | [] => []
  | [s] => '\n' :: ' ' :: ' ' :: writeString s ++ ['\n', ']']
  | s :: ss => '\n' :: ' ' :: ' ' :: writeString s ++ ',' :: writeItems ss

/-- `json.MarshalIndent` of a `[]string`. -/
def marshalTexts (ss : List (List Char)) : List Char := if ss = [] then ['[', ']'] else '[' :: writeItems ss

/-! ### A written list comes back -/

theorem hexValue_hexDigit {d : ℕ} (hd : d < 16) : hexValue (hexDigit d) = some d := by
  have hAll : ∀ d : Fin 16, hexValue (hexDigit d) = some d.val := by decide
  exact hAll ⟨d, hd⟩

theorem readHex4_hex4 {n : ℕ} (hn : n < 65536) (rest : List Char) :
    readHex4 (hex4 n ++ rest) = some (n, rest) := by
  have hDigit (k : ℕ) :
    hexValue (hexDigit (n / k % 16)) = some (n / k % 16) := hexValue_hexDigit (Nat.mod_lt _ (by omega))
  have hLast : hexValue (hexDigit (n % 16)) = some (n % 16) := hexValue_hexDigit (Nat.mod_lt _ (by omega))
  have hSum : n / 4096 % 16 * 4096 + n / 256 % 16 * 256 + n / 16 % 16 * 16 + n % 16 = n := by omega
  simp [hex4, readHex4, hDigit, hLast, hSum]

/-- A short escape is read as what it stands for. -/
theorem lookup_of_shortEscaped {c e : Char} (h : shortEscaped.lookup c = some e) :
    shortEscapes.lookup e = some c ∧ e ≠ 'u' := by
  obtain ⟨l₁, l₂, hl, -⟩ := List.lookup_eq_some_iff.1 h
  have hMem : (c, e) ∈ shortEscaped := hl ▸ by simp
  have hAll : ∀ p ∈ shortEscaped, shortEscapes.lookup p.2 = some p.1 ∧ p.2 ≠ 'u' := by decide
  exact hAll (c, e) hMem

theorem ne_of_lookup_shortEscaped {c : Char} (h : shortEscaped.lookup c = none) : c ≠ '"' ∧ c ≠ '\\' := by
  constructor <;> rintro rfl <;> revert h <;> decide

theorem readString_writeChar (fuel : ℕ) (c : Char) (rest : List Char) :
    readString (fuel + 1) (writeChar c ++ rest) = (readString fuel rest).map fun (s, rest) =>
      (c :: s, rest) := by
  rw [writeChar]
  split
  · rename_i e he
    obtain ⟨hRead, hu⟩ := lookup_of_shortEscaped he
    simp [readString, readEscape, hRead, hu]
  · rename_i he
    obtain ⟨hQuote, hSlash⟩ := ne_of_lookup_shortEscaped he
    split
    · rename_i hc
      have hSmall : c.toNat < 0xD800 := by
        rcases hc with hc | rfl | rfl | rfl | rfl | rfl
        · exact lt_trans (Char.lt_def.1 hc) (by decide)
        all_goals decide
      have hPlain : isSurrogate c.toNat = false := by simp [isSurrogate]; omega
      simp [readString, readEscape, readHex4_hex4 (show c.toNat < 65536 by omega), hPlain]
    · rename_i hc
      have hc' : ¬ c < ' ' := fun h => hc (.inl h)
      simp [readString, hQuote, hSlash, hc']

theorem length_le_flatMap_writeChar (s : List Char) : s.length ≤ (s.flatMap writeChar).length := by
  induction s with
  | nil => exact le_rfl
  | cons c s ih =>
    have hOne : 1 ≤ (writeChar c).length := by
      rw [writeChar]
      split
      · exact Nat.le_add_left ..
      · split <;> exact Nat.le_add_left ..
    rw [List.flatMap_cons, List.length_append, List.length_cons]
    omega

theorem readString_flatMap {fuel : ℕ} {s : List Char} (h : s.length < fuel) (rest : List Char) :
    readString fuel (s.flatMap writeChar ++ '"' :: rest) = some (s, rest) := by
  induction s generalizing fuel with
  | nil =>
    obtain ⟨fuel, rfl⟩ := Nat.exists_eq_add_one_of_ne_zero (Nat.ne_zero_of_lt h)
    simp [readString]
  | cons c s ih =>
    obtain ⟨fuel, rfl⟩ := Nat.exists_eq_add_one_of_ne_zero (Nat.ne_zero_of_lt h)
    rw [List.flatMap_cons, List.append_assoc, readString_writeChar, ih (by simpa using h)]
    rfl

theorem readValue_of_quote (depth : ℕ) {s rest : List Char} (h : skipWhite s = '"' :: rest) :
    readValue (depth + 1) s = (readString rest.length rest).map fun (t, rest) => (.str t, rest) := by
  simp [readValue, h]

theorem readValue_of_bracket (depth : ℕ) {s rest : List Char} (h : skipWhite s = '[' :: rest) :
    readValue (depth + 2) s = (readList (readValue (depth + 1)) ']' rest).map fun (xs, rest) =>
      (.arr xs, rest) := by
  rw [readValue]
  simp [h]

theorem readValue_writeString (depth : ℕ) (s rest : List Char) :
    readValue (depth + 1) ('\n' :: ' ' :: ' ' :: (writeString s ++ rest)) = some (.str s, rest) := by
  have hSkip : skipWhite ('\n' :: ' ' :: ' ' :: (writeString s ++ rest)) = '"' ::
    (s.flatMap writeChar ++ '"' :: rest) := by
    simp [skipWhite, isWhite, writeString]
  have hLength := length_le_flatMap_writeChar s
  rw [readValue_of_quote depth hSkip, readString_flatMap
    (by rw [List.length_append, List.length_cons]; omega)]
  rfl

theorem readItems_writeItems (depth : ℕ) {fuel : ℕ} {ss : List (List Char)} (hne : ss ≠ [])
    (h : ss.length ≤ fuel)
    (rest : List Char) :
    readItems (readValue (depth + 1)) ']' fuel (writeItems ss ++ rest) = some (ss.map .str, rest) := by
  induction ss generalizing fuel with
  | nil => exact absurd rfl hne
  | cons s ss ih =>
    obtain ⟨fuel, rfl⟩ := Nat.exists_eq_add_one_of_ne_zero (Nat.ne_zero_of_lt h)
    cases ss with
    | nil =>
      simp [writeItems, readItems, readValue_writeString, skipWhite, isWhite]
    | cons s' ss =>
      have hRest := ih (List.cons_ne_nil _ _) (by simpa using h)
      simp only [writeItems, readItems, List.cons_append, List.append_assoc, readValue_writeString,
        Option.bind_some]
      simp [skipWhite, isWhite, hRest]

theorem length_le_writeItems (ss : List (List Char)) : ss.length ≤ (writeItems ss).length := by
  induction ss with
  | nil => exact le_rfl
  | cons s ss ih =>
    cases ss with
    | nil => simp [writeItems]
    | cons s' ss =>
      simp only [writeItems, List.length_cons, List.length_append] at ih ⊢
      omega

theorem texts_map_str (ss : List (List Char)) : texts (.arr (ss.map .str)) = some ss := by
  simp only [texts]
  induction ss with
  | nil => rfl
  | cons s ss ih => simp [List.mapM_cons, ih]

theorem parse_of_readValue {s rest : List Char} {v : Json}
    (h : readValue (maxNestingDepth + 1) s = some (v, rest))
    (hRest : skipWhite rest = []) : parse s = some v := by
  simp [parse, h, hRest]

theorem skipWhite_writeItems (s : List Char) (ss : List (List Char)) (rest : List Char) :
    (skipWhite (writeItems (s :: ss) ++ rest)).head? = some '"' := by
  cases ss <;> simp [writeItems, writeString, skipWhite, isWhite]

/-- What is written is read back, also from a file that ends its last line. -/
theorem unmarshalTexts_marshalTexts (ss : List (List Char)) : unmarshalTexts (marshalTexts ss ++ ['\n']) =
    some ss := by
  have hDepth : maxNestingDepth + 1 = 9999 + 2 := rfl
  have hParse : parse (marshalTexts ss ++ ['\n']) = some (.arr (ss.map .str)) := by
    have hEnd : skipWhite ['\n'] = [] := by decide
    refine parse_of_readValue ?_ hEnd
    rw [hDepth]
    cases ss with
    | nil =>
      have hSkip : skipWhite (marshalTexts [] ++ ['\n']) = '[' :: [']', '\n'] := by decide
      rw [readValue_of_bracket _ hSkip]
      rfl
    | cons s ss =>
      have hLength := length_le_writeItems (s :: ss)
      have hFuel : (s :: ss).length ≤ (writeItems (s :: ss) ++ ['\n']).length + 1 := by
        rw [List.length_append]
        omega
      have hItems := readItems_writeItems 9999 (List.cons_ne_nil s ss) hFuel ['\n']
      have hSkip : skipWhite (marshalTexts (s :: ss) ++ ['\n']) =
        '[' :: (writeItems (s :: ss) ++ ['\n']) := by
        simp [marshalTexts, skipWhite, isWhite]
      rw [readValue_of_bracket _ hSkip, readList, skipWhite_writeItems, if_neg (by decide), hItems]
      rfl
  rw [unmarshalTexts, hParse]
  exact texts_map_str ss

end Json

end ManyAiCli.Text
