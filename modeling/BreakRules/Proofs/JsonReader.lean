import BreakRules.Json

/-!
# Reading JSON

A reader for JSON texts whose values are of type `Json`. `Json.lexemes` cuts a
text into brackets, commas, colons, strings and numbers. Blanks may stand
between any two of them, and a string may hold every escape of the format,
pairs of surrogates too. `Json.step` takes one lexeme after the other and keeps
the arrays and objects that are open on a stack.

Signs, fractions, exponents, truth values and null are refused: no `Json` stands
for them. Nothing here knows the two layouts in which values are written.
-/

namespace BreakRules.Json

/-! ### Strings -/

def hexValue (c : Char) : Option Nat :=
  if '0' ≤ c ∧ c ≤ '9' then some (c.toNat - '0'.toNat)
  else if 'a' ≤ c ∧ c ≤ 'f' then some (c.toNat - 'a'.toNat + 10)
  else if 'A' ≤ c ∧ c ≤ 'F' then some (c.toNat - 'A'.toNat + 10)
  else none

def codeUnit (a b c d : Char) : Option Nat := do
  let a ← hexValue a
  let b ← hexValue b
  let c ← hexValue c
  let d ← hexValue d
  return 0x1000 * a + 0x100 * b + 0x10 * c + d

/-- The character that a letter behind a backslash stands for. -/
def unescape (c : Char) : Option Char :=
  if c = '"' ∨ c = '\\' ∨ c = '/' then some c
  else if c = 'b' then some '\x08'
  else if c = 'f' then some '\x0c'
  else if c = 'n' then some '\n'
  else if c = 'r' then some '\r'
  else if c = 't' then some '\t'
  else none

def prepend (c : Char) : List Char × List Char → List Char × List Char
  | (s, rest) => (c :: s, rest)

/-- A string from behind its opening quote on, and what follows its closing
quote. A code unit in the range of the surrogates counts only in a pair. -/
def unquote : List Char → Option (List Char × List Char)
  | [] => none
  | '"' :: rest => some ([], rest)
  | '\\' :: 'u' :: a :: b :: c :: d :: rest =>
      match codeUnit a b c d with
      | none => none
      | some high =>
          if high < 0xD800 ∨ 0xE000 ≤ high then
            (unquote rest).map (prepend (Char.ofNat high))
          else
            match rest with
            | '\\' :: 'u' :: a :: b :: c :: d :: rest =>
                match codeUnit a b c d with
                | none => none
                | some low =>
                    if high < 0xDC00 ∧ 0xDC00 ≤ low ∧ low < 0xE000 then
                      let n := 0x10000 + 0x400 * (high - 0xD800) + (low - 0xDC00)
                      (unquote rest).map (prepend (Char.ofNat n))
                    else none
            | _ => none
  | '\\' :: c :: rest =>
      match unescape c with
      | none => none
      | some c => (unquote rest).map (prepend c)
  | c :: rest => if c.toNat < 0x20 then none else (unquote rest).map (prepend c)

theorem exists_of_map_prepend {c : Char} {read : Option (List Char × List Char)}
    {s rest : List Char} (h : read.map (prepend c) = some (s, rest)) :
    ∃ s', read = some (s', rest) := by
  obtain ⟨⟨s', rest'⟩, hread, hprepend⟩ := Option.map_eq_some_iff.mp h
  cases hprepend
  exact ⟨s', hread⟩

theorem length_lt_of_unquote {text s rest : List Char} (h : unquote text = some (s, rest)) :
    rest.length < text.length := by
  fun_induction unquote text generalizing s with
  | case1 | case3 | case5 | case7 | case8 | case9 | case11 => cases h
  | case2 => cases h; simp
  | case4 | case6 | case10 | case12 =>
      next ih =>
        obtain ⟨s', hs'⟩ := exists_of_map_prepend h
        have hlt := ih hs'
        simp only [List.length_cons]
        omega

/-! ### Lexemes -/

/-- A piece of a text that has no structure inside. -/
inductive Lexeme where
  /-- A bracket, a comma or a colon. -/
  | mark (c : Char)
  | string (s : String)
  | number (n : Nat)
deriving DecidableEq, Repr

def isMark (c : Char) : Bool :=
  c ∈ ['[', ']', '\x7b', '\x7d', ',', ':']

def isSpace (c : Char) : Bool :=
  c ∈ [' ', '\t', '\n', '\r']

/-- The number of a run of decimal digits. Only zero begins with a zero. -/
def readDigits (digits : List Char) : Option Nat :=
  if digits.head? = some '0' ∧ digits.length ≠ 1 then none
  else some (Nat.ofDigitChars 10 digits 0)

def lexemes (text : List Char) : Option (List Lexeme) :=
  match text with
  | [] => some []
  | c :: rest =>
      if isSpace c then lexemes rest
      else if isMark c then (lexemes rest).map (.mark c :: ·)
      else if c = '"' then
        match h : unquote rest with
        | none => none
        | some (s, rest') =>
            have := length_lt_of_unquote h
            (lexemes rest').map (.string (.ofList s) :: ·)
      else if c.isDigit then
        match readDigits (c :: rest.takeWhile Char.isDigit) with
        | none => none
        | some n =>
            have := (List.dropWhile_sublist Char.isDigit (l := rest)).length_le
            (lexemes (rest.dropWhile Char.isDigit)).map (.number n :: ·)
      else none
termination_by text.length
decreasing_by all_goals simp only [List.length_cons]; omega

/-! ### Values -/

/-- An array or an object that is open, with what stands in it before the value
that is being read. -/
inductive Frame where
  | array (before : List Json)
  | object (before : List (String × Json)) (name : String)

/-- What may come next. -/
inductive Phase where
  | value
  /-- A value, or the end of the array that has just begun. -/
  | firstItem
  /-- The name of a field, or the end of the object that has just begun. -/
  | firstField
  /-- The name of a field behind other fields. -/
  | field (before : List (String × Json))
  | colon (before : List (String × Json)) (name : String)
  | follow (value : Json)

/-- A text that has been read in part. -/
structure Reader where
  phase : Phase
  stack : List Frame

/-- The reader behind the first lexeme of a value. -/
def beginValue (stack : List Frame) : Lexeme → Option Reader
  | .string s => some ⟨.follow (.string s), stack⟩
  | .number n => some ⟨.follow (.number n), stack⟩
  | .mark '[' => some ⟨.firstItem, stack⟩
  | .mark '\x7b' => some ⟨.firstField, stack⟩
  | .mark _ => none

def step : Reader → Lexeme → Option Reader
  | ⟨.value, stack⟩, lexeme => beginValue stack lexeme
  | ⟨.firstItem, stack⟩, .mark ']' => some ⟨.follow (.array []), stack⟩
  | ⟨.firstItem, stack⟩, lexeme => beginValue (.array [] :: stack) lexeme
  | ⟨.firstField, stack⟩, .mark '\x7d' => some ⟨.follow (.object []), stack⟩
  | ⟨.firstField, stack⟩, .string name => some ⟨.colon [] name, stack⟩
  | ⟨.field before, stack⟩, .string name => some ⟨.colon before name, stack⟩
  | ⟨.colon before name, stack⟩, .mark ':' => some ⟨.value, .object before name :: stack⟩
  | ⟨.follow v, .array before :: stack⟩, .mark ',' =>
      some ⟨.value, .array (before ++ [v]) :: stack⟩
  | ⟨.follow v, .array before :: stack⟩, .mark ']' =>
      some ⟨.follow (.array (before ++ [v])), stack⟩
  | ⟨.follow v, .object before name :: stack⟩, .mark ',' =>
      some ⟨.field (before ++ [(name, v)]), stack⟩
  | ⟨.follow v, .object before name :: stack⟩, .mark '\x7d' =>
      some ⟨.follow (.object (before ++ [(name, v)])), stack⟩
  | _, _ => none

def steps (r : Reader) (ls : List Lexeme) : Option Reader :=
  ls.foldlM step r

/-- The value of a text, if it is the text of one value. -/
def read? (text : String) : Option Json := do
  let ls ← lexemes text.toList
  let r ← steps ⟨.value, []⟩ ls
  match r with
  | ⟨.follow v, []⟩ => some v
  | _ => none

end BreakRules.Json
