import BreakRules.Toml.Date
import BreakRules.Toml.Value

/-!
# Strings, keys and words in TOML

Each reader takes the text from where its part begins and gives what it read
and the rest, or `none` if the text is not well formed. Strings come in four
kinds: with escapes or literal, on one line or on several. A line may end with
a carriage return in front of the line feed; a string that goes over lines keeps
its line ends as they are. What is no string is a word: a truth value, a number
or a date.
-/

namespace BreakRules.Toml

def isSpace (c : Char) : Bool :=
  c == ' ' || c == '\t'

def skipSpaces (text : List Char) : List Char :=
  text.dropWhile isSpace

/-- Controls other than the tab, which may stand nowhere but at the end of a
line. -/
def isControl (c : Char) : Bool :=
  (c.toNat < 0x20 && c != '\t') || c.toNat == 0x7F

def lineEnd? : List Char → Option (List Char)
  | '\n' :: rest => some rest
  | '\r' :: '\n' :: rest => some rest
  | _ => none

def hexChar? (digits : List Char) : Option Char := do
  let n ← digits.foldlM (fun n c => return 16 * n + (← hexDigit? c)) 0
  if n.isValidChar then some (Char.ofNat n) else none

/-- The character behind a backslash that stands for another one. -/
def escape? : Char → Option Char
  | 'b' => some '\x08'
  | 't' => some '\t'
  | 'n' => some '\n'
  | 'f' => some '\x0c'
  | 'r' => some '\r'
  | 'e' => some '\x1b'
  | '"' => some '"'
  | '\\' => some '\\'
  | _ => none

def consRead (c : Char) (r : Option (List Char × List Char)) :
    Option (List Char × List Char) :=
  r.map fun (read, rest) => (c :: read, rest)

/-- A string with escapes on one line, behind its opening quote. -/
def readBasic : List Char → Option (List Char × List Char)
  | [] => none
  | '"' :: rest => some ([], rest)
  | '\\' :: 'x' :: a :: b :: rest => do consRead (← hexChar? [a, b]) (readBasic rest)
  | '\\' :: 'u' :: a :: b :: c :: d :: rest => do
      consRead (← hexChar? [a, b, c, d]) (readBasic rest)
  | '\\' :: 'U' :: a :: b :: c :: d :: e :: f :: g :: h :: rest => do
      consRead (← hexChar? [a, b, c, d, e, f, g, h]) (readBasic rest)
  | '\\' :: c :: rest => do consRead (← escape? c) (readBasic rest)
  | c :: rest => if isControl c then none else consRead c (readBasic rest)

def readLiteral : List Char → Option (List Char × List Char)
  | [] => none
  | '\'' :: rest => some ([], rest)
  | c :: rest => if isControl c then none else consRead c (readLiteral rest)

def endsLine (text : List Char) : Bool :=
  (lineEnd? (skipSpaces text)).isSome

/-- A string with escapes on several lines, behind its opening quotes. Up to
two quotes may stand right before the three that close it. A backslash at the
end of a line hides the line end and every blank and line end after it; while
these are skipped, `skipping` is set. -/
def readLongBasic (skipping : Bool) : List Char → Option (List Char × List Char)
  | [] => none
  | '"' :: '"' :: '"' :: '"' :: '"' :: rest => some (['"', '"'], rest)
  | '"' :: '"' :: '"' :: '"' :: rest => some (['"'], rest)
  | '"' :: '"' :: '"' :: rest => some ([], rest)
  | '\r' :: '\n' :: rest =>
      if skipping then readLongBasic true rest
      else consRead '\r' (consRead '\n' (readLongBasic false rest))
  | '\\' :: 'x' :: a :: b :: rest => do
      consRead (← hexChar? [a, b]) (readLongBasic false rest)
  | '\\' :: 'u' :: a :: b :: c :: d :: rest => do
      consRead (← hexChar? [a, b, c, d]) (readLongBasic false rest)
  | '\\' :: 'U' :: a :: b :: c :: d :: e :: f :: g :: h :: rest => do
      consRead (← hexChar? [a, b, c, d, e, f, g, h]) (readLongBasic false rest)
  | '\\' :: c :: rest =>
      if endsLine (c :: rest) then readLongBasic true (c :: rest)
      else do consRead (← escape? c) (readLongBasic false rest)
  | c :: rest =>
      if skipping && (isSpace c || c == '\n') then readLongBasic true rest
      else if isControl c && c != '\n' then none
      else consRead c (readLongBasic false rest)

def readLongLiteral : List Char → Option (List Char × List Char)
  | [] => none
  | '\'' :: '\'' :: '\'' :: '\'' :: '\'' :: rest => some (['\'', '\''], rest)
  | '\'' :: '\'' :: '\'' :: '\'' :: rest => some (['\''], rest)
  | '\'' :: '\'' :: '\'' :: rest => some ([], rest)
  | '\r' :: '\n' :: rest => consRead '\r' (consRead '\n' (readLongLiteral rest))
  | c :: rest =>
      if isControl c && c != '\n' then none else consRead c (readLongLiteral rest)

/-- The text behind the opening quotes of a string on several lines, without a
line end right after them. -/
def skipFirstLineEnd (text : List Char) : List Char :=
  (lineEnd? text).getD text

def readString : List Char → Option (String × List Char)
  | '"' :: '"' :: '"' :: rest =>
      (readLongBasic false (skipFirstLineEnd rest)).map fun (s, r) => (.ofList s, r)
  | '\'' :: '\'' :: '\'' :: rest =>
      (readLongLiteral (skipFirstLineEnd rest)).map fun (s, r) => (.ofList s, r)
  | '"' :: rest => (readBasic rest).map fun (s, r) => (.ofList s, r)
  | '\'' :: rest => (readLiteral rest).map fun (s, r) => (.ofList s, r)
  | _ => none

def isBare (c : Char) : Bool :=
  c.isAlphanum || c == '_' || c == '-'

def readKeyPart : List Char → Option (String × List Char)
  | '"' :: rest => (readBasic rest).map fun (s, r) => (.ofList s, r)
  | '\'' :: rest => (readLiteral rest).map fun (s, r) => (.ofList s, r)
  | text =>
      let bare := text.takeWhile isBare
      if bare.isEmpty then none else some (.ofList bare, text.dropWhile isBare)

/-- How many brackets may stand inside one another, and how many parts a key may
have. -/
def maxDepth : Nat := 80

/-- At most `most` parts of a dotted key. -/
def readParts : (most : Nat) → List Char → Option (List String × List Char)
  | 0, _ => none
  | most + 1, text => do
      let (part, rest) ← readKeyPart (skipSpaces text)
      match skipSpaces rest with
      | '.' :: rest => do
          let (parts, rest) ← readParts most rest
          return (part :: parts, rest)
      | rest => return ([part], rest)

def readKey (text : List Char) : Option (List String × List Char) :=
  readParts maxDepth text

/-- The characters that a number, a date or a truth value cannot hold. -/
def isDelimiter (c : Char) : Bool :=
  c ∈ ['\n', '\r', '#', ',', '=', '[', ']', '\x7b', '\x7d']

/-- Whether nothing follows on a line that could belong to the word in front of
it: the text goes on with a delimiter or a string, or not at all. -/
def endsWord : List Char → Bool
  | [] => true
  | c :: _ => isDelimiter c || c == '"' || c == '\''

/-- The word in front of a text, and the rest. Blanks belong to the word if it
goes on behind them, as those between a date and a time do. -/
def takeWord : List Char → List Char × List Char
  | [] => ([], [])
  | c :: rest =>
      if isDelimiter c || (isSpace c && endsWord (skipSpaces rest)) then ([], c :: rest)
      else
        let (word, behind) := takeWord rest
        (c :: word, behind)

/-- A truth value, a number or a date. -/
def readWord (text : List Char) : Option (Toml × List Char) :=
  let (word, rest) := takeWord text
  let written := String.ofList word
  if written = "true" then some (.boolean true, rest)
  else if written = "false" then some (.boolean false, rest)
  else if isNumber word then some (.number written, rest)
  else if isMoment word then some (.moment written, rest)
  else none

end BreakRules.Toml
