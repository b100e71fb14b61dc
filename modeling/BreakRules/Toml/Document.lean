import BreakRules.Toml.Scalar

/-!
# TOML documents

A document is a sequence of lines. A line opens a table or gives a value to a
key in the table that is open; it may be empty and may end with a comment.
Values nest to a limited depth, and a value between brackets may go over several
lines.
-/

namespace BreakRules.Toml

def skipComment : List Char → Option (List Char)
  | [] => some []
  | '\n' :: rest => some ('\n' :: rest)
  | '\r' :: '\n' :: rest => some ('\r' :: '\n' :: rest)
  | c :: rest => if isControl c then none else skipComment rest

/-- The text behind what may follow on a line: blanks, a comment, and the line
end if the document does not end there. -/
def finishLine (text : List Char) : Option (List Char) := do
  let rest ←
    match skipSpaces text with
    | '#' :: rest => skipComment rest
    | rest => some rest
  if rest.isEmpty then some [] else lineEnd? rest

/-- The text behind blanks, line ends and comments. While a comment is skipped,
`comment` is set. -/
def skipTrivia (comment : Bool) : List Char → Option (List Char)
  | [] => some []
  | '\r' :: '\n' :: rest => skipTrivia false rest
  | c :: rest =>
      if c == '\n' then skipTrivia false rest
      else if comment then (if isControl c then none else skipTrivia true rest)
      else if isSpace c then skipTrivia false rest
      else if c == '#' then skipTrivia true rest
      else some (c :: rest)

mutual

/-- A value in which at most `depth` brackets stand inside one another. Every
value inside another begins further on in the text, so the number of characters
is enough `fuel`. -/
def readValue (fuel depth : Nat) (text : List Char) : Option (Toml × List Char) :=
  match fuel with
  | 0 => none
  | fuel + 1 =>
      match text, depth with
      | '"' :: _, _ => (readString text).map fun (s, rest) => (.string s, rest)
      | '\'' :: _, _ => (readString text).map fun (s, rest) => (.string s, rest)
      | '[' :: rest, depth + 1 =>
          (readItems fuel depth [] rest).map fun (l, rest) => (.array false l, rest)
      | '\x7b' :: rest, depth + 1 =>
          (readPairs fuel depth [] rest).map fun (l, rest) => (.table .inline l, rest)
      | _, _ => readWord text

/-- The items of an array behind those in `read`, which has the last first, up
to its bracket. -/
def readItems (fuel depth : Nat) (read : List Toml) (text : List Char) :
    Option (List Toml × List Char) :=
  match fuel with
  | 0 => none
  | fuel + 1 => do
      match ← skipTrivia false text with
      | ']' :: rest => return (read.reverse, rest)
      | text =>
          let (item, rest) ← readValue fuel depth text
          match ← skipTrivia false rest with
          | ',' :: rest => readItems fuel depth (item :: read) rest
          | ']' :: rest => return ((item :: read).reverse, rest)
          | _ => none

/-- The entries of an inline table behind those in `read`, up to its brace. -/
def readPairs (fuel depth : Nat) (read : List (String × Toml)) (text : List Char) :
    Option (List (String × Toml) × List Char) :=
  match fuel with
  | 0 => none
  | fuel + 1 => do
      match ← skipTrivia false text with
      | '\x7d' :: rest => return (read, rest)
      | text =>
          let (key, rest) ← readKey text
          match ← skipTrivia false rest with
          | '=' :: rest =>
              let (value, rest) ← readValue fuel depth (← skipTrivia false rest)
              let read ← define key value read
              match ← skipTrivia false rest with
              | ',' :: rest => readPairs fuel depth read rest
              | '\x7d' :: rest => return (read, rest)
              | _ => none
          | _ => none

end

/-- A document that has been read in part: its root table and the path of the
table that is open. -/
structure Document where
  root : Toml := .table .header []
  opened : List String := []

namespace Document

def change (d : Document) (path : List String)
    (f : Origin → List (String × Toml) → Option Toml) : Option Document :=
  match d.root with
  | .table origin entries => do return { d with root := ← update f path origin entries }
  | _ => none

def give (d : Document) (key : List String) (value : Toml) : Option Document :=
  d.change d.opened fun origin entries => do
    return .table origin (← define key value entries)

/-- Opens the table or the array element that a header names. -/
def openAt (d : Document) (path : List String)
    (f : String → Origin → List (String × Toml) → Option Toml) : Option Document := do
  let d ← d.change path.dropLast (f (← path.getLast?))
  return { d with opened := path }

/-- Reads one line, which begins behind the blanks in front of it. -/
def readLine (d : Document) (text : List Char) : Option (Document × List Char) := do
  match text with
  | '[' :: '[' :: rest =>
      let (path, rest) ← readKey rest
      match rest with
      | ']' :: ']' :: rest => return (← d.openAt path openElement, ← finishLine rest)
      | _ => none
  | '[' :: rest =>
      let (path, rest) ← readKey rest
      match rest with
      | ']' :: rest => return (← d.openAt path openTable, ← finishLine rest)
      | _ => none
  | _ =>
      let (key, rest) ← readKey text
      match rest with
      | '=' :: rest =>
          let (value, rest) ← readValue rest.length maxDepth (skipSpaces rest)
          return (← d.give key value, ← finishLine rest)
      | _ => none

/-- Reads the lines of a text. Every line has at least one character, so the
number of characters is enough `fuel`. -/
def readLines : (fuel : Nat) → Document → List Char → Option Document
  | 0, d, text => if text.isEmpty then some d else none
  | fuel + 1, d, text => do
      match ← skipTrivia false text with
      | [] => return d
      | text =>
          let (d, rest) ← d.readLine text
          readLines fuel d rest

end Document

/-- The root table of a document. A byte-order mark in front of it is no part
of it. -/
def parse? (source : String) : Option Toml :=
  let text :=
    match source.toList with
    | '\uFEFF' :: rest => rest
    | text => text
  (Document.readLines text.length {} text).map (·.root)

end BreakRules.Toml
