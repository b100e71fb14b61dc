import BreakRules.Machine
import BreakRules.Text.Basic

/-!
# JSON

The part of JSON that a machine needs: natural numbers, strings, arrays and
objects. A value is written in one of two layouts, without any blanks or with
every entry on a line of its own. Objects keep the order of their fields.
-/

namespace BreakRules

/-- A JSON value without fractions, signs, truth values and null. -/
inductive Json where
  | number (n : Nat)
  | string (s : String)
  | array (items : List Json)
  | object (fields : List (String × Json))

inductive Layout where
  /-- Without blanks. -/
  | compact
  /-- Every entry on a line of its own, set in by two blanks for every level. -/
  | indented
deriving DecidableEq, Repr, Inhabited

namespace Layout

/-- What stands in front of an entry at a depth, and in front of the bracket
that closes it. -/
def lineBreak : Layout → Nat → List Char
  | compact, _ => []
  | indented, depth => '\n' :: List.replicate (2 * depth) ' '

/-- What stands between the name of a field and its value. -/
def colon : Layout → List Char
  | compact => [':']
  | indented => [':', ' ']

end Layout

namespace Json

/-- A character inside a string. Quotes, backslashes and controls are escaped,
and nothing else. -/
def escaped (c : Char) : List Char :=
  if c = '"' ∨ c = '\\' then ['\\', c]
  else if c = '\x08' then ['\\', 'b']
  else if c = '\x0c' then ['\\', 'f']
  else if c = '\n' then ['\\', 'n']
  else if c = '\r' then ['\\', 'r']
  else if c = '\t' then ['\\', 't']
  else if c.toNat < 0x20 then '\\' :: 'u' :: Text.hexDigits 4 c.toNat
  else [c]

def writeString (s : String) : List Char :=
  '"' :: (s.toList.flatMap escaped ++ ['"'])

mutual

/-- A value that begins at a depth. -/
def write (layout : Layout) (depth : Nat) : Json → List Char
  | .number n => (toString n).toList
  | .string s => writeString s
  | .array [] => ['[', ']']
  | .array (item :: rest) =>
      '[' :: (layout.lineBreak (depth + 1) ++ write layout (depth + 1) item ++
        writeItems layout (depth + 1) rest ++ layout.lineBreak depth ++ [']'])
  | .object [] => ['\x7b', '\x7d']
  | .object ((name, value) :: rest) =>
      '\x7b' :: (layout.lineBreak (depth + 1) ++ writeString name ++ layout.colon ++
        write layout (depth + 1) value ++ writeFields layout (depth + 1) rest ++
        layout.lineBreak depth ++ ['\x7d'])

/-- The items after the first, each behind a comma. -/
def writeItems (layout : Layout) (depth : Nat) : List Json → List Char
  | [] => []
  | item :: rest =>
      ',' :: (layout.lineBreak depth ++ write layout depth item ++ writeItems layout depth rest)

/-- The fields after the first, each behind a comma. -/
def writeFields (layout : Layout) (depth : Nat) : List (String × Json) → List Char
  | [] => []
  | (name, value) :: rest =>
      ',' :: (layout.lineBreak depth ++ writeString name ++ layout.colon ++
        write layout depth value ++ writeFields layout depth rest)

end

/-- The text of a value, closed by a line feed. -/
def text (layout : Layout) (value : Json) : String :=
  .ofList (write layout 0 value ++ ['\n'])

end Json

def Verdict.word : Verdict → String
  | split => "break"
  | join => "no-break"

def Cell.toJson (c : Cell Nat) : Json :=
  .object [("action", .string c.verdict.word), ("next", .number c.next)]

def State.toJson (s : State) : Json :=
  .object
    [ ("index", .number s.index),
      ("labels", .array (s.labels.map .string)),
      ("row", .array (s.row.map (·.toJson))) ]

def Machine.toJson (M : Machine) : Json :=
  .object
    [ ("tokens", .array (M.tokens.map .string)),
      ("start", .number M.start),
      ("states", .array (M.states.map (·.toJson))) ]

def Machine.json (M : Machine) (layout : Layout) : String :=
  M.toJson.text layout

end BreakRules
