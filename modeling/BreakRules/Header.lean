import BreakRules.Machine
import BreakRules.Text.Basic

/-!
# C headers

A machine is printed as a C header: an anonymous enumeration of its states,
then a table with a row for every state and a cell for every token. The file
that includes the header defines `ACTION`, `BREAK` and `NO_BREAK`. Labels and
tokens stand in comments.

Enumerators are made from the labels, in which every character that C does not
allow is replaced. States that would share an enumerator are told apart by a
number.
-/

namespace BreakRules

/-- The names in a header. The name of the rule file and of the header itself
are shown in its banner. -/
structure HeaderNames where
  tableName : String := "BREAK_TABLE"
  statePrefix : String := "STATE_"
  sourceName : Option String := none
  headerName : Option String := none
deriving DecidableEq, Repr, Inhabited

namespace Header

def isIdentifierChar (c : Char) : Bool :=
  c.isAlphanum || c == '_'

/-- The name with an underscore for every character that a C identifier cannot
hold, and one in front if it is empty or begins with a digit. -/
def identifier (name : String) : String :=
  let chars := name.toList.map fun c => if isIdentifierChar c then c else '_'
  match chars with
  | [] => "_"
  | c :: _ => .ofList (if c.isDigit then '_' :: chars else chars)

def numbered (base : String) (n : Nat) : String :=
  base ++ "_" ++ toString n

/-- The number that is tried after `k` others, from `n` on. Numbers are words of
64 bits, so zero follows the greatest; beyond them it goes on only when all of
them have been tried. -/
def suffix (n k : Nat) : Nat :=
  if k < UInt64.size then (n + k) % UInt64.size else k

/-- `base`, or if it is used `base` with the first number from `n` on that
makes it new. Of as many numbers as there are used names and one more, one is
new. -/
def fresh (used : List String) (base : String) (n : Nat) : String :=
  if base ∈ used then
    let candidates := (List.range (used.length + 1)).map fun k => numbered base (suffix n k)
    (candidates.find? (· ∉ used)).getD base
  else base

/-- The enumerators of states after those in `used`. -/
def identifiersFrom (statePrefix : String) (used : List String) : List State → List String
  | [] => []
  | s :: rest =>
      let ident := fresh used (identifier (statePrefix ++ s.name)) s.index
      ident :: identifiersFrom statePrefix (used ++ [ident]) rest

/-- The enumerators of the states of a machine, no two of them equal. -/
def identifiers (statePrefix : String) (M : Machine) : List String :=
  identifiersFrom statePrefix [] M.states

def banner (o : HeaderNames) (M : Machine) : List String :=
  let title :=
    match o.headerName with
    | some name => ["//  " ++ name, "//"]
    | none => []
  let origin :=
    match o.sourceName with
    | some source => "//  Generated by breakc from " ++ source ++ ". Do not edit."
    | none => "//  Generated by breakc. Do not edit."
  "//" :: title ++
    [ origin,
      "//",
      "//  " ++ toString M.tokens.length ++ " tokens, " ++ toString M.states.length ++ " states.",
      "//",
      "" ]

def enumeration (idents : List String) (M : Machine) : List String :=
  let entries := (idents.zip M.states).map fun (ident, s) =>
    "    " ++ ident ++ " = " ++ toString s.index ++ ","
  ["enum", "\x7b"] ++ entries ++ ["\x7d;", ""]

def verdictName : Verdict → String
  | .split => "BREAK"
  | .join => "NO_BREAK"

/-- A cell, padded so that the comments behind the cells stand in one column. -/
def cellLine (idents : List String) (width : Nat) (cell : Cell Nat) (token : String) : String :=
  let text := verdictName cell.verdict ++ "( " ++ idents.getD cell.next "" ++ " ),"
  "        " ++ Text.padRight width text ++ " // " ++ token

/-- The row of a state under a comment with its labels. -/
def stateLines (idents : List String) (width : Nat) (M : Machine) (s : State) : List String :=
  let mark := if s.index = M.start then " (start)" else ""
  let cells := (s.row.zip M.tokens).map fun (cell, token) => cellLine idents width cell token
  ["    // " ++ " ".intercalate s.labels ++ mark, "    \x7b"] ++ cells ++ ["    \x7d,"]

/-- The places that the longest cell takes. -/
def cellWidth (idents : List String) : Nat :=
  (idents.map (·.length)).foldl max 0 + "NO_BREAK(  ),".length

def table (o : HeaderNames) (idents : List String) (M : Machine) : List String :=
  let opening :=
    "static const ACTION " ++ identifier o.tableName ++ "[][ " ++ toString M.tokens.length ++
      " ] ="
  [opening, "\x7b"] ++ M.states.flatMap (stateLines idents (cellWidth idents) M) ++ ["\x7d;"]

def lines (o : HeaderNames) (M : Machine) : List String :=
  let idents := identifiers o.statePrefix M
  banner o M ++ enumeration idents M ++ table o idents M

end Header

def Machine.header (M : Machine) (o : HeaderNames) : String :=
  "".intercalate ((Header.lines o M).map (· ++ "\n"))

end BreakRules
