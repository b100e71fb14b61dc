import BreakRules.Finding
import BreakRules.Toml.Document

/-!
# Settings

Settings say how findings are judged and how a machine is printed. They are
written as a TOML document with the tables `diagnostics` and `output`. Whatever
the document leaves out has its default; a key that is not known, or a value
that does not fit, makes the whole document invalid.

A record may also be given as an array of its values in order, and a word as a
table with the word for its only key and nothing in it.
-/

namespace BreakRules

inductive Format where
  | header
  | json
deriving DecidableEq, Repr, Inhabited

namespace Format

def word : Format → String
  | header => "header"
  | json => "json"

def ofWord? (w : String) : Option Format :=
  if w = "header" then some header else if w = "json" then some json else none

end Format

structure OutputSettings where
  format : Format := .header
  /-- The name of the table. It is made from the file names if it is not set. -/
  tableName : Option String := none
  statePrefix : String := "STATE_"
  prettyJson : Bool := true
deriving DecidableEq, Repr, Inhabited

structure Settings where
  diagnostics : Options := {}
  output : OutputSettings := {}
deriving DecidableEq, Repr, Inhabited

namespace Settings

def readWord {α : Type} (ofWord? : String → Option α) : Toml → Option α
  | .string s => ofWord? s
  | .table _ [(word, .table _ [])] => ofWord? word
  | .table _ [(word, .array _ [])] => ofWord? word
  | _ => none

def readText : Toml → Option String
  | .string s => some s
  | _ => none

def readBoolean : Toml → Option Bool
  | .boolean b => some b
  | _ => none

/-- A record: the fields that a table names or an array lists. `names` are the
names of the fields in order, and values behind the last of them are not
looked at. -/
def readRecord {α : Type} (names : List String) (set : String → Toml → α → Option α)
    (default : α) : Toml → Option α
  | .table _ entries => entries.foldlM (fun r (name, value) => set name value r) default
  | .array _ items => (names.zip items).foldlM (fun r (name, value) => set name value r) default
  | _ => none

def setOption (name : String) (value : Toml) (o : Options) : Option Options := do
  match name with
  | "undeclared_rhs" => return { o with undeclaredRight := ← readWord Policy.ofWord? value }
  | "missing_start" => return { o with missingStart := ← readWord Policy.ofWord? value }
  | _ => none

def setOutput (name : String) (value : Toml) (o : OutputSettings) : Option OutputSettings := do
  match name with
  | "format" => return { o with format := ← readWord Format.ofWord? value }
  | "table_name" => return { o with tableName := some (← readText value) }
  | "state_prefix" => return { o with statePrefix := ← readText value }
  | "pretty_json" => return { o with prettyJson := ← readBoolean value }
  | _ => none

def set (name : String) (value : Toml) (s : Settings) : Option Settings := do
  match name with
  | "diagnostics" =>
      let o ← readRecord ["undeclared_rhs", "missing_start"] setOption {} value
      return { s with diagnostics := o }
  | "output" =>
      let names := ["format", "table_name", "state_prefix", "pretty_json"]
      let o ← readRecord names setOutput {} value
      return { s with output := o }
  | _ => none

def parse? (source : String) : Option Settings := do
  readRecord [] set {} (← Toml.parse? source)

end Settings

/-- A document with the default settings and a note on each. -/
def Settings.template : String :=
  "".intercalate (lines.map (· ++ "\n"))
where
  lines : List String :=
    [ "# breakc configuration",
      "#",
      "# Pass with `breakc compile --config <FILE>`; command-line flags win over",
      "# the values below.",
      "",
      "[diagnostics]",
      "# Policies are \"ignore\", \"warn\" or \"deny\".",
      "",
      "# A break rule matched but its right-hand side is not a declared token.",
      "undeclared_rhs = \"warn\"",
      "",
      "# The rule file has no `-> <start>` line. The table is then built from the",
      "# empty state.",
      "missing_start = \"warn\"",
      "",
      "[output]",
      "# \"header\" or \"json\"",
      "format = \"header\"",
      "",
      "# Name of the table array. Defaults to the output file name without its",
      "# extension, upper-cased, or the input file name when writing to stdout.",
      "# table_name = \"BREAK_TABLE\"",
      "",
      "# Prefix of every state enumerator in the header.",
      "state_prefix = \"STATE_\"",
      "",
      "# Indent JSON output.",
      "pretty_json = true" ]

end BreakRules
