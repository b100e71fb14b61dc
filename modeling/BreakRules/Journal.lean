import BreakRules.Text.Basic
import BreakRules.Text.Plain

/-!
# Journals

What a program notes about its own work is a list of records. A record has a
level, the part of the program that wrote it and a message. How much of a
journal is shown is decided where it is shown.
-/

namespace BreakRules

/-- How much a record matters, from most to least. -/
inductive Level where
  | error
  | warn
  | info
  | debug
  | trace
deriving DecidableEq, Repr, Inhabited

namespace Level

def name : Level → String
  | error => "ERROR"
  | warn => "WARN"
  | info => "INFO"
  | debug => "DEBUG"
  | trace => "TRACE"

def rank : Level → Nat
  | error => 1
  | warn => 2
  | info => 3
  | debug => 4
  | trace => 5

end Level

inductive Part where
  | parsing
  | exploring
  | merging
  | compiling
  | settings
  | compileCommand
  | checkCommand
deriving DecidableEq, Repr, Inhabited

def Part.name : Part → String
  | parsing => "breakc_core::rules::parser"
  | exploring => "breakc_core::builder"
  | merging => "breakc_core::minimize"
  | compiling => "breakc_core"
  | settings => "breakc_cli::config"
  | compileCommand => "breakc_cli::commands::compile"
  | checkCommand => "breakc_cli::commands::check"

structure Record where
  level : Level
  part : Part
  message : String
deriving DecidableEq, Repr, Inhabited

namespace Record

/-- The line that shows a record. The name of the level takes five places, and
what follows a line feed inside the message is set in by four. Names from a rule
text may hold anything, so terminal controls are left out. -/
def text (r : Record) : String :=
  let message := r.message.toList.flatMap fun c =>
    if c = '\n' then ['\n', ' ', ' ', ' ', ' '] else [c]
  Text.plain
    ("[" ++ Text.padRight 5 r.level.name ++ " " ++ r.part.name ++ "] " ++ .ofList message ++ "\n")

end Record

end BreakRules
