import BreakRules.Command.Arguments
import BreakRules.Settings

/-!
# Commands

The program has three commands: compile a rule file, check rule files, and
write a file with default settings. `Command.read` reads one from the words of
a command line.
-/

namespace BreakRules

/-- What to compile, where to, and how. What is `none` is left to the settings. -/
structure CompileRequest where
  input : String
  output : Option String := none
  format : Option Format := none
  tableName : Option String := none
  statePrefix : Option String := none
  config : Option String := none
  denyWarnings : Bool := false
  quiet : Bool := false
  verbose : Nat := 0
deriving DecidableEq, Repr, Inhabited

structure CheckRequest where
  patterns : List String
  config : Option String := none
  denyWarnings : Bool := false
  quiet : Bool := false
  verbose : Nat := 0
deriving DecidableEq, Repr, Inhabited

/-- Where to write the default settings, and whether over what is there. -/
structure TemplateRequest where
  output : String
  force : Bool := false
deriving DecidableEq, Repr, Inhabited

inductive Command where
  | compile (request : CompileRequest)
  | check (request : CheckRequest)
  | template (request : TemplateRequest)
deriving DecidableEq, Repr, Inhabited

namespace Command

def anyText (_ : String) : Bool := true

def isPath (text : String) : Bool := text ≠ ""

def isFormat (text : String) : Bool := (Format.ofWord? text).isSome

def helpOption : OptionSpec := ⟨"help", some 'h', .help⟩

/-- The options that compiling and checking share. -/
def commonOptions : List OptionSpec :=
  [ ⟨"config", some 'c', .value isPath⟩,
    ⟨"deny-warnings", none, .flag⟩,
    ⟨"quiet", some 'q', .flag⟩,
    ⟨"verbose", some 'v', .count⟩,
    helpOption ]

def compileSpec : CommandSpec where
  options :=
    [ ⟨"format", some 'f', .value isFormat⟩,
      ⟨"table-name", some 't', .value anyText⟩,
      ⟨"state-prefix", none, .value anyText⟩ ] ++ commonOptions
  positionals := [⟨"INPUT", isPath, true, false⟩, ⟨"OUTPUT", isPath, false, false⟩]

def checkSpec : CommandSpec where
  options := commonOptions
  positionals := [⟨"PATTERN", anyText, true, true⟩]

def templateSpec : CommandSpec where
  options := [⟨"force", none, .flag⟩, helpOption]
  positionals := [⟨"OUTPUT", isPath, true, false⟩]

def value? (g : Given) (name : String) : Option String :=
  (g.values name).head?

def flag (g : Given) (name : String) : Bool :=
  !(g.values name).isEmpty

/-- How often an option was given, up to the 255 that are told apart. -/
def count (g : Given) (name : String) : Nat :=
  min 255 (g.values name).length

def compileRequest (g : Given) : CompileRequest where
  input := (value? g "INPUT").getD ""
  output := value? g "OUTPUT"
  format := (value? g "format").bind Format.ofWord?
  tableName := value? g "table-name"
  statePrefix := value? g "state-prefix"
  config := value? g "config"
  denyWarnings := flag g "deny-warnings"
  quiet := flag g "quiet"
  verbose := count g "verbose"

def checkRequest (g : Given) : CheckRequest where
  patterns := g.values "PATTERN"
  config := value? g "config"
  denyWarnings := flag g "deny-warnings"
  quiet := flag g "quiet"
  verbose := count g "verbose"

def templateRequest (g : Given) : TemplateRequest where
  output := (value? g "OUTPUT").getD ""
  force := flag g "force"

def names : List String := ["compile", "check", "generate-config", "help"]

/-- The words behind `help`: nothing, or one command. -/
def readHelp : List String → UsageError
  | [] => .help
  | [name] => if name ∈ names then .help else .invalidSubcommand
  | _ => .invalidSubcommand

/-- What a word that is no command says in front of the commands. -/
def readFront (word : String) : UsageError :=
  match word.toList with
  | '-' :: '-' :: chars =>
      let (name, attached) := ArgState.splitLong chars
      if name = "help" then (if attached.isSome then .tooManyValues else .help)
      else if name = "version" then (if attached.isSome then .tooManyValues else .version)
      else .unknownArgument
  | '-' :: 'h' :: _ => .help
  | '-' :: 'V' :: _ => .version
  | '-' :: _ :: _ => .unknownArgument
  | _ => .invalidSubcommand

/-- The command that the words of a command line give. No command can be named
behind `--`. -/
def read : List String → Except UsageError Command
  | [] => .error .helpOnMissing
  | "compile" :: words => do return .compile (compileRequest (← compileSpec.read words))
  | "check" :: words => do return .check (checkRequest (← checkSpec.read words))
  | "generate-config" :: words => do return .template (templateRequest (← templateSpec.read words))
  | "help" :: words => .error (readHelp words)
  | "--" :: [] => .error .helpOnMissing
  | "--" :: word :: _ =>
      .error (if word ∈ names then .unknownArgument else .invalidSubcommand)
  | word :: _ => .error (readFront word)

end Command

end BreakRules
