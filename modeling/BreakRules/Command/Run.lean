import BreakRules.Command.Basic
import BreakRules.Command.Report
import BreakRules.Header
import BreakRules.Json

/-!
# Running commands

Commands run on any disk. Compiling renders its output in full before it writes
anything, and writes it by replacing a file, so a run that fails leaves
everything as it was. Checking reads files only; it compiles each of them by
the same `compileFile` as compiling does.
-/

namespace BreakRules

variable {m : Type → Type} [Monad m] [Disk m]

/-- The settings in a file, or the defaults without one, and what is noted. -/
def loadSettings : Option String → m (List Record × Except Failure Settings)
  | none => return ([], .ok {})
  | some path => do
      match ← Disk.readText path with
      | .error f => return ([], .error (.unreadable path f))
      | .ok text =>
          match Settings.parse? text with
          | none => return ([], .error (.badSettings path))
          | some settings =>
              return ([⟨.debug, .settings, "loaded configuration from " ++ path⟩],
                .ok settings)

/-- The options in the settings, with every warning fatal if that is asked for. -/
def chosenOptions (settings : Settings) (denyWarnings : Bool) : Options :=
  if denyWarnings then settings.diagnostics.denyWarnings else settings.diagnostics

def findingRecords (part : Part) (path : String) (findings : List Finding) : List Record :=
  findings.map fun f => ⟨.warn, part, path ++ ": " ++ f.message⟩

/-- Compiles a file, and what is noted by `part` and by the compiler. -/
def compileFile (part : Part) (path : String) (options : Options) :
    m (List Record × Except Failure Compilation) := do
  match ← Disk.readText path with
  | .error f => return ([], .error (.unreadable path f))
  | .ok source =>
      let (notes, result) := compileNoted source options
      match result with
      | .error e => return (notes, .error (.notCompiled path e))
      | .ok c => return (notes ++ findingRecords part path c.findings, .ok c)

/-! ### Compiling -/

namespace CompileRequest

/-- The names in the header. Arguments win over settings. -/
def headerNames (a : CompileRequest) (s : OutputSettings) : HeaderNames where
  tableName :=
    (a.tableName.or s.tableName).getD
      (tableNameFor a.input a.output ({} : HeaderNames).tableName)
  statePrefix := a.statePrefix.getD s.statePrefix
  sourceName := some (Path.shownName a.input)
  headerName := a.output.map Path.shownName

def render (a : CompileRequest) (s : OutputSettings) (M : Machine) : String :=
  match a.format.getD s.format with
  | .header => M.header (a.headerNames s)
  | .json => M.json (if s.prettyJson then .indented else .compact)

def notice (a : CompileRequest) (output : String) (c : Compilation) : String :=
  if a.quiet then ""
  else
    a.input ++ " -> " ++ output ++ ": " ++ toString c.machine.states.length ++ " states (" ++
      toString c.rawStates ++ " before merging)\n"

/-- The events of compiling: the arguments come before all that is noted. -/
def events (a : CompileRequest) (notes : List Record) : List Event :=
  .arguments a :: notes.map .noted

@[simp] theorem records_events (a : CompileRequest) (notes : List Record) :
    Event.records (a.events notes) = notes :=
  Event.records_map_noted notes

/-- Compiles the input and writes or prints the machine. -/
def run (a : CompileRequest) : m Outcome := do
  let (notes, loaded) ← loadSettings a.config
  match loaded with
  | .error f => return { events := a.events notes, failure := some f }
  | .ok settings =>
      let options := chosenOptions settings a.denyWarnings
      let (more, compiled) ← compileFile .compileCommand a.input options
      let events := a.events (notes ++ more)
      match compiled with
      | .error f => return { events, failure := some f }
      | .ok c =>
          let text := a.render settings.output c.machine
          match a.output with
          | none => return { events, stdout := text }
          | some output =>
              match ← Disk.replace output text with
              | .error f => return { events, failure := some (.notReplaced output f) }
              | .ok () => return { events, notice := a.notice output c }

end CompileRequest

/-! ### Checking -/

def checkLine (path : String) : Except Failure Compilation → String
  | .ok c =>
      "ok    " ++ path ++ ": " ++ toString c.machine.states.length ++ " states (" ++
        toString c.rawStates ++ " before merging), " ++ toString c.findings.length ++
        " warnings\n"
  | .error f => "FAIL  " ++ path ++ ": " ++ f.message ++ "\n"

namespace CheckRequest

/-- The reporter of progress. A single file needs none. -/
def reporter (a : CheckRequest) (paths : List String) : ProgressReporter :=
  { quiet := a.quiet || paths.length < 2 }

/-- The events of checking files, given what is noted about each: the bar is started,
moves on behind every file and is gone in the end. -/
def fileEvents (a : CheckRequest) (paths : List String) (notes : List (List Record)) :
    List Event :=
  let (progress, started) := (a.reporter paths).start paths.length
  started.map .bar ++
    ((paths.zip notes).flatMap fun (path, records) =>
      records.map .noted ++ (progress.completed (Path.shownName path)).map .bar) ++
    progress.finish.map .bar

/-- The bar changes nothing in what is noted. -/
@[simp] theorem records_fileEvents (a : CheckRequest) (paths : List String)
    (notes : List (List Record)) :
    Event.records (a.fileEvents paths notes) = (paths.zip notes).flatMap (·.2) := by
  simp [fileEvents]

/-- Compiles every file that the patterns match and prints a line for each. -/
def run (a : CheckRequest) : m Outcome := do
  let (notes, loaded) ← loadSettings a.config
  match loaded with
  | .error f => return { events := notes.map .noted, failure := some f }
  | .ok settings =>
      match ← Glob.resolve a.patterns with
      | .error e => return { events := notes.map .noted, failure := some (.unresolved e) }
      | .ok paths =>
          let opening : Record :=
            ⟨.info, .checkCommand, "Checking " ++ toString paths.length ++ " rule files"⟩
          let options := chosenOptions settings a.denyWarnings
          let results ← paths.mapM fun path => compileFile .checkCommand path options
          let failed := (results.filter fun r => !r.2.isOk).length
          return {
            events := (notes ++ [opening]).map .noted ++ a.fileEvents paths (results.map (·.1))
            stdout := "".intercalate ((paths.zip results).map fun (path, r) => checkLine path r.2)
            failure := if failed = 0 then none else some (.checkFailed failed paths.length) }

end CheckRequest

/-! ### The template -/

namespace TemplateRequest

def done (a : TemplateRequest) : String :=
  "Configuration template written to " ++ a.output ++ "\n" ++
    "Use it with: breakc compile --config " ++ a.output ++ " <INPUT> [OUTPUT]\n"

/-- Writes the default settings, over an old file only if that is asked for. -/
def run (a : TemplateRequest) : m Outcome := do
  if (← Disk.kind? a.output).isSome && !a.force then
    return { failure := some (.outputExists a.output) }
  else
    match ← Disk.overwrite a.output Settings.template with
    | .error f => return { failure := some (.notWritten a.output f) }
    | .ok () => return { stdout := a.done }

end TemplateRequest

/-! ### The program -/

def Command.run (c : Command) (console : Console := .plain) : m Report := do
  match c with
  | .compile a => return (← a.run).report (shownLevel a.quiet a.verbose) console
  | .check a => return (← a.run).report (shownLevel a.quiet a.verbose) console
  | .template a => return (← a.run).report .error console

def helpText : String :=
  "".intercalate (lines.map (· ++ "\n"))
where
  lines : List String :=
    [ "Compile break rule files into state machine tables",
      "",
      "Usage: breakc <COMMAND>",
      "",
      "Commands:",
      "  compile          Compile a rule file into a C header or JSON table",
      "  check            Compile rule files without writing output and report on each",
      "  generate-config  Write a configuration file template",
      "  help             Print this message or the help of the given subcommand(s)",
      "",
      "Options:",
      "  -h, --help     Print help",
      "  -V, --version  Print version" ]

def UsageError.message : UsageError → String
  | helpOnMissing => helpText
  | help => helpText
  | version => "breakc 0.1.0\n"
  | missingRequired => "error: the following required arguments were not provided\n"
  | unknownArgument => "error: unexpected argument found\n"
  | invalidValue => "error: invalid or missing value\n"
  | conflict => "error: an argument cannot be used multiple times\n"
  | tooManyValues => "error: unexpected value for an argument\n"
  | invalidSubcommand => "error: unrecognized subcommand\n"

/-- The report on arguments that give no command. Help and version are printed,
all else is an error. -/
def UsageError.report (e : UsageError) : Report :=
  if e = help ∨ e = version then ⟨0, e.message, ""⟩ else ⟨2, "", e.message⟩

def runProgram (words : List String) (console : Console := .plain) : m Report :=
  match Command.read words with
  | .ok command => command.run console
  | .error e => return e.report

end BreakRules
