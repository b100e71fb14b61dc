import BreakRules.Command.Console
import BreakRules.Compile
import BreakRules.Disk.Basic
import BreakRules.Glob.Resolve

/-!
# Outcomes and reports

An outcome is what a command did, before it is decided how much of it is shown.
A report is what its user sees: an exit code and the texts on the two output
streams. The events of a command reach the stream for errors only, through a
console and as far as the level goes that the command asks for.
-/

namespace BreakRules

inductive Failure where
  | unreadable (path : String) (f : ReadFault)
  | badSettings (path : String)
  | notCompiled (path : String) (e : CompileError)
  | notReplaced (path : String) (f : ReplaceFault)
  | notWritten (path : String) (f : SystemFault)
  | unresolved (e : Glob.ResolveError)
  | outputExists (path : String)
  | checkFailed (failed total : Nat)
deriving DecidableEq, Repr, Inhabited

namespace Failure

/-- The message and the messages of its causes, from the outermost on. -/
def chain : Failure → List String
  | unreadable path f => ["Failed to read file: " ++ path, f.message]
  | badSettings path => ["Configuration error: " ++ path]
  | notCompiled path e => ("Failed to compile " ++ path) :: e.chain
  | notReplaced path f => ("Failed to write to " ++ path) :: f.chain
  | notWritten path f => ["Failed to write to " ++ path, f.message]
  | unresolved e => [e.message]
  | outputExists path => [path ++ " already exists (use --force to overwrite)"]
  | checkFailed failed total =>
      [toString failed ++ " of " ++ toString total ++ " rule files failed"]

def message (f : Failure) : String :=
  ": ".intercalate f.chain

end Failure

structure Outcome where
  events : List Event := []
  stdout : String := ""
  /-- What the user was told in the end, beside what was printed. -/
  notice : String := ""
  failure : Option Failure := none
deriving DecidableEq, Repr, Inhabited

structure Report where
  exitCode : Nat
  stdout : String
  stderr : String
deriving DecidableEq, Repr, Inhabited

/-- The least important records that are shown. -/
def shownLevel (quiet : Bool) (verbose : Nat) : Level :=
  if quiet then .error
  else
    match verbose with
    | 0 => .warn
    | 1 => .info
    | 2 => .debug
    | _ => .trace

/-- The report of an outcome on a console, with a level that is asked for. -/
def Outcome.report (o : Outcome) (level : Level) (console : Console) : Report :=
  let shown := o.events.filter (console.shows level)
  let error :=
    match o.failure with
    | some f => "Error: " ++ f.message ++ "\n"
    | none => ""
  { exitCode := if o.failure.isSome then 1 else 0
    stdout := o.stdout
    stderr := console.draw shown ++ o.notice ++ error }

end BreakRules
