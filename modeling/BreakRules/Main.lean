import BreakRules.Command.Run

/-!
# The program

Runs the commands on the file system and prints the report. Nothing is decided
here: this module only carries out what a `Disk` can do.
-/

namespace BreakRules

def systemFault (e : IO.Error) : SystemFault :=
  match e with
  | .noFileOrDirectory .. => .notFound
  | .inappropriateType _ 20 _ => .notDirectory
  | .inappropriateType _ 21 _ => .isDirectory
  | .resourceBusy .. => .busy
  | .invalidArgument _ 36 _ => .nameTooLong
  | e => .other (toString e)

/-- Runs an action of the file system and gives its fault as a value. -/
def attempt {α : Type} (action : IO α) : IO (Except SystemFault α) := do
  try
    return .ok (← action)
  catch e =>
    return .error (systemFault e)

def kindOnDisk? (path : String) : IO (Option Kind) := do
  if path.isEmpty then return none
  let file := (← IO.currentDir) / path
  if ← file.isDir then return some .directory
  else if ← file.pathExists then
    return if Path.requiresDirectory path then none else some .file
  else return none

def readOnDisk (path : String) : IO (Except SystemFault ByteArray) := do
  match ← kindOnDisk? path with
  | some .directory => return .error .isDirectory
  | _ => attempt do (← IO.FS.Handle.mk path .read).readBinToEnd

/-- Writes a file beside a path and gives it that path. -/
def replaceOnDisk (path text : String) : IO (Except ReplaceFault Unit) := do
  let beside := Path.join (Path.directory path) (".tmp" ++ toString (← IO.rand 0 1000000000000))
  match ← attempt (IO.FS.writeFile beside text) with
  | .error f => return .error (.create f)
  | .ok () =>
      let result ←
        if (← kindOnDisk? path) == some .directory then pure (Except.error .isDirectory)
        else attempt (IO.FS.rename beside path)
      match result with
      | .ok () => return .ok ()
      | .error f =>
          discard (attempt (IO.FS.removeFile beside))
          return .error (.persist f)

/-- A program run on the file system. The names on a path are bounded by the
4096 bytes that the system allows for it. -/
instance : Disk IO where
  readText path := do
    match ← readOnDisk path with
    | .error f => return .error (.system f)
    | .ok bytes => return (String.fromUTF8? bytes).elim (.error .notText) .ok
  kind? := kindOnDisk?
  entries path := do
    match ← attempt ((← IO.currentDir) / path).readDir with
    | .ok found => return (found.map (·.fileName)).toList
    | .error _ => return []
  depth := return 2048
  replace := replaceOnDisk
  overwrite path text := do
    if (← kindOnDisk? path) == some .directory then return .error .isDirectory
    else attempt (IO.FS.writeFile path text)

end BreakRules

def main (words : List String) : IO UInt32 := do
  let report : BreakRules.Report ← BreakRules.runProgram words
  (← IO.getStdout).putStr report.stdout
  (← IO.getStderr).putStr report.stderr
  return report.exitCode.toUInt32
