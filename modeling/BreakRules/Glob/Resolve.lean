import BreakRules.Disk.Basic
import BreakRules.Distinct
import BreakRules.Glob.Pattern

/-!
# Files that match patterns

`expand` lists the paths that the segments of a pattern lead to from
directories, one segment after the other. A literal segment is only looked up,
so it may be `.` or `..`. A segment with a shape is compared with every name in
a directory, and `**` with every path below it. A path that is reached in
several ways goes on only once.

`resolve` keeps the regular files among the paths of several patterns, in the
order of paths and each once.
-/

namespace BreakRules.Glob

variable {m : Type → Type} [Monad m] [Disk m]

def isDirectory (path : String) : m Bool :=
  return (← Disk.kind? path) == some .directory

def isFile (path : String) : m Bool :=
  return (← Disk.kind? path) == some .file

/-- A name in a directory as a path. The working directory is left out. -/
def child (directory name : String) : String :=
  if Path.components directory = [.here] then name else Path.join directory name

def children (directory : String) : m (List String) := do
  if ← isDirectory directory then
    return (← Disk.entries directory).map (child directory)
  else return []

/-- The paths below a directory, down to a number of levels. -/
def below : Nat → String → m (List String)
  | 0, _ => pure []
  | levels + 1, directory => do
      let paths ← (← children directory).mapM fun path => do
        return path :: (← below levels path)
      return paths.flatten

def matchesPath (segment : Segment) (path : String) : Bool :=
  (Path.fileName? path).any segment.matchesName

/-- The directory above and the directory itself, if a shape can stand for them. -/
def dots (tokens : List Token) (directory : String) : m (List String) := do
  if leadsWithDot tokens && (← isDirectory directory) then
    return (["..", "."].filter (matchTokens tokens ·.toList)).map (Path.join directory)
  else return []

/-- The path of a literal segment, if it leads anywhere. -/
def literal (name directory : String) : m (List String) := do
  let path := child directory name
  let found ←
    if name = "." ∨ name = ".." then isDirectory directory
    else Option.isSome <$> Disk.kind? path
  return if found then [path] else []

def shaped (tokens : List Token) (directory : String) : m (List String) := do
  return (← dots tokens directory) ++
    (← children directory).filter (matchesPath (.shape tokens))

/-- The paths that `step` leads to from any of several directories, each once. -/
def fromEach (step : String → m (List String)) (directories : List String) :
    m (List String) := do
  return distinct (← directories.mapM step).flatten

/-- The paths that segments lead to from directories. `levels` bounds how deep
`**` looks. -/
def expand (levels : Nat) : List Segment → List String → m (List String)
  | [], paths => pure paths
  | .literal name :: rest, directories => do
      expand levels rest (← fromEach (literal name) directories)
  | .shape tokens :: rest, directories => do
      expand levels rest (← fromEach (shaped tokens) directories)
  | [.anyDepth], directories => do
      (← fromEach (below levels) directories).filterM isDirectory
  | .anyDepth :: next :: rest, directories => do
      let paths ← fromEach (below levels) directories
      expand levels rest (paths.filter (matchesPath next))

def Pattern.files (pattern : Pattern) : m (List String) := do
  if pattern.directoriesOnly then return []
  else (← expand (← Disk.depth) pattern.segments [pattern.root]).filterM isFile

inductive ResolveError where
  | invalidPattern (text : String)
  | noFilesMatched (texts : List String)
deriving DecidableEq, Repr, Inhabited

def ResolveError.message : ResolveError → String
  | invalidPattern text => "Invalid file pattern: " ++ text
  | noFilesMatched texts => "No rule files match: " ++ " ".intercalate texts

/-- The patterns of texts, or the first text that is no pattern. -/
def readPatterns : List String → Except ResolveError (List Pattern)
  | [] => .ok []
  | text :: rest =>
      match Pattern.read? text with
      | none => .error (.invalidPattern text)
      | some p => (p :: ·) <$> readPatterns rest

/-- Sorted paths with only the first of those that are the same. -/
def dropRepeated : List String → List String
  | a :: b :: rest =>
      if Path.compare a b = .eq then dropRepeated (a :: rest) else a :: dropRepeated (b :: rest)
  | l => l

def sortPaths (paths : List String) : List String :=
  dropRepeated (paths.mergeSort fun a b => (Path.compare a b).isLE)

/-- The regular files that at least one of the patterns matches. -/
def resolve (texts : List String) : m (Except ResolveError (List String)) := do
  match readPatterns texts with
  | .error e => return .error e
  | .ok patterns =>
      let files := (← patterns.mapM (·.files)).flatten
      return if files.isEmpty then .error (.noFilesMatched texts) else .ok (sortPaths files)

end BreakRules.Glob
