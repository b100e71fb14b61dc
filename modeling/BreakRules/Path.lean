import BreakRules.Text.UpperCase

/-!
# Paths

A path is a text of segments between slashes. Its components are what the
segments mean: the root for a leading slash, a leading `.`, every `..`, and the
names. Empty segments and a `.` that does not lead mean nothing and give no
component. Two paths with the same components are the same path, and paths are
ordered by their components, not by their text.
-/

namespace BreakRules

inductive Component where
  | root
  | here
  | up
  | name (n : String)
deriving DecidableEq, Repr, Inhabited

namespace Component

def text : Component → String
  | root => "/"
  | here => "."
  | up => ".."
  | name n => n

/-- The place of a component among components of other kinds. -/
def rank : Component → Nat
  | root => 0
  | here => 1
  | up => 2
  | name _ => 3

/-- The order of components: by kind, and names by their characters. -/
def compare : Component → Component → Ordering
  | name a, name b => Ord.compare a b
  | a, b => Ord.compare a.rank b.rank

end Component

namespace Path

/-- The segments of a path, empty ones included. -/
def segments (path : String) : List String :=
  (path.toList.splitOn '/').map .ofList

/-- The component of a segment that does not lead the path. -/
def component? (segment : String) : Option Component :=
  if segment = "" ∨ segment = "." then none
  else if segment = ".." then some .up
  else some (.name segment)

def components (path : String) : List Component :=
  match segments path with
  | [] => []
  | "" :: [] => []
  | "" :: rest => .root :: rest.filterMap component?
  | "." :: rest => .here :: rest.filterMap component?
  | rest => rest.filterMap component?

def isAbsolute (path : String) : Bool :=
  path.toList.head? == some '/'

/-- Whether a name has more bytes than a file system takes. -/
def isLongName (name : String) : Bool :=
  255 < name.utf8ByteSize

/-- Whether a path has more bytes than the system takes. -/
def isLong (path : String) : Bool :=
  4096 ≤ path.utf8ByteSize

def hasNul (path : String) : Bool :=
  path.toList.contains '\x00'

/-- The last segment that is not empty. -/
def lastSegment? (path : String) : Option String :=
  ((segments path).filter (· ≠ "")).getLast?

def endsWithSlash (path : String) : Bool :=
  path.toList.getLast? == some '/'

/-- Whether a path can only be that of a directory, by the way it is written. -/
def requiresDirectory (path : String) : Bool :=
  endsWithSlash path || lastSegment? path == some "."

def fileName? (path : String) : Option String :=
  match (components path).getLast? with
  | some (.name n) => some n
  | _ => none

/-- A file name up to its last dot. A dot in front does not count. -/
def stem (fileName : String) : String :=
  let reversed := fileName.toList.reverse
  match reversed.dropWhile (· ≠ '.') with
  | _ :: before@(_ :: _) => .ofList before.reverse
  | _ => fileName

def stem? (path : String) : Option String :=
  (fileName? path).map stem

/-- The name of a file for banners: its file name, or the path if there is
none. -/
def shownName (path : String) : String :=
  (fileName? path).getD path

def ofComponents : List Component → String
  | .root :: rest => "/" ++ "/".intercalate (rest.map (·.text))
  | components => "/".intercalate (components.map (·.text))

/-- The directory that a path lies in, written `.` where the path does not say. -/
def directory (path : String) : String :=
  match (components path).dropLast with
  | [] => "."
  | parent => ofComponents parent

def join (base segment : String) : String :=
  if base = "" ∨ endsWithSlash base then base ++ segment else base ++ "/" ++ segment

/-- The order of lists of components: entry by entry, a shorter list first. -/
def compareComponents : List Component → List Component → Ordering
  | [], [] => .eq
  | [], _ :: _ => .lt
  | _ :: _, [] => .gt
  | a :: as, b :: bs => (a.compare b).then (compareComponents as bs)

def compare (a b : String) : Ordering :=
  compareComponents (components a) (components b)

end Path

/-- The table name for a machine that is compiled from `input` to `output`: the
stem of the output in upper case, or that of the input. -/
def tableNameFor (input : String) (output : Option String) (fallback : String) : String :=
  match (output.bind Path.stem?).or (Path.stem? input) with
  | some s => Text.upperCase s
  | none => fallback

end BreakRules
