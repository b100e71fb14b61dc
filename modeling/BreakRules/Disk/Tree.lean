import BreakRules.Disk.Basic
import BreakRules.Path

/-!
# Trees of files

A tree is a disk as a value: files and directories under their locations, and
a working directory from which relative paths lead. A location is the list of
names from the root, so it has one form only, and paths are resolved to
locations by walking along their components. A walk passes through directories
only; the system's answers to the ways in which it can fail are those of
`SystemFault`.
-/

namespace BreakRules

/-- The names from the root to a file or directory. -/
abbrev Location := List String

inductive Node where
  | file (bytes : ByteArray)
  | directory
deriving Inhabited

instance : DecidableEq Node
  | .file a, .file b =>
      decidable_of_iff (a.data = b.data) (by simp [ByteArray.ext_iff])
  | .file _, .directory => isFalse nofun
  | .directory, .file _ => isFalse nofun
  | .directory, .directory => isTrue rfl

/-- Files and directories under their locations. The root is always there and
is not listed. -/
structure Tree where
  nodes : List (Location × Node)
  /-- The working directory. -/
  here : Location
deriving DecidableEq, Inhabited

namespace Tree

def node? (t : Tree) : Location → Option Node
  | [] => some .directory
  | location => t.nodes.lookup location

/-- Entries with a new one, which takes the place of an old one at its
location. -/
def putNode (location : Location) (node : Node) :
    List (Location × Node) → List (Location × Node)
  | [] => [(location, node)]
  | (l, n) :: rest =>
      if l = location then (l, node) :: rest else (l, n) :: putNode location node rest

def put (t : Tree) (location : Location) (node : Node) : Tree :=
  { t with nodes := putNode location node t.nodes }

/-- The tree with a directory at a location and at every location above it. -/
def makeDirectories (t : Tree) (location : Location) : Tree :=
  (List.range location.length).foldl
    (fun t k =>
      let above := location.take (k + 1)
      if (t.node? above).isSome then t else t.put above .directory)
    t

/-- The tree with a file at a location, and directories above it. -/
def makeFile (t : Tree) (location : Location) (bytes : ByteArray) : Tree :=
  (t.makeDirectories location.dropLast).put location (.file bytes)

/-- The tree that is empty but for its working directory. -/
def ofWorkingDirectory (here : Location) : Tree :=
  makeDirectories ⟨[], here⟩ here

/-- The files below the working directory with their locations from there. -/
def files (t : Tree) : List (Location × ByteArray) :=
  t.nodes.filterMap fun (location, node) =>
    match node with
    | .file bytes =>
        if t.here.isPrefixOf location then some (location.drop t.here.length, bytes) else none
    | .directory => none

/-! ### Paths -/

def next (location : Location) : Component → Location
  | .root => []
  | .here => location
  | .up => location.dropLast
  | .name n => location ++ [n]

def tooLong : Component → Bool
  | .name n => Path.isLongName n
  | _ => false

/-- Walks along components. Every location that is left has to be a directory;
the one arrived at need not be there. -/
def walk (t : Tree) (location : Location) : List Component → Except SystemFault Location
  | [] => .ok location
  | c :: rest =>
      match t.node? location with
      | some .directory =>
          if tooLong c then .error .nameTooLong else t.walk (next location c) rest
      | some (.file _) => .error .notDirectory
      | none => .error .notFound

/-- Refuses a path that the system does not look at. -/
def screen (path : String) : Except SystemFault Unit :=
  if Path.hasNul path then .error .nulInName
  else if Path.isLong path then .error .nameTooLong
  else if path = "" then .error .notFound
  else .ok ()

def lookup (t : Tree) (path : String) : Except SystemFault Node := do
  screen path
  let location ← t.walk t.here (Path.components path)
  match t.node? location with
  | none => .error .notFound
  | some .directory => .ok .directory
  | some (.file bytes) =>
      if Path.requiresDirectory path then .error .notDirectory else .ok (.file bytes)

def directoryAt (t : Tree) (path : String) : Except SystemFault Location := do
  match ← t.lookup path with
  | .directory => t.walk t.here (Path.components path)
  | .file _ => .error .notDirectory

/-! ### Operations -/

def readText (t : Tree) (path : String) : Except ReadFault String :=
  match t.lookup path with
  | .error f => .error (.system f)
  | .ok .directory => .error (.system .isDirectory)
  | .ok (.file bytes) =>
      match String.fromUTF8? bytes with
      | some text => .ok text
      | none => .error .notText

def kind? (t : Tree) (path : String) : Option Kind :=
  match t.lookup path with
  | .ok (.file _) => some .file
  | .ok .directory => some .directory
  | .error _ => none

def names (t : Tree) (location : Location) : List String :=
  t.nodes.filterMap fun (l, _) => if l.dropLast = location then l.getLast? else none

def entries (t : Tree) (path : String) : List String :=
  match t.directoryAt path with
  | .ok location => t.names location
  | .error _ => []

def depth (t : Tree) : Nat :=
  (t.nodes.map (·.1.length)).foldl max 0 + 1

/-- Where a file would be put, or why the system puts none there. A path that
ends with a slash is refused with `slash`, and one that does not end with a
name with `dots`. -/
def target (t : Tree) (path : String) (slash dots : SystemFault) :
    Except SystemFault Location := do
  screen path
  match Path.lastSegment? path with
  | none => .error dots
  | some segment =>
      if segment = "." ∨ segment = ".." then
        discard (t.lookup path)
        .error dots
      else
        let directory ← t.directoryAt (Path.directory path)
        if Path.endsWithSlash path then .error slash
        else if Path.isLongName segment then .error .nameTooLong
        else
          let location := directory ++ [segment]
          match t.node? location with
          | some .directory => .error .isDirectory
          | _ => .ok location

/-- Replaces a file by way of one beside it. A name that is too long is noticed
before the slash behind it. -/
def replaceBytes (t : Tree) (path : String) (bytes : ByteArray) : Except ReplaceFault Tree :=
  match t.directoryAt (Path.directory path) with
  | .error f => .error (.create f)
  | .ok _ =>
      let slash :=
        if (Path.lastSegment? path).any Path.isLongName then SystemFault.nameTooLong
        else .notDirectory
      match t.target path slash .busy with
      | .error f => .error (.persist f)
      | .ok location => .ok (t.put location (.file bytes))

def replace (t : Tree) (path text : String) : Except ReplaceFault Tree :=
  t.replaceBytes path text.toUTF8

def overwrite (t : Tree) (path text : String) : Except SystemFault Tree := do
  let location ← t.target path .isDirectory .isDirectory
  return t.put location (.file text.toUTF8)

end Tree

/-- What an operation makes of the tree, and the tree as it was if it fails. -/
def updating {ε : Type} (f : Tree → Except ε Tree) : StateM Tree (Except ε Unit) :=
  fun t =>
    match f t with
    | .ok t' => (.ok (), t')
    | .error e => (.error e, t)

instance : Disk (StateM Tree) where
  readText path := fun t => (t.readText path, t)
  kind? path := fun t => (t.kind? path, t)
  entries path := fun t => (t.entries path, t)
  depth := fun t => (t.depth, t)
  replace path text := updating (·.replace path text)
  overwrite path text := updating (·.overwrite path text)

end BreakRules
