/-!
# Disks

`Disk m` says what a program in the monad `m` can do with files: read a text,
look at what a path leads to, list a directory, and write a file in one of two
ways. Programs are written for any disk. Run on the file system they do their
work, and run on a `Tree`, which is a value, they can be reasoned about.
-/

namespace BreakRules

/-- Why the system refuses to do something with a path. -/
inductive SystemFault where
  | notFound
  | notDirectory
  | isDirectory
  | busy
  | nameTooLong
  /-- A path holds the character that ends every name. -/
  | nulInName
  /-- Any other reason, in the words of the system. -/
  | other (text : String)
deriving DecidableEq, Repr, Inhabited

def SystemFault.message : SystemFault → String
  | notFound => "No such file or directory (os error 2)"
  | notDirectory => "Not a directory (os error 20)"
  | isDirectory => "Is a directory (os error 21)"
  | busy => "Device or resource busy (os error 16)"
  | nameTooLong => "File name too long (os error 36)"
  | nulInName => "file name contained an unexpected NUL byte"
  | other text => text

inductive ReadFault where
  | system (f : SystemFault)
  /-- Its bytes are no text. -/
  | notText
deriving DecidableEq, Repr, Inhabited

def ReadFault.message : ReadFault → String
  | system f => f.message
  | notText => "stream did not contain valid UTF-8"

/-- Why a file cannot be replaced. The new content is written to a file beside
it first, which then takes its place. -/
inductive ReplaceFault where
  /-- The file beside it cannot be made. -/
  | create (f : SystemFault)
  /-- The file beside it cannot take its place. -/
  | persist (f : SystemFault)
deriving DecidableEq, Repr, Inhabited

def ReplaceFault.chain : ReplaceFault → List String
  | create f => [f.message]
  | persist f => ["failed to persist temporary file: " ++ f.message, f.message]

inductive Kind where
  | file
  | directory
deriving DecidableEq, Repr, Inhabited

class Disk (m : Type → Type) where
  readText : String → m (Except ReadFault String)
  kind? : String → m (Option Kind)
  entries : String → m (List String)
  /-- More than the number of names on the longest path below a directory. -/
  depth : m Nat
  /-- Gives a file a new content. The file has its old content or the whole new
  one, whatever happens. -/
  replace : String → String → m (Except ReplaceFault Unit)
  /-- Writes a file in place. -/
  overwrite : String → String → m (Except SystemFault Unit)

end BreakRules
