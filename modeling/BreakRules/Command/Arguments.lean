/-!
# Arguments of a command

A command has options and positional arguments. Options begin with a dash: a
long name behind two of them, or short names behind one, of which several may
share a word. An option that takes a value finds it behind an equals sign, in
the rest of its word, or in the next word. Options and positional arguments
may be mixed; behind `--` every word is positional, and `-` always is.

Words are read from left to right. A value is not looked at when it is read
but when it is settled, that is when the next option or positional argument
begins or the words end. So of two faults the one that is met first wins, but
an option that is not known is met before the value in front of it is settled.
-/

namespace BreakRules

/-- Why arguments are not carried out. Asking for help or for the version is
among the reasons. -/
inductive UsageError where
  | helpOnMissing
  | help
  | version
  | missingRequired
  | unknownArgument
  | invalidValue
  | conflict
  | tooManyValues
  | invalidSubcommand
deriving DecidableEq, Repr, Inhabited

inductive Effect where
  /-- It takes a value that satisfies `valid`, once. -/
  | value (valid : String → Bool)
  | flag
  | count
  | help

/-- An option with its long name and, if it has one, its short name. -/
structure OptionSpec where
  long : String
  short : Option Char
  effect : Effect

/-- A positional argument. Only the last one of a command may take many words. -/
structure PositionalSpec where
  name : String
  valid : String → Bool
  required : Bool
  many : Bool

structure CommandSpec where
  options : List OptionSpec
  positionals : List PositionalSpec

/-- What the words of a command gave: the values under every name. A flag has
one empty value for every time it was given. -/
abbrev Given := List (String × List String)

namespace Given

def values (g : Given) (name : String) : List String :=
  (g.lookup name).getD []

def add (name : String) (values : List String) : Given → Given
  | [] => [(name, values)]
  | (n, vs) :: rest =>
      if n = name then (n, vs ++ values) :: rest else (n, vs) :: add name values rest

end Given

structure Pending where
  name : String
  values : List String
  valid : String → Bool
  /-- Whether the name may be given again. -/
  repeatable : Bool

structure ArgState where
  given : Given := []
  pending : Option Pending := none
  /-- Whether the next word is the value of the option that is pending. -/
  awaiting : Bool := false
  /-- The positional arguments that have not been filled. -/
  positionals : List PositionalSpec
  /-- Whether `--` has been read. -/
  trailing : Bool := false

namespace ArgState

/-- Settles values: there has to be one, the name may not have been given
before, and every value has to be valid. -/
def accept (s : ArgState) (p : Pending) : Except UsageError ArgState :=
  if p.values.isEmpty then .error .invalidValue
  else if !p.repeatable && (s.given.lookup p.name).isSome then .error .conflict
  else if p.values.all p.valid then
    .ok { s with given := s.given.add p.name p.values }
  else .error .invalidValue

def settle (s : ArgState) : Except UsageError ArgState :=
  match s.pending with
  | none => .ok { s with awaiting := false }
  | some p => { s with pending := none, awaiting := false }.accept p

/-- An option that takes no value. -/
def raise (s : ArgState) (o : OptionSpec) : Except UsageError ArgState := do
  let s ← s.settle
  match o.effect with
  | .help => .error .help
  | .count => return { s with given := s.given.add o.long [""] }
  | _ =>
      if (s.given.lookup o.long).isSome then .error .conflict
      else return { s with given := s.given.add o.long [""] }

/-- An option that takes a value, which may be attached to it. -/
def take (s : ArgState) (o : OptionSpec) (valid : String → Bool) (attached : Option String) :
    Except UsageError ArgState := do
  let s ← s.settle
  match attached with
  | some value => s.accept ⟨o.long, [value], valid, false⟩
  | none => return { s with pending := some ⟨o.long, [], valid, false⟩, awaiting := true }

def readLong (spec : CommandSpec) (s : ArgState) (name : String) (attached : Option String) :
    Except UsageError ArgState :=
  match spec.options.find? (·.long == name) with
  | none => .error .unknownArgument
  | some o =>
      match o.effect with
      | .value valid => s.take o valid attached
      | _ => if attached.isSome then .error .tooManyValues else s.raise o

/-- The short names in a word. The first one that takes a value takes the rest
of the word, without an equals sign in front. -/
def readShort (spec : CommandSpec) (s : ArgState) : List Char → Except UsageError ArgState
  | [] => .ok s
  | c :: rest =>
      match spec.options.find? (·.short == some c) with
      | none => .error .unknownArgument
      | some o =>
          match o.effect with
          | .value valid =>
              match rest with
              | [] => s.take o valid none
              | '=' :: value => s.take o valid (some (.ofList value))
              | value => s.take o valid (some (.ofList value))
          | _ => do (← s.raise o).readShort spec rest

def readPositional (s : ArgState) (word : String) : Except UsageError ArgState :=
  match s.positionals with
  | [] => .error .unknownArgument
  | p :: rest =>
      match s.pending with
      | some pending =>
          if p.many && pending.name == p.name then
            .ok { s with pending := some { pending with values := pending.values ++ [word] } }
          else do fill (← s.settle) p rest
      | none => do fill (← s.settle) p rest
where
  fill (s : ArgState) (p : PositionalSpec) (rest : List PositionalSpec) :
      Except UsageError ArgState :=
    .ok
      { s with
        pending := some ⟨p.name, [word], p.valid, p.many⟩
        positionals := if p.many then p :: rest else rest }

/-- The long name in a word and the value behind an equals sign. -/
def splitLong (chars : List Char) : String × Option String :=
  let name := String.ofList (chars.takeWhile (· ≠ '='))
  match chars.dropWhile (· ≠ '=') with
  | [] => (name, none)
  | _ :: value => (name, some (.ofList value))

def readWord (spec : CommandSpec) (s : ArgState) (word : String) : Except UsageError ArgState :=
  if s.trailing then s.readPositional word
  else
    match word.toList with
    | ['-', '-'] => .ok { s with trailing := true }
    | '-' :: '-' :: chars =>
        let (name, attached) := splitLong chars
        s.readLong spec name attached
    | '-' :: c :: chars => s.readShort spec (c :: chars)
    | _ =>
        match s.awaiting, s.pending with
        | true, some p =>
            .ok
              { s with
                pending := some { p with values := p.values ++ [word] }
                awaiting := false }
        | _, _ => s.readPositional word

end ArgState

namespace CommandSpec

/-- What the words of a command give. Every required positional argument has to
be among it. -/
def read (spec : CommandSpec) (words : List String) : Except UsageError Given := do
  let begin : ArgState := { positionals := spec.positionals }
  let s ← words.foldlM (fun s word => s.readWord spec word) begin
  let s ← s.settle
  let missing := spec.positionals.any fun p => p.required && (s.given.lookup p.name).isNone
  if missing then .error .missingRequired else return s.given

end CommandSpec

end BreakRules
