import BreakRules.Rule.Basic
import BreakRules.Text.Basic

/-!
# One line of a rule text

A line is what is left of it in front of the first `--`, cut into words. It is
empty, a label that opens a group, the start state, a token, or a rule.
`Line.ofWords` reads the words and gives the first thing that is wrong with
them as a `LineFault`.

The shapes are tried in a fixed order: a label is known by the colon that ends
its last word, a start line by a leading arrow, a token by being a single word
that is no verdict, a renaming or transition by an arrow, and every other line
is a decision.
-/

namespace BreakRules

inductive LineFault where
  /-- An arrow with the wrong number of words around it. -/
  | malformedArrow
  /-- The word in the place of a verdict is no verdict. -/
  | invalidAction (word : String)
  /-- A decision with words after its right side. -/
  | tooManyWords
  /-- A symbol of the language in the place of a name. -/
  | reservedSymbol (word : String)
  | misplacedWildcard
  /-- A label with nothing but colons. -/
  | emptyLabel
deriving DecidableEq, Repr, Inhabited

def LineFault.message : LineFault → String
  | malformedArrow =>
      "malformed arrow rule, expected `A -> B`, `A token -> C` or `-> start`"
  | invalidAction word => "invalid break action `" ++ word ++ "`, expected `-` or `x`"
  | tooManyWords => "too many words for a break rule"
  | reservedSymbol word => "reserved symbol `" ++ word ++ "` cannot be used as a name"
  | misplacedWildcard => "wildcard `.` is not allowed here"
  | emptyLabel => "empty rule-group label"

inductive Line where
  | empty
  | label (group : String)
  | start (name : String)
  | token (name : String)
  | rule (clause : Clause)
deriving DecidableEq, Repr, Inhabited

namespace Line

/-- The words that no token and no state may be named. -/
def reserved : List String := ["-", "x", arrow, ":"]

def readName (word : String) : Except LineFault String :=
  if word ∈ reserved then .error (.reservedSymbol word)
  else if word = wildcard then .error .misplacedWildcard
  else .ok word

def readSide (word : String) : Except LineFault Side :=
  if word = wildcard then .ok .any else Side.name <$> readName word

def endsWithColon (word : String) : Bool :=
  word.toList.getLast? == some ':'

/-- The name of a label line: its words with single blanks between them,
without the colons at the end and the blank that these leave behind. -/
def labelName (words : List String) : String :=
  let joined := (" ".intercalate words).toList
  .ofList (Text.trim (Text.dropEndWhile (· == ':') joined))

def readLabel (words : List String) : Except LineFault Line :=
  let name := labelName words
  if name = "" then .error .emptyLabel else .ok (.label name)

/-- The clause of a line that has an arrow after its first word. -/
def readArrow : List String → Except LineFault Clause
  | [source, middle, target] =>
      if middle = arrow then do
        return .rename (← readName source) (← readName target)
      else .error .malformedArrow
  | [lhs, rhs, middle, next] =>
      if middle = arrow then do
        return .transition (← readSide lhs) (← readSide rhs) (← readName next)
      else .error .malformedArrow
  | _ => .error .malformedArrow

/-- The right side of a decision: at most one word, and every token if there is
none. -/
def readRight : List String → Except LineFault Side
  | [] => .ok .any
  | [word] => readSide word
  | _ => .error .tooManyWords

def readVerdict (lhs : Side) : List String → Except LineFault Clause
  | [] => .error (.invalidAction "")
  | word :: rest =>
      match Verdict.ofSymbol? word with
      | some verdict => .decision lhs verdict <$> readRight rest
      | none => .error (.invalidAction word)

/-- A decision. Its left side is every state if the line begins with a verdict. -/
def readDecision : List String → Except LineFault Clause
  | [] => readVerdict .any []
  | first :: rest =>
      match Verdict.ofSymbol? first with
      | some _ => readVerdict .any (first :: rest)
      | none => do readVerdict (← readSide first) rest

def ofWords (words : List String) : Except LineFault Line :=
  match words with
  | [] => .ok .empty
  | first :: rest =>
      if words.getLast?.any endsWithColon then readLabel words
      else if first = arrow then
        match rest with
        | [name] => .start <$> readName name
        | _ => .error .malformedArrow
      else if rest.isEmpty && (Verdict.ofSymbol? first).isNone then .token <$> readName first
      else if words.contains arrow then .rule <$> readArrow words
      else .rule <$> readDecision words

/-- A line up to the comment that the first `--` opens. -/
def content : List Char → List Char
  | [] => []
  | '-' :: '-' :: _ => []
  | c :: rest => c :: content rest

def wordsOf (line : List Char) : List String :=
  (Text.words (content line)).map .ofList

def read (line : List Char) : Except LineFault Line :=
  ofWords (wordsOf line)

end Line

end BreakRules
