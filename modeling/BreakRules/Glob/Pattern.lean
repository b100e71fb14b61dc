import BreakRules.Path

/-!
# Glob patterns

A pattern is a path in which some segments stand for many names. In a segment,
`?` stands for one character, `*` for any characters and a bracket for one
character of a set. The segment `**` stands for any number of directories and
may not be part of a longer segment. There is no way to escape a character
other than a bracket around it.
-/

namespace BreakRules.Glob

inductive CharSpec where
  | single (c : Char)
  | range (first last : Char)
deriving DecidableEq, Repr, Inhabited

inductive Token where
  | char (c : Char)
  | anyChar
  | anyChars
  | oneOf (set : List CharSpec)
  | noneOf (set : List CharSpec)
deriving DecidableEq, Repr, Inhabited

inductive Segment where
  /-- `**` -/
  | anyDepth
  /-- A segment in which every character stands for itself. -/
  | literal (name : String)
  /-- A segment with a part that stands for more than one text. -/
  | shape (tokens : List Token)
deriving DecidableEq, Repr, Inhabited

structure Pattern where
  /-- The directory that the segments lead from. -/
  root : String
  segments : List Segment
  /-- Whether the pattern ends with a slash, so that it means directories only. -/
  directoriesOnly : Bool
deriving DecidableEq, Repr, Inhabited

/-! ### Reading -/

/-- The set that the characters inside a bracket describe. -/
def charSpecs : List Char → List CharSpec
  | first :: '-' :: last :: rest => .range first last :: charSpecs rest
  | c :: rest => .single c :: charSpecs rest
  | [] => []

/-- Where the reading of a segment stands: outside of a bracket, or inside of
one with the characters read so far. -/
inductive Mode where
  | outside
  | inside (negated : Bool) (read : List Char)

def bracket (negated : Bool) (inner : List Char) : Token :=
  if negated then .noneOf (charSpecs inner) else .oneOf (charSpecs inner)

/-- The tokens of a segment. The first character inside a bracket is a member
of the set even if it is `]`. A bracket has to be closed, and two stars cannot
follow one another. -/
def readTokens : Mode → List Char → Option (List Token)
  | .outside, [] => some []
  | .inside .., [] => none
  | .inside negated read, ']' :: rest =>
      (bracket negated read.reverse :: ·) <$> readTokens .outside rest
  | .inside negated read, c :: rest => readTokens (.inside negated (c :: read)) rest
  | .outside, '[' :: '!' :: c :: rest => readTokens (.inside true [c]) rest
  | .outside, '[' :: '!' :: [] => none
  | .outside, '[' :: c :: rest => readTokens (.inside false [c]) rest
  | .outside, '[' :: [] => none
  | .outside, '*' :: '*' :: _ => none
  | .outside, '*' :: rest => (.anyChars :: ·) <$> readTokens .outside rest
  | .outside, '?' :: rest => (.anyChar :: ·) <$> readTokens .outside rest
  | .outside, c :: rest => (.char c :: ·) <$> readTokens .outside rest

def Token.char? : Token → Option Char
  | .char c => some c
  | _ => none

def readSegment (segment : String) : Option Segment :=
  if segment = "**" then some .anyDepth
  else
    (readTokens .outside segment.toList).map fun tokens =>
      match tokens.mapM Token.char? with
      | some chars => .literal (.ofList chars)
      | none => .shape tokens

/-- The segments with only one of several `**` in a row. -/
def collapse : List Segment → List Segment
  | .anyDepth :: .anyDepth :: rest => collapse (.anyDepth :: rest)
  | s :: rest => s :: collapse rest
  | [] => []

/-- The segments of a text without the empty one behind a slash at its end. The
empty text has one empty segment. -/
def segmentTexts (text : String) : List String :=
  let all := Path.segments text
  if all.length > 1 ∧ all.getLast? = some "" then all.dropLast else all

def Pattern.read? (text : String) : Option Pattern := do
  let absolute := Path.isAbsolute text
  let rest := if absolute then String.ofList (text.toList.dropWhile (· == '/')) else text
  let segments ← (segmentTexts rest).mapM readSegment
  return ⟨if absolute then "/" else ".", collapse segments, Path.endsWithSlash text⟩

/-! ### Matching -/

def CharSpec.holds (c : Char) : CharSpec → Bool
  | .single d => c == d
  | .range first last => first ≤ c && c ≤ last

def Token.holds (c : Char) : Token → Bool
  | .char d => c == d
  | .anyChar => true
  | .anyChars => true
  | .oneOf set => set.any (·.holds c)
  | .noneOf set => !set.any (·.holds c)

/-- At every place, whether something true stands there or behind it. -/
def anyFrom : List Bool → List Bool
  | [] => []
  | b :: rest =>
      let behind := anyFrom rest
      (b || behind.headD false) :: behind

/-- For every tail of a name, from the name itself to the empty text, whether
tokens match it. All tails are answered together, so that several `*` take no
more time than one after the other. -/
def matchTails (name : List Char) : List Token → List Bool
  | [] => name.map (fun _ => false) ++ [true]
  | .anyChars :: rest => anyFrom (matchTails name rest)
  | token :: rest =>
      name.zipWith (fun c matched => token.holds c && matched) (matchTails name rest).tail ++
        [false]

def matchTokens (tokens : List Token) (name : List Char) : Bool :=
  (matchTails name tokens).headD false

def Segment.matchesName : Segment → String → Bool
  | .anyDepth, _ => true
  | .literal name, n => name == n
  | .shape tokens, n => matchTokens tokens n.toList

/-- Whether a segment begins with a dot. Only such a segment can stand for the
directory itself or the one above it. -/
def leadsWithDot : List Token → Bool
  | .char '.' :: _ => true
  | _ => false

end BreakRules.Glob
