import BreakRules.Distinct
import BreakRules.Rule.Line
import BreakRules.Text.Basic

/-!
# Reading a rule text

A rule text is read line by line into a `Draft`. A label sets the group of the
rules after it, a start line replaces the start before it, and a token may be
declared again: `Draft.ruleSet` keeps its first place.

Reading stops at the first line that is not well formed. `Draft.addLines`
gives the draft up to there beside the error, so that what was noticed on the
way is not lost; `RuleSet.parse` keeps only one of the two.
-/

namespace BreakRules

/-- A line that is not well formed: its number, its text without the blanks at
the end, and what is wrong with it. -/
structure ParseError where
  line : Nat
  text : String
  fault : LineFault
deriving DecidableEq, Repr, Inhabited

def ParseError.message (e : ParseError) : String :=
  "line " ++ toString e.line ++ ": " ++ e.fault.message ++ ": `" ++ e.text ++ "`"

structure Draft where
  group : Option String := none
  /-- Every declaration of a token, also if it was declared before. -/
  tokens : Array String := #[]
  rules : Array Rule := #[]
  start : Option String := none
  /-- The start states that a later line replaced, with the number of that line. -/
  replaced : Array (String × Nat) := #[]
deriving DecidableEq, Repr, Inhabited

namespace Draft

/-- The draft with one more line, which has the number `n`. -/
def add (d : Draft) (n : Nat) : Line → Draft
  | .empty => d
  | .label group => { d with group := some group }
  | .start name =>
      { d with
        start := some name
        replaced := d.replaced ++ d.start.toArray.map (·, n) }
  | .token name => { d with tokens := d.tokens.push name }
  | .rule clause => { d with rules := d.rules.push ⟨clause, d.group, n⟩ }

/-- Adds lines that are numbered from `n`, up to the first that is not well
formed. -/
def addLines (d : Draft) (n : Nat) : List (List Char) → Draft × Option ParseError
  | [] => (d, none)
  | text :: rest =>
      match Line.read text with
      | .ok line => (d.add n line).addLines (n + 1) rest
      | .error fault => (d, some ⟨n, .ofList (Text.trimEnd text), fault⟩)

def ofText (source : String) : Draft × Option ParseError :=
  ({} : Draft).addLines 1 (Text.lines source.toList)

/-- The rule set of a draft, in which every token has its first place. -/
def ruleSet (d : Draft) : RuleSet :=
  ⟨distinct d.tokens.toList, d.rules.toList, d.start⟩

end Draft

/-- The rule set that a text declares, or its first line that is not well
formed. -/
def RuleSet.parse (source : String) : Except ParseError RuleSet :=
  match Draft.ofText source with
  | (draft, none) => .ok draft.ruleSet
  | (_, some e) => .error e

end BreakRules
