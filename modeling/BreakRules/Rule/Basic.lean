/-!
# Break rules

A rule set has an ordered alphabet of tokens, an optional start state and an
ordered list of rules. A rule has one of three clauses: a renaming that holds
for the rules after it, a transition to a next state, or a decision whether a
boundary may stand before a token. The order of the rules is their precedence.
It is read by the scan, so nothing here depends on it.

Every part has a text in the rule language: `Verdict.symbol`, `Side.text` and
`Clause.text` are written as they are read.
-/

namespace BreakRules

/-- Whether a boundary may stand before a token. -/
inductive Verdict where
  /-- A boundary is allowed. -/
  | split
  /-- A boundary is prohibited. -/
  | join
deriving DecidableEq, Hashable, Repr, Inhabited

namespace Verdict

def symbol : Verdict → String
  | split => "-"
  | join => "x"

def ofSymbol? (word : String) : Option Verdict :=
  if word = "-" then some split else if word = "x" then some join else none

@[simp] theorem ofSymbol?_symbol (v : Verdict) : ofSymbol? v.symbol = some v := by
  cases v <;> rfl

theorem ofSymbol?_eq_some_iff {word : String} {v : Verdict} :
    ofSymbol? word = some v ↔ word = v.symbol := by
  constructor
  · intro h
    unfold ofSymbol? at h
    split at h
    · cases h; assumption
    · split at h
      · cases h; assumption
      · cases h
  · rintro rfl
    exact ofSymbol?_symbol v

end Verdict

def arrow : String := "->"

/-- The word that stands for every name on a side of a rule. -/
def wildcard : String := "."

inductive Side where
  | any
  | name (n : String)
deriving DecidableEq, Repr, Inhabited

namespace Side

def accepts : Side → String → Bool
  | any, _ => true
  | name n, m => n == m

/-- The name of a side that is not the wildcard. -/
def name? : Side → Option String
  | any => none
  | name n => some n

def text : Side → String
  | any => wildcard
  | name n => n

end Side

inductive Clause where
  /-- From here on `source` is read as `target`. -/
  | rename (source target : String)
  /-- In a state of `lhs`, a token of `token` leads to `next`. -/
  | transition (lhs token : Side) (next : String)
  /-- Between a state of `lhs` and a token of `rhs` the verdict is `verdict`. -/
  | decision (lhs : Side) (verdict : Verdict) (rhs : Side)
deriving DecidableEq, Repr, Inhabited

/-- A clause as the rule language writes it, with both sides written out. -/
def Clause.text : Clause → String
  | rename source target => source ++ " " ++ arrow ++ " " ++ target
  | transition lhs token next => lhs.text ++ " " ++ token.text ++ " " ++ arrow ++ " " ++ next
  | decision lhs verdict rhs => lhs.text ++ " " ++ verdict.symbol ++ " " ++ rhs.text

/-- A clause with the group it was declared in and its line, counted from 1. -/
structure Rule where
  clause : Clause
  group : Option String
  line : Nat
deriving DecidableEq, Repr, Inhabited

/-- Where something was declared: its line, and its group if it has one. -/
def placeText (line : Nat) (group : Option String) : String :=
  "line " ++ toString line ++
    match group with
    | some g => " (" ++ g ++ ")"
    | none => ""

def Rule.text (rule : Rule) : String :=
  placeText rule.line rule.group ++ ": " ++ rule.clause.text

structure RuleSet where
  tokens : List String
  rules : List Rule
  start : Option String
deriving DecidableEq, Repr, Inhabited

namespace RuleSet

def declares (R : RuleSet) (name : String) : Bool :=
  R.tokens.contains name

/-- The label that a machine starts in: the declared start, or the empty label. -/
def startLabel (R : RuleSet) : String :=
  R.start.getD ""

end RuleSet

end BreakRules
