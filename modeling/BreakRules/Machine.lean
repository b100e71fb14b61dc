import BreakRules.Table.Raw

/-!
# Machines

A machine is a table of states over an alphabet of tokens. A state stands for
one or more labels. Nothing is required of a machine: an index need not be the
position of its state, a row may be shorter or longer than the alphabet, and the
start may be no state. The operations give `none` where a name or a cell is
missing.
-/

namespace BreakRules

structure State where
  index : Nat
  labels : List String
  row : List (Cell Nat)
deriving DecidableEq, Repr, Inhabited

def State.name (s : State) : String :=
  "_".intercalate s.labels

/-- Tokens, a start and states. Cells lead to positions of states. -/
structure Machine where
  tokens : List String
  start : Nat
  states : List State
deriving DecidableEq, Repr, Inhabited

namespace Machine

def tokenIndex? (M : Machine) (token : String) : Option Nat :=
  M.tokens.findIdx? (· == token)

/-- The index of the first state that stands for a label. -/
def stateOf? (M : Machine) (label : String) : Option Nat :=
  (M.states.find? (·.labels.contains label)).map (·.index)

/-- The cell in a row and a column, both by position. -/
def cell? (M : Machine) (state column : Nat) : Option (Cell Nat) := do
  let s ← M.states[state]?
  s.row[column]?

def action? (M : Machine) (label token : String) : Option (Cell Nat) := do
  let state ← M.stateOf? label
  let column ← M.tokenIndex? token
  M.cell? state column

/-- The verdicts before the tokens of a text that is read from `state` on. -/
def runFrom? (M : Machine) (state : Nat) : List String → Option (List Verdict)
  | [] => some []
  | token :: rest => do
      let column ← M.tokenIndex? token
      let cell ← M.cell? state column
      let verdicts ← M.runFrom? cell.next rest
      return cell.verdict :: verdicts

def run? (M : Machine) (tokens : List String) : Option (List Verdict) :=
  M.runFrom? M.start tokens

end Machine

end BreakRules
