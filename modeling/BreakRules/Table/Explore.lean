import BreakRules.Distinct
import BreakRules.Memo
import BreakRules.Rule.Scan
import BreakRules.Table.Raw

/-!
# Exploring the states of a rule set

From a start label, `RuleSet.visit` builds the row of every label that can be
reached through the cells of rows. The labels to be looked at wait on a stack;
the successors of a row are put on it so that the one under the last token
comes first. A label whose row has been built is passed over.

Every label that can turn up is the start, a token or the target of a
transition. `RuleSet.labels` lists them, and the exploration takes each label
it builds out of the set of these. So it ends whatever cycles the rules have,
and no bound on the number of steps is needed.

If a cell has no verdict the exploration is stuck there. What was built before
stays in the `Visit`.
-/

namespace BreakRules

/-- A label with its row, in which the cells lead to labels. -/
structure Visited where
  label : String
  row : List (Cell String)
deriving DecidableEq, Repr, Inhabited

/-- A state and a token for which no decision gives a verdict. -/
structure Undecided where
  state : String
  token : String
deriving DecidableEq, Repr, Inhabited

/-- The rows built by an exploration, in build order, and what it got stuck at. -/
structure Visit where
  rows : List Visited
  stuck : Option Undecided
deriving DecidableEq, Repr, Inhabited

namespace RuleSet

def target? (rule : Rule) : Option String :=
  match rule.clause with
  | .transition _ _ next => some next
  | _ => none

/-- Every label that an exploration from `start` can meet, each once. -/
def labels (R : RuleSet) (start : String) : List String :=
  distinct (start :: (R.tokens ++ R.rules.filterMap target?))

/-- The cell that clauses give a token, or the token if it is undecided. -/
def cell (clauses : List TokenClause) (token : String) : Except String (Cell String) :=
  let reading := Reading.ofToken clauses token
  match reading.verdict with
  | some verdict => .ok ⟨verdict, reading.next⟩
  | none => .error token

/-- The row of a state, or the first token that is undecided in it. -/
def row (R : RuleSet) (state : String) : Except String (List (Cell String)) :=
  let clauses := R.facing state
  R.tokens.mapM (cell clauses)

/-- Builds the rows of the labels on `stack` and of what they lead to.
`remaining` are the labels without a row. -/
def visit (R : RuleSet) (remaining : Std.HashSet String) (stack : List String) : Visit :=
  match stack with
  | [] => ⟨[], none⟩
  | label :: rest =>
      if _h : label ∈ remaining then
        match R.row label with
        | .error token => ⟨[], some ⟨label, token⟩⟩
        | .ok cells =>
            let v := R.visit (remaining.erase label) ((cells.map (·.next)).reverse ++ rest)
            ⟨⟨label, cells⟩ :: v.rows, v.stuck⟩
      else R.visit remaining rest
termination_by (remaining.size, stack.length)
decreasing_by
  · apply Prod.Lex.left
    have hpos : 0 < remaining.size := by
      by_cases he : remaining.isEmpty
      · exact absurd _h (Std.HashSet.not_mem_of_isEmpty he)
      · simpa [Std.HashSet.isEmpty_eq_size_eq_zero, Nat.pos_iff_ne_zero] using he
    rw [Std.HashSet.size_erase, if_pos _h]
    omega
  · apply Prod.Lex.right
    simp

def explore (R : RuleSet) (start : String) : Visit :=
  R.visit (.ofList (R.labels start)) [start]

end RuleSet

namespace Visit

/-- The labels in the order in which they are first mentioned: the start, then
the successors in the rows, taken in build order. -/
def arena (v : Visit) (start : String) : List String :=
  distinct (start :: v.rows.flatMap (·.row.map (·.next)))

def rowOf (v : Visit) (label : String) : List (Cell String) :=
  ((v.rows.find? (·.label == label)).map (·.row)).getD []

/-- The rows of an exploration as a raw table. A label's handle is its place in
the arena. -/
def table (v : Visit) (start : String) : RawTable :=
  let arena := v.arena start
  let handles := Memo.of arena.idxOf arena
  { states := arena.map fun label => ⟨label, (v.rowOf label).map (·.map handles.get)⟩
    order := v.rows.map fun r => arena.idxOf r.label
    start := arena.idxOf start }

end Visit

/-- The raw table of the states reachable from `start`, or a cell among them
that has no verdict. -/
def RuleSet.build (R : RuleSet) (start : String) : Except Undecided RawTable :=
  let v := R.explore start
  match v.stuck with
  | some undecided => .error undecided
  | none => .ok (v.table start)

end BreakRules
