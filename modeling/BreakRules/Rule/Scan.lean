import BreakRules.Rule.Basic
import Std.Data.HashSet

/-!
# Scanning the rules for one pair

`RuleSet.scan R state token` goes once through the rules, from the first to the
last. A renaming changes the names that the rules after it see, the state and
the token each on its own. The first decision that accepts the pair gives the
verdict, and the last transition that accepts it gives the next state. Without
a transition the next state is the token itself, under the name it had before
any renaming.

The state and the token never meet, so the state can go first. `RuleSet.facing`
keeps what the rules ask of a token when they are scanned in a state, and
`Reading.ofToken` scans that for one token after the other.

A decision can accept a pair by a right side that is no token, because a
renaming led there. Decisions that accept by a name are collected wherever they
stand, also behind the one that decided; `Reading.undeclared` picks out those
that stray from the alphabet.
-/

namespace BreakRules

structure Reading where
  verdict : Option Verdict
  /-- The label of the state that the token leads to. -/
  next : String
  /-- The positions of the decisions that accepted the pair by a name on their
  right side. -/
  named : List Nat
deriving DecidableEq, Repr, Inhabited

def renamed (source target name : String) : String :=
  if name = source then target else name

/-! ### The state -/

/-- What a rule that accepts the state asks of the token. -/
inductive TokenClause where
  | rename (source target : String)
  | transition (token : Side) (next : String)
  /-- The decision stands at `position` among the rules. -/
  | decision (position : Nat) (verdict : Verdict) (rhs : Side)
deriving DecidableEq, Repr, Inhabited

/-- What rules that are counted from `i` ask of a token behind a state. -/
def tokenClauses (state : String) (i : Nat) : List Rule → List TokenClause
  | [] => []
  | rule :: rest =>
      match rule.clause with
      | .rename source target =>
          .rename source target :: tokenClauses (renamed source target state) (i + 1) rest
      | .transition lhs token next =>
          if lhs.accepts state then .transition token next :: tokenClauses state (i + 1) rest
          else tokenClauses state (i + 1) rest
      | .decision lhs verdict rhs =>
          if lhs.accepts state then .decision i verdict rhs :: tokenClauses state (i + 1) rest
          else tokenClauses state (i + 1) rest

/-- What the rules ask of a token behind a state. -/
def RuleSet.facing (R : RuleSet) (state : String) : List TokenClause :=
  tokenClauses state 0 R.rules

/-! ### The token -/

/-- A scan in progress: the name of the token that the next clause sees, and the
reading so far. -/
structure Scan where
  token : String
  reading : Reading
deriving DecidableEq, Repr, Inhabited

namespace Scan

def begin (token : String) : Scan :=
  ⟨token, none, token, []⟩

def step (s : Scan) : TokenClause → Scan
  | .rename source target => { s with token := renamed source target s.token }
  | .transition token next =>
      if token.accepts s.token then { s with reading := { s.reading with next := next } } else s
  | .decision position verdict rhs =>
      if rhs.accepts s.token then
        { s with
          reading :=
            { s.reading with
              verdict := s.reading.verdict.or (some verdict)
              named :=
                if rhs.name?.isSome then s.reading.named ++ [position] else s.reading.named } }
      else s

end Scan

def Reading.ofToken (clauses : List TokenClause) (token : String) : Reading :=
  (clauses.foldl Scan.step (Scan.begin token)).reading

/-- What the rules say about a state and a token, neither of which has to be
declared. -/
def RuleSet.scan (R : RuleSet) (state token : String) : Reading :=
  .ofToken (R.facing state) token

/-! ### Right sides that are no tokens -/

/-- Whether a rule is a decision whose right side is a name but no token. -/
def RuleSet.isStray (R : RuleSet) (rule : Rule) : Bool :=
  match rule.clause with
  | .decision _ _ rhs => rhs.name?.any (!R.declares ·)
  | _ => false

/-- The positions of the decisions whose right side is a name but no token. -/
def RuleSet.strays (R : RuleSet) : Std.HashSet Nat :=
  .ofList ((R.rules.zipIdx.filter (R.isStray ·.1)).map (·.2))

/-- The positions of the decisions that accepted a pair by a right side that is
no token. -/
def Reading.undeclared (r : Reading) (strays : Std.HashSet Nat) : List Nat :=
  r.named.filter (strays.contains ·)

end BreakRules
