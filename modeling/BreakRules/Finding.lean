import BreakRules.Firsts
import BreakRules.Table.Explore

/-!
# Findings and policies

A finding is something suspicious about a rule text that does not stop its
compilation by itself. A policy says what becomes of it: it is dropped, kept as
a warning, or it ends the compilation.
-/

namespace BreakRules

inductive Finding where
  | missingStart
  /-- The decision on `line` accepted `state` and `token`, but its right side
  `rhs` is no token. -/
  | undeclaredRight (line : Nat) (group : Option String) (rhs state token : String)
deriving DecidableEq, Repr, Inhabited

def Finding.message : Finding → String
  | missingStart => "no start state declared, building from the empty state"
  | undeclaredRight line group rhs state token =>
      placeText line group ++ ": break rule matched `" ++ state ++ "` on `" ++ token ++
        "` but its right-hand side `" ++ rhs ++ "` is not a declared token"

/-- Every case in which a built row met a decision whose right side is no
token: the position of the rule, the state and the token, in build order and
then in the order of the alphabet. -/
def RuleSet.undeclaredHits (R : RuleSet) (v : Visit) : List (Nat × String × String) :=
  let strays := R.strays
  if strays.isEmpty then []
  else
    v.rows.flatMap fun r =>
      let clauses := R.facing r.label
      R.tokens.flatMap fun token =>
        ((Reading.ofToken clauses token).undeclared strays).map fun i => (i, r.label, token)

/-- One finding for every rule that was met so, at its first hit, in the order
of the rules. -/
def RuleSet.findings (R : RuleSet) (v : Visit) : List Finding :=
  let hits := firsts (R.undeclaredHits v)
  R.rules.zipIdx.filterMap fun (rule, i) =>
    match rule.clause with
    | .decision _ _ rhs =>
        hits[i]?.map fun (state, token) =>
          .undeclaredRight rule.line rule.group rhs.text state token
    | _ => none

inductive Policy where
  | ignore
  | warn
  | deny
deriving DecidableEq, Repr, Inhabited

namespace Policy

def word : Policy → String
  | ignore => "ignore"
  | warn => "warn"
  | deny => "deny"

def ofWord? (w : String) : Option Policy :=
  if w = "ignore" then some ignore
  else if w = "warn" then some warn
  else if w = "deny" then some deny
  else none

/-- A warning becomes fatal; the other policies stay. -/
def denied : Policy → Policy
  | warn => deny
  | p => p

end Policy

structure Options where
  undeclaredRight : Policy := .warn
  missingStart : Policy := .warn
deriving DecidableEq, Repr, Inhabited

namespace Options

def strict : Options := ⟨.deny, .deny⟩

/-- What was a warning is fatal; what was ignored still is. -/
def denyWarnings (o : Options) : Options :=
  ⟨o.undeclaredRight.denied, o.missingStart.denied⟩

def policy (o : Options) : Finding → Policy
  | .missingStart => o.missingStart
  | .undeclaredRight .. => o.undeclaredRight

/-- The findings kept as warnings, or the first one that is fatal. -/
def judge (o : Options) : List Finding → Except Finding (List Finding)
  | [] => .ok []
  | f :: rest =>
      match o.policy f with
      | .ignore => o.judge rest
      | .warn => (f :: ·) <$> o.judge rest
      | .deny => .error f

end Options

end BreakRules
