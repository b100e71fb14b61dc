import BreakRules.Finding
import BreakRules.Journal
import BreakRules.Rule.Parse
import BreakRules.Table.Merge
import BreakRules.Text.Basic

/-!
# Compiling a rule text

`compile` reads a rule text, explores its states and merges them into a
machine. Findings are judged by the options on the way. A missing start is
judged before anything is explored, so that denying it wins over whatever the
exploration would report; the other findings are judged after it.

`journal` lists what is noted on the way, up to the point where a compilation
fails. Both are the two halves of `compileNoted`.
-/

namespace BreakRules

inductive CompileError where
  | parse (e : ParseError)
  /-- There is no token, so there is no table to build. -/
  | noTokens
  | undecided (u : Undecided)
  | denied (f : Finding)
deriving DecidableEq, Repr, Inhabited

namespace CompileError

def message : CompileError → String
  | parse e => "parse error at " ++ e.message
  | noTokens => "rule source declares no tokens"
  | undecided u => "no break rule matches state `" ++ u.state ++ "` on token `" ++ u.token ++ "`"
  | denied f => "denied: " ++ f.message

/-- The message and the message of its cause, if it has one of its own. -/
def chain : CompileError → List String
  | parse e => [(parse e).message, e.message]
  | e => [e.message]

end CompileError

structure Compilation where
  rules : RuleSet
  machine : Machine
  /-- The number of states before merging. -/
  rawStates : Nat
  /-- The findings that are warnings, in the order in which they were judged. -/
  findings : List Finding
deriving DecidableEq, Repr, Inhabited

/-- The findings that a rule set has before it is explored. -/
def RuleSet.startFindings (R : RuleSet) : List Finding :=
  if R.start.isNone then [.missingStart] else []

/-! ### What is noted -/

def startText : Option String → String
  | none => "None"
  | some s => "Some(" ++ Text.quoted s ++ ")"

namespace Draft

/-- What is noted while a text is read: the start states that were replaced. -/
def notes (d : Draft) : List Record :=
  d.replaced.toList.map fun (previous, line) =>
    ⟨.debug, .parsing,
      "start state `" ++ previous ++ "` replaced on line " ++ toString line⟩

/-- What is noted when a text has been read. Tokens declared twice count twice. -/
def summary (d : Draft) : Record :=
  ⟨.debug, .parsing,
    "parsed " ++ toString d.tokens.size ++ " tokens and " ++ toString d.rules.size ++
      " rules, start " ++ startText d.start⟩

end Draft

def Visited.record (r : Visited) : Record :=
  let cells := r.row.map fun c => "(" ++ c.verdict.symbol ++ " " ++ c.next ++ ")"
  ⟨.debug, .exploring, r.label ++ ": " ++ " ".intercalate cells⟩

def Visit.records (v : Visit) : List Record :=
  v.rows.map (·.record) ++
    match v.stuck with
    | some _ => []
    | none =>
        [⟨.info, .exploring,
          "built " ++ toString v.rows.length ++ " reachable states"⟩]

def mergeRecord (before after : Nat) : Record :=
  ⟨.info, .merging,
    "merged " ++ toString before ++ " raw states into " ++ toString after ++
      " canonical states"⟩

def RuleSet.record (R : RuleSet) : Record :=
  ⟨.info, .compiling, "parsed " ++ toString R.tokens.length ++ " tokens and " ++
    toString R.rules.length ++ " rules"⟩

/-! ### Compiling -/

/-- Compiles a rule set that has been read, and what is noted on the way. -/
def RuleSet.compileNoted (R : RuleSet) (options : Options) :
    List Record × Except CompileError Compilation :=
  if R.tokens.isEmpty then ([], .error .noTokens)
  else
    match options.judge R.startFindings with
    | .error f => ([R.record], .error (.denied f))
    | .ok early =>
        let v := R.explore R.startLabel
        let notes := R.record :: v.records
        match v.stuck with
        | some u => (notes, .error (.undecided u))
        | none =>
            match options.judge (R.findings v) with
            | .error f => (notes, .error (.denied f))
            | .ok late =>
                let machine := (v.table R.startLabel).merge R.tokens
                let raw := v.rows.length
                (notes ++ [mergeRecord raw machine.states.length],
                  .ok ⟨R, machine, raw, early ++ late⟩)

/-- Compiles a rule text, and what is noted on the way. -/
def compileNoted (source : String) (options : Options) :
    List Record × Except CompileError Compilation :=
  let (draft, error) := Draft.ofText source
  match error with
  | some e => (draft.notes, .error (.parse e))
  | none =>
      let (notes, result) := draft.ruleSet.compileNoted options
      (draft.notes ++ draft.summary :: notes, result)

def compile (source : String) (options : Options) : Except CompileError Compilation :=
  (compileNoted source options).2

def journal (source : String) (options : Options) : List Record :=
  (compileNoted source options).1

end BreakRules
