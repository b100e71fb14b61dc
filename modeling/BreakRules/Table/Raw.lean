import BreakRules.Rule.Basic

/-!
# Raw tables

A raw table has a state for every label. The states stand in an arena and refer
to one another by their positions in it, their handles. The order says which
handles have a row that counts and in which order they were built; it need not
name every handle.
-/

namespace BreakRules

structure Cell (σ : Type) where
  verdict : Verdict
  next : σ
deriving DecidableEq, Hashable, Repr, Inhabited

def Cell.map {σ τ : Type} (f : σ → τ) (c : Cell σ) : Cell τ :=
  ⟨c.verdict, f c.next⟩

/-- A state under its label, with a cell for every token. -/
structure RawState where
  label : String
  row : List (Cell Nat)
deriving DecidableEq, Repr, Inhabited

/-- States that refer to one another by position. -/
structure RawTable where
  states : List RawState
  order : List Nat
  start : Nat
deriving DecidableEq, Repr, Inhabited

namespace RawTable

def find? (t : RawTable) (label : String) : Option Nat :=
  t.states.findIdx? (·.label == label)

def label (t : RawTable) (handle : Nat) : String :=
  (t.states[handle]?.map (·.label)).getD ""

def row (t : RawTable) (handle : Nat) : List (Cell Nat) :=
  (t.states[handle]?.map (·.row)).getD []

end RawTable

end BreakRules
