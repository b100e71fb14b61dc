import BreakRules.Machine
import BreakRules.Proofs.Reach

/-!
# Reading a text by machine and by rules

`R.Reads label tokens verdicts` says what the rules make of a text that is read
from a label on. `M.InRange state tokens` says that a machine finds every row
and every cell it looks up while it reads a text, so that a token outside of the
alphabet is the only thing it can fail at: `Machine.runFrom?_eq_none_iff`.
`M.stateAfter? state tokens` is the state behind a text.

`M.Follows R start place` is the simulation between the two: every label that
can be reached has a place in the machine, and the cells there hold what the
rules say, with places for labels. One step keeps to it by definition, and a
whole text by induction.
-/

namespace BreakRules

namespace RuleSet

/-- The verdicts of the rules before the tokens of a text. -/
inductive Reads (R : RuleSet) : String → List String → List Verdict → Prop where
  | nil (label : String) : Reads R label [] []
  | cons {label token : String} {rest : List String} {verdict : Verdict}
      {verdicts : List Verdict} : (R.scan label token).verdict = some verdict →
      Reads R (R.scan label token).next rest verdicts →
      Reads R label (token :: rest) (verdict :: verdicts)

/-- The verdict before a token is the one that its label in the text gives it. -/
theorem Reads.getElem? {R : RuleSet} {label : String} {tokens : List String}
    {verdicts : List Verdict} (h : R.Reads label tokens verdicts) :
    verdicts.length = tokens.length ∧ ∀ i, (hi : i < tokens.length) →
      (R.scan (R.labelAfter label (tokens.take i)) tokens[i]).verdict = verdicts[i]? := by
  induction h with
  | nil label => simp
  | @cons label token rest verdict verdicts hverdict _ ih =>
      refine ⟨by simp [ih.1], ?_⟩
      intro i hi
      cases i with
      | zero => exact hverdict
      | succ i => exact ih.2 i (Nat.lt_of_succ_lt_succ hi)

end RuleSet

namespace Machine

/-- Every position that is looked up while a text is read from `state` on is
there. The row is looked up before the token. -/
def InRange (M : Machine) : Nat → List String → Prop
  | _, [] => True
  | state, token :: rest =>
      ∃ s, M.states[state]? = some s ∧
        ∀ column, M.tokenIndex? token = some column →
          ∃ cell, s.row[column]? = some cell ∧ M.InRange cell.next rest

def stateAfter? (M : Machine) (state : Nat) : List String → Option Nat
  | [] => some state
  | token :: rest => do
      let column ← M.tokenIndex? token
      let cell ← M.cell? state column
      M.stateAfter? cell.next rest

theorem tokenIndex?_eq_none_iff {M : Machine} {token : String} :
    M.tokenIndex? token = none ↔ token ∉ M.tokens :=
  List.idxOf?_eq_none_iff

theorem exists_tokenIndex?_iff {M : Machine} {token : String} :
    (∃ column, M.tokenIndex? token = some column) ↔ token ∈ M.tokens := by
  rw [← Option.isSome_iff_exists]
  exact List.isSome_idxOf?

theorem getElem?_of_tokenIndex? {M : Machine} {token : String} {column : Nat}
    (h : M.tokenIndex? token = some column) : M.tokens[column]? = some token := by
  obtain ⟨hlt, hget, -⟩ := List.idxOf?_eq_some_iff.mp h
  rw [List.getElem?_eq_getElem hlt, hget]

theorem runFrom?_cons (M : Machine) (state : Nat) (token : String) (rest : List String) :
    M.runFrom? state (token :: rest) =
      (M.tokenIndex? token).bind fun column =>
        (M.cell? state column).bind fun cell =>
          (M.runFrom? cell.next rest).map (cell.verdict :: ·) := by
  simp only [runFrom?, Option.map_eq_bind]
  rfl

/-- A machine that finds what it looks up fails only at a token that it does not
know. -/
theorem runFrom?_eq_none_iff {M : Machine} {state : Nat} {tokens : List String}
    (h : M.InRange state tokens) :
    M.runFrom? state tokens = none ↔ ∃ token ∈ tokens, token ∉ M.tokens := by
  induction tokens generalizing state with
  | nil => simp [runFrom?]
  | cons token rest ih =>
      obtain ⟨s, hs, hcells⟩ := h
      rw [runFrom?_cons]
      cases hcolumn : M.tokenIndex? token with
      | none =>
          have htoken := tokenIndex?_eq_none_iff.mp hcolumn
          simp [htoken]
      | some column =>
          obtain ⟨cell, hcell, hrest⟩ := hcells column hcolumn
          have htoken : token ∈ M.tokens := exists_tokenIndex?_iff.mp ⟨column, hcolumn⟩
          simp [cell?, hs, hcell, ih hrest, htoken]

/-- The cells of a machine hold what the rules say, where every label that can
be reached from `start` has its place among the states. -/
structure Follows (M : Machine) (R : RuleSet) (start : String) (place : String → Nat) : Prop where
  tokens_eq : M.tokens = R.tokens
  start_eq : M.start = place start
  place_lt : ∀ label, R.Reaches start label → place label < M.states.length
  cell?_place : ∀ label, R.Reaches start label →
    ∀ token column, M.tokenIndex? token = some column →
      ∃ c, R.Answers label token c ∧ M.cell? (place label) column = some (c.map place)

namespace Follows

variable {M : Machine} {R : RuleSet} {start : String} {place : String → Nat}
  (hM : M.Follows R start place)
include hM

theorem mem_tokens_of_tokenIndex? {token : String} {column : Nat}
    (h : M.tokenIndex? token = some column) : token ∈ R.tokens :=
  hM.tokens_eq ▸ exists_tokenIndex?_iff.mp ⟨column, h⟩

theorem exists_tokenIndex? {token : String} (h : token ∈ R.tokens) :
    ∃ column, M.tokenIndex? token = some column :=
  exists_tokenIndex?_iff.mpr (hM.tokens_eq ▸ h)

theorem inRange {label : String} (hreach : R.Reaches start label) (tokens : List String) :
    M.InRange (place label) tokens := by
  induction tokens generalizing label with
  | nil => trivial
  | cons token rest ih =>
      refine ⟨_, List.getElem?_eq_getElem (hM.place_lt label hreach), ?_⟩
      intro column hcolumn
      obtain ⟨c, hc, hcell⟩ := hM.cell?_place label hreach token column hcolumn
      have hnext : R.Reaches start c.next :=
        hc.2 ▸ hreach.step (hM.mem_tokens_of_tokenIndex? hcolumn)
      refine ⟨c.map place, ?_, ih hnext⟩
      rwa [cell?, List.getElem?_eq_getElem (hM.place_lt label hreach)] at hcell

/-- A machine that follows the rules reads a text over the alphabet as they do. -/
theorem exists_reads {label : String} (hreach : R.Reaches start label) {tokens : List String}
    (htokens : tokens ⊆ R.tokens) :
    ∃ verdicts, M.runFrom? (place label) tokens = some verdicts ∧
      R.Reads label tokens verdicts := by
  induction tokens generalizing label with
  | nil => exact ⟨[], rfl, .nil label⟩
  | cons token rest ih =>
      obtain ⟨htoken, hrest⟩ := List.cons_subset.mp htokens
      obtain ⟨column, hcolumn⟩ := hM.exists_tokenIndex? htoken
      obtain ⟨c, hc, hcell⟩ := hM.cell?_place label hreach token column hcolumn
      have hnext : R.Reaches start c.next := hc.2 ▸ hreach.step htoken
      obtain ⟨verdicts, hrun, hreads⟩ := ih hnext hrest
      refine ⟨c.verdict :: verdicts, ?_, .cons hc.1 (hc.2 ▸ hreads)⟩
      rw [runFrom?_cons, hcolumn, Option.bind_some, hcell, Option.bind_some]
      exact Option.map_eq_some_iff.mpr ⟨verdicts, hrun, rfl⟩

/-- Behind a text over the alphabet it is in the place of the label there. -/
theorem stateAfter?_place {label : String} (hreach : R.Reaches start label)
    {tokens : List String} (htokens : tokens ⊆ R.tokens) :
    M.stateAfter? (place label) tokens = some (place (R.labelAfter label tokens)) := by
  induction tokens generalizing label with
  | nil => rfl
  | cons token rest ih =>
      obtain ⟨htoken, hrest⟩ := List.cons_subset.mp htokens
      obtain ⟨column, hcolumn⟩ := hM.exists_tokenIndex? htoken
      obtain ⟨c, hc, hcell⟩ := hM.cell?_place label hreach token column hcolumn
      have hnext : R.Reaches start c.next := hc.2 ▸ hreach.step htoken
      rw [stateAfter?, hcolumn, Option.bind_eq_bind, Option.bind_some, hcell,
        Option.bind_eq_bind, Option.bind_some, RuleSet.labelAfter_cons, hc.2]
      exact ih hnext hrest

end Follows

end Machine

end BreakRules
