import BreakRules.Proofs.Compile
import BreakRules.Proofs.Run
import BreakRules.Proofs.Table

/-!
# Compiled machines do what the rules say

The machine of a rule set follows the rules, where a label has its place among
the states by its row: `RuleSet.follows_machine`. So a compiled machine gives
the verdicts of the rules before the tokens of every text, and a cell that is
looked up by its names is what the rules say about these names.
-/

namespace BreakRules

namespace RuleSet

section Machine

variable {R : RuleSet} {start : String} (hstuck : (R.explore start).stuck = none)
include hstuck

theorem follows_machine :
    (R.machine start).Follows R start ((R.explore start).place start) where
  tokens_eq := RawTable.tokens_merge _ _
  start_eq := RawTable.start_merge _ _
  place_lt := by
    intro label hreach
    exact (closed_explore hstuck).place_lt _ ((mem_labels_explore_iff hstuck).mpr hreach)
  cell?_place := by
    intro label hreach token column hcolumn
    obtain ⟨c, hc, hanswers⟩ := exists_getElem?_of_forall₂ (answers_rowOf hstuck hreach)
      (Machine.getElem?_of_tokenIndex? hcolumn)
    refine ⟨c, hanswers, ?_⟩
    rw [machine, (closed_explore hstuck).cell?_place _ ((mem_labels_explore_iff hstuck).mpr hreach),
      hc, Option.map_some]

theorem stateOf?_machine {label : String} (hreach : R.Reaches start label) :
    (R.machine start).stateOf? label = some ((R.explore start).place start label) :=
  (closed_explore hstuck).stateOf?_of_mem _ ((mem_labels_explore_iff hstuck).mpr hreach)

theorem stateOf?_machine_eq_none {label : String} (hreach : ¬ R.Reaches start label) :
    (R.machine start).stateOf? label = none :=
  (closed_explore hstuck).stateOf?_of_not_mem _
    (fun hl => hreach ((mem_labels_explore_iff hstuck).mp hl))

theorem exists_action?_machine {label token : String} (hreach : R.Reaches start label)
    (htoken : token ∈ R.tokens) :
    ∃ c, R.Answers label token c ∧
      (R.machine start).action? label token =
        some (c.map ((R.explore start).place start)) := by
  have hfollows := follows_machine hstuck
  obtain ⟨column, hcolumn⟩ := hfollows.exists_tokenIndex? htoken
  obtain ⟨c, hc, hcell⟩ := hfollows.cell?_place label hreach token column hcolumn
  refine ⟨c, hc, ?_⟩
  simp [Machine.action?, stateOf?_machine hstuck hreach, hcolumn, hcell]

theorem of_action?_machine {label token : String} {cell : Cell Nat}
    (h : (R.machine start).action? label token = some cell) :
    R.Reaches start label ∧ token ∈ R.tokens := by
  obtain ⟨state, hstate, h⟩ := Option.bind_eq_some_iff.mp h
  obtain ⟨column, hcolumn, -⟩ := Option.bind_eq_some_iff.mp h
  refine ⟨?_, (follows_machine hstuck).mem_tokens_of_tokenIndex? hcolumn⟩
  by_contra hreach
  rw [stateOf?_machine_eq_none hstuck hreach] at hstate
  cases hstate

/-- Two labels have the same row exactly if the rules say the same about them. -/
theorem rowOf_eq_rowOf_iff {label other : String} (hl : R.Reaches start label)
    (ho : R.Reaches start other) :
    (R.explore start).rowOf label = (R.explore start).rowOf other ↔
      ∀ token ∈ R.tokens, (R.scan label token).verdict = (R.scan other token).verdict ∧
        (R.scan label token).next = (R.scan other token).next := by
  have hrow := answers_rowOf hstuck hl
  have hrow' := answers_rowOf hstuck ho
  constructor
  · intro heq token htoken
    obtain ⟨i, hi⟩ := List.getElem?_of_mem htoken
    obtain ⟨c, hc, hverdict, hnext⟩ := exists_getElem?_of_forall₂ hrow hi
    obtain ⟨d, hd, hverdict', hnext'⟩ := exists_getElem?_of_forall₂ hrow' hi
    rw [heq, hd] at hc
    cases hc
    exact ⟨hverdict.trans hverdict'.symm, hnext.trans hnext'.symm⟩
  · intro hsame
    apply List.ext_getElem?
    intro i
    cases hi : R.tokens[i]? with
    | none =>
        have hlen : R.tokens.length ≤ i := List.getElem?_eq_none_iff.mp hi
        rw [List.getElem?_eq_none (hrow.length_eq ▸ hlen),
          List.getElem?_eq_none (hrow'.length_eq ▸ hlen)]
    | some token =>
        obtain ⟨hverdict, hnext⟩ := hsame token (List.mem_of_getElem? hi)
        obtain ⟨c, hc, hanswers⟩ := exists_getElem?_of_forall₂ hrow hi
        obtain ⟨d, hd, hanswers'⟩ := exists_getElem?_of_forall₂ hrow' hi
        have hanswers'' : R.Answers label token d :=
          ⟨hverdict.trans hanswers'.1, hnext.trans hanswers'.2⟩
        rw [hc, hd, hanswers.unique hanswers'']

end Machine

theorem declares_iff {R : RuleSet} {name : String} :
    R.declares name = true ↔ name ∈ R.tokens :=
  List.contains_iff_mem

end RuleSet

/-- A compiled machine reads a text over the alphabet as the rules do from the
start label on. It gives up on every other text, and whatever it looks up on the
way is there. -/
theorem compile_run_correct {source : String} {options : Options} {c : Compilation}
    (h : compile source options = .ok c) (tokens : List String) :
    RuleSet.parse source = .ok c.rules ∧
    c.machine.InRange c.machine.start tokens ∧
    ((∃ token ∈ tokens, ¬ c.rules.declares token) → c.machine.run? tokens = none) ∧
    ((∀ token ∈ tokens, c.rules.declares token) →
      ∃ verdicts, c.machine.run? tokens = some verdicts ∧ verdicts.length = tokens.length ∧
        ∀ i, (hi : i < tokens.length) →
          (c.rules.scan (c.rules.labelAfter c.rules.startLabel (tokens.take i))
            tokens[i]).verdict = verdicts[i]?) := by
  obtain ⟨hparse, -, hstuck, hmachine, -⟩ := compile_spec h
  have hfollows := RuleSet.follows_machine hstuck
  rw [← hmachine] at hfollows
  have hrange : c.machine.InRange c.machine.start tokens := by
    rw [hfollows.start_eq]
    exact hfollows.inRange .refl tokens
  simp only [RuleSet.declares_iff]
  refine ⟨hparse, hrange, ?_, ?_⟩
  · intro hunknown
    rw [← hfollows.tokens_eq] at hunknown
    exact (Machine.runFrom?_eq_none_iff hrange).mpr hunknown
  · intro hdeclared
    obtain ⟨verdicts, hrun, hreads⟩ := hfollows.exists_reads .refl hdeclared
    refine ⟨verdicts, ?_, hreads.getElem?⟩
    rw [Machine.run?, hfollows.start_eq]
    exact hrun

theorem compile_run_correct_sampleText :
    ∃ c, compile sampleText {} = .ok c ∧
      c.machine.run? ["A", "B"] = some [.split, .join] ∧
      c.machine.run? ["A", "S0"] = none := by
  obtain ⟨c, hc, hrules⟩ := compile_sampleText
  obtain ⟨-, -, -, hrun⟩ := compile_run_correct hc ["A", "B"]
  obtain ⟨-, -, hnone, -⟩ := compile_run_correct hc ["A", "S0"]
  rw [hrules] at hrun hnone
  obtain ⟨verdicts, hverdicts, hlength, hget⟩ := hrun (by decide)
  refine ⟨c, hc, ?_, hnone (by decide)⟩
  obtain ⟨first, second, rfl⟩ := List.length_eq_two.mp hlength
  have hfirst : some Verdict.split = some first := hget 0 (by decide)
  have hsecond : some Verdict.join = some second := hget 1 (by decide)
  rw [hverdicts, Option.some.inj hfirst, Option.some.inj hsecond]

/-- A cell of a compiled machine that is looked up by a label and a token is
what the rules say about them. There is one exactly for the labels that can be
reached and the tokens, and labels share a state exactly if the rules say the
same about them. -/
theorem compile_cells_correct {source : String} {options : Options} {c : Compilation}
    (h : compile source options = .ok c) :
    RuleSet.parse source = .ok c.rules ∧
    (∀ label state, c.machine.stateOf? label = some state → state < c.machine.states.length) ∧
    (∀ label token, (c.machine.action? label token).isSome ↔
      c.rules.Reaches c.rules.startLabel label ∧ c.rules.declares token) ∧
    (∀ label token cell, c.machine.action? label token = some cell →
      (c.rules.scan label token).verdict = some cell.verdict ∧
        c.machine.stateOf? (c.rules.scan label token).next = some cell.next) ∧
    (∀ label other, c.rules.Reaches c.rules.startLabel label →
      c.rules.Reaches c.rules.startLabel other →
      (c.machine.stateOf? label = c.machine.stateOf? other ↔
        ∀ token ∈ c.rules.tokens,
          (c.rules.scan label token).verdict = (c.rules.scan other token).verdict ∧
            (c.rules.scan label token).next = (c.rules.scan other token).next)) := by
  obtain ⟨hparse, -, hstuck, hmachine, -⟩ := compile_spec h
  rw [hmachine]
  simp only [RuleSet.declares_iff]
  refine ⟨hparse, ?_, ?_, ?_, ?_⟩
  · intro label state hstate
    by_cases hreach : c.rules.Reaches c.rules.startLabel label
    · rw [RuleSet.stateOf?_machine hstuck hreach] at hstate
      cases hstate
      exact (RuleSet.follows_machine hstuck).place_lt label hreach
    · rw [RuleSet.stateOf?_machine_eq_none hstuck hreach] at hstate
      cases hstate
  · intro label token
    constructor
    · intro hsome
      obtain ⟨cell, hcell⟩ := Option.isSome_iff_exists.mp hsome
      exact RuleSet.of_action?_machine hstuck hcell
    · rintro ⟨hreach, htoken⟩
      obtain ⟨cell, -, hcell⟩ := RuleSet.exists_action?_machine hstuck hreach htoken
      exact Option.isSome_iff_exists.mpr ⟨_, hcell⟩
  · intro label token cell hcell
    obtain ⟨hreach, htoken⟩ := RuleSet.of_action?_machine hstuck hcell
    obtain ⟨d, hd, hcell'⟩ := RuleSet.exists_action?_machine hstuck hreach htoken
    obtain rfl := Option.some.inj (hcell.symm.trans hcell')
    refine ⟨hd.1, ?_⟩
    rw [RuleSet.stateOf?_machine hstuck (hreach.step htoken), hd.2]
    rfl
  · intro label other hlabel hother
    rw [RuleSet.stateOf?_machine hstuck hlabel, RuleSet.stateOf?_machine hstuck hother,
      Option.some.injEq, (RuleSet.closed_explore hstuck).place_eq_place_iff
        ((RuleSet.mem_labels_explore_iff hstuck).mpr hlabel)
        ((RuleSet.mem_labels_explore_iff hstuck).mpr hother)]
    exact RuleSet.rowOf_eq_rowOf_iff hstuck hlabel hother

theorem compile_cells_correct_sampleText :
    ∃ c, compile sampleText {} = .ok c ∧
      (∃ cell, c.machine.action? "S0" "A" = some cell ∧ cell.verdict = .split ∧
        c.machine.stateOf? "A" = some cell.next) ∧
      c.machine.action? "C" "A" = none ∧
      c.machine.stateOf? "A" = c.machine.stateOf? "B" := by
  obtain ⟨c, hc, hrules⟩ := compile_sampleText
  obtain ⟨-, -, hsome, hcell, hshare⟩ := compile_cells_correct hc
  rw [hrules] at hsome hcell hshare
  have hA : sampleRules.Reaches "S0" "A" :=
    RuleSet.Reaches.refl.step (by decide : "A" ∈ sampleRules.tokens)
  have hB : sampleRules.Reaches "S0" "B" :=
    RuleSet.Reaches.refl.step (by decide : "B" ∈ sampleRules.tokens)
  have hC : ¬ sampleRules.Reaches "S0" "C" := by
    intro hreach
    have hmem := hreach.mem_labels
    rw [RuleSet.labels, mem_distinct] at hmem
    exact absurd hmem (by decide)
  obtain ⟨cell, hfound⟩ := Option.isSome_iff_exists.mp ((hsome "S0" "A").mpr ⟨.refl, by decide⟩)
  obtain ⟨hverdict, hnext⟩ := hcell "S0" "A" cell hfound
  refine ⟨c, hc, ⟨cell, hfound, ?_, hnext⟩, ?_, ?_⟩
  · exact (Option.some.inj (hverdict : some Verdict.split = some cell.verdict)).symm
  · rw [← Option.not_isSome_iff_eq_none, hsome]
    exact fun hreach => hC hreach.1
  · exact (hshare "A" "B" hA hB).mpr (by decide)

end BreakRules
