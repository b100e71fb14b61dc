import BreakRules.Proofs.Grammar
import BreakRules.Proofs.WellFormed
import BreakRules.Rule.Parse

/-!
# Names of a rule set that was read

Every line that is read is legal, so the draft stays legal line by line and the
rule set in the end is: `RuleSet.legal_of_parse`. All labels that can be reached
are names of the rule set, but for the empty label where no start is declared.
So are the names of a machine: `named_of_compile`.
-/

namespace BreakRules

namespace Draft

/-- The names of a draft are names, and those that ended a line can do so again. -/
structure Legal (d : Draft) : Prop where
  token : ∀ name ∈ d.tokens, Line.IsLastName name
  start : ∀ name ∈ d.start, Line.IsLastName name
  clause : ∀ rule ∈ d.rules, rule.clause.Legal

theorem Legal.add {d : Draft} (hd : d.Legal) (n : Nat) {line : Line} (hline : line.Legal) :
    (d.add n line).Legal := by
  cases line with
  | empty => exact hd
  | label group => exact ⟨hd.token, hd.start, hd.clause⟩
  | start name =>
      refine ⟨hd.token, ?_, hd.clause⟩
      intro m hm
      obtain rfl : name = m := by simpa [Draft.add] using hm
      exact hline
  | token name =>
      refine ⟨?_, hd.start, hd.clause⟩
      intro m hm
      rcases Array.mem_push.mp hm with hm | rfl
      · exact hd.token m hm
      · exact hline
  | rule clause =>
      refine ⟨hd.token, hd.start, ?_⟩
      intro rule hrule
      rcases Array.mem_push.mp hrule with hrule | rfl
      · exact hd.clause rule hrule
      · exact hline

theorem Legal.addLines {d : Draft} (hd : d.Legal) (n : Nat) (texts : List (List Char)) :
    (d.addLines n texts).1.Legal := by
  induction texts generalizing d n with
  | nil => exact hd
  | cons text texts ih =>
      unfold Draft.addLines
      cases hread : Line.read text with
      | ok line => exact ih (hd.add n (Line.legal_of_read hread)) (n + 1)
      | error fault => exact hd

theorem legal_ofText (source : String) : (ofText source).1.Legal :=
  Legal.addLines ⟨by simp, by simp, by simp⟩ 1 _

end Draft

namespace RuleSet

/-- The names of a rule set that was read. -/
structure Legal (R : RuleSet) : Prop where
  token : ∀ name ∈ R.tokens, Line.IsLastName name
  nodup_tokens : R.tokens.Nodup
  start : ∀ name ∈ R.start, Line.IsLastName name
  clause : ∀ rule ∈ R.rules, rule.clause.Legal

theorem legal_of_parse {source : String} {R : RuleSet} (h : RuleSet.parse source = .ok R) :
    R.Legal := by
  have hdraft := Draft.legal_ofText source
  unfold RuleSet.parse at h
  cases hd : Draft.ofText source with
  | mk draft error =>
      rw [hd] at h hdraft
      cases error with
      | some e => cases h
      | none =>
          cases h
          refine ⟨?_, nodup_distinct _, hdraft.start, ?_⟩
          · simpa [Draft.ruleSet] using hdraft.token
          · simpa [Draft.ruleSet] using hdraft.clause

/-- A label that can be reached is a word, or the empty label that stands for a
missing start. -/
theorem Legal.eq_empty_or_isWord {R : RuleSet} (hR : R.Legal) {label : String}
    (h : R.Reaches R.startLabel label) : label = "" ∨ Line.IsWord label := by
  have hmem := h.mem_labels
  rw [labels, mem_distinct, List.mem_cons, List.mem_append, List.mem_filterMap] at hmem
  rcases hmem with hstart | htoken | ⟨rule, hrule, htarget⟩
  · cases hdecl : R.start with
    | none => exact .inl (by rw [hstart, startLabel, hdecl]; rfl)
    | some name =>
        refine .inr ?_
        rw [hstart, startLabel, hdecl]
        exact (hR.start name hdecl).toIsWord
  · exact .inr (hR.token label htoken).toIsWord
  · have hclause := hR.clause rule hrule
    unfold target? at htarget
    split at htarget
    · next lhs token next heq =>
        cases htarget
        rw [heq] at hclause
        exact .inr hclause.2.2.toIsWord
    · cases htarget

end RuleSet

/-- The tokens of a machine are words, and so are its labels if they are not empty. -/
structure Machine.Named (M : Machine) : Prop where
  token : ∀ token ∈ M.tokens, Line.IsWord token
  label : ∀ s ∈ M.states, ∀ label ∈ s.labels, label = "" ∨ Line.IsWord label

theorem Machine.Named.not_mem_label {M : Machine} (hM : M.Named) {s : State} (hs : s ∈ M.states)
    {label : String} (hlabel : label ∈ s.labels) {c : Char} (hc : Text.isBlank c = true) :
    c ∉ label.toList := by
  rcases hM.label s hs label hlabel with rfl | hword
  · simp
  · exact hword.not_mem_of_isBlank hc

theorem reaches_of_mem_labels {source : String} {options : Options} {c : Compilation}
    (h : compile source options = .ok c) {s : State} (hs : s ∈ c.machine.states) {label : String}
    (hlabel : label ∈ s.labels) : c.rules.Reaches c.rules.startLabel label := by
  obtain ⟨-, -, hstuck, hmachine, -⟩ := compile_spec h
  rw [hmachine] at hs
  exact (RuleSet.mem_labels_explore_iff hstuck).mp
    ((RuleSet.flatMap_labels_machine_perm hstuck).mem_iff.mp
      (List.mem_flatMap.mpr ⟨s, hs, hlabel⟩))

theorem named_of_compile {source : String} {options : Options} {c : Compilation}
    (h : compile source options = .ok c) : c.machine.Named := by
  obtain ⟨hparse, -, -, hmachine, -⟩ := compile_spec h
  have hlegal := RuleSet.legal_of_parse hparse
  constructor
  case token =>
    rw [hmachine]
    exact fun token htoken => (hlegal.token token htoken).toIsWord
  case label =>
    intro s hs label hlabel
    exact hlegal.eq_empty_or_isWord (reaches_of_mem_labels h hs hlabel)

end BreakRules
