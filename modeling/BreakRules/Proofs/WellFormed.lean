import Mathlib
import BreakRules.Proofs.Correct

/-!
# Compiled machines are well formed

A machine as such is plain data. `M.WellFormed` is what everything that reads or
prints a compiled machine relies on: rows and cells can be looked up by
position, every state stands for labels of its own, and none is there in vain.
-/

namespace BreakRules

namespace Machine

/-- The table of a machine is complete, every state stands for labels that no
other state stands for, and every state is reached from the first. -/
structure WellFormed (M : Machine) : Prop where
  tokens_ne_nil : M.tokens ≠ []
  nodup_tokens : M.tokens.Nodup
  states_ne_nil : M.states ≠ []
  start_eq_zero : M.start = 0
  index_eq : ∀ (i : Nat) (s : State), M.states[i]? = some s → s.index = i
  length_row : ∀ s ∈ M.states, s.row.length = M.tokens.length
  next_lt : ∀ s ∈ M.states, ∀ c ∈ s.row, c.next < M.states.length
  labels_ne_nil : ∀ s ∈ M.states, s.labels ≠ []
  nodup_labels : (M.states.flatMap (·.labels)).Nodup
  reached : ∀ i < M.states.length, ∃ tokens, M.stateAfter? M.start tokens = some i

end Machine

namespace RuleSet

variable {R : RuleSet} {start : String} (hstuck : (R.explore start).stuck = none)
include hstuck

/-- Every state is the one that a label goes to. -/
theorem exists_reaches_of_mem_states {s : State} (hs : s ∈ (R.machine start).states) :
    ∃ label, R.Reaches start label ∧
      (R.machine start).states[(R.explore start).place start label]? = some s ∧
      s.row = ((R.explore start).rowOf label).map (·.map ((R.explore start).place start)) := by
  have hclosed := closed_explore hstuck
  obtain ⟨i, hi, rfl⟩ := List.getElem_of_mem hs
  obtain ⟨label, hl, rfl⟩ := hclosed.exists_place_eq _ hi
  have hstate := hclosed.getElem?_states_place R.tokens hl
  refine ⟨label, (mem_labels_explore_iff hstuck).mp hl, List.getElem?_eq_getElem hi, ?_⟩
  rw [← machine, List.getElem?_eq_getElem hi] at hstate
  rw [Option.some.inj hstate]

theorem flatMap_labels_machine_perm :
    ((R.machine start).states.flatMap (·.labels)).Perm (R.explore start).labels :=
  (closed_explore hstuck).flatMap_labels_perm R.tokens

theorem head?_labels_machine :
    ∃ s, (R.machine start).states[0]? = some s ∧ s.labels.head? = some start := by
  have hclosed := closed_explore hstuck
  have hstate := hclosed.getElem?_states_place R.tokens hclosed.start_mem_labels
  rw [hclosed.place_start] at hstate
  refine ⟨_, hstate, ?_⟩
  obtain ⟨rest, hrest⟩ := hclosed.order_eq_cons
  rw [List.head?_map, RawTable.head?_members_zero hrest, Option.map_some,
    Visit.label_handle _ _ (hclosed.mem_arena_iff_mem_labels.mpr hclosed.start_mem_labels)]

theorem wellFormed_machine (htokens : R.tokens ≠ []) (hnodup : R.tokens.Nodup) :
    (R.machine start).WellFormed := by
  have hclosed := closed_explore hstuck
  have hfollows := follows_machine hstuck
  constructor
  case tokens_ne_nil => exact htokens
  case nodup_tokens => exact hnodup
  case states_ne_nil =>
    exact List.ne_nil_of_length_pos (Nat.zero_lt_of_lt (hfollows.place_lt start .refl))
  case start_eq_zero => rw [hfollows.start_eq, hclosed.place_start]
  case index_eq =>
    intro i s hs
    exact (RawTable.of_getElem?_states_merge hs).2.1
  case length_row =>
    intro s hs
    obtain ⟨label, hreach, -, hrow⟩ := exists_reaches_of_mem_states hstuck hs
    rw [hrow, List.length_map]
    exact (answers_rowOf hstuck hreach).length_eq.symm
  case next_lt =>
    intro s hs c hc
    obtain ⟨label, hreach, -, hrow⟩ := exists_reaches_of_mem_states hstuck hs
    rw [hrow] at hc
    obtain ⟨d, hd, rfl⟩ := List.mem_map.mp hc
    have hl := (mem_labels_explore_iff hstuck).mpr hreach
    exact hclosed.place_lt R.tokens (hclosed.next_mem_of_mem_rowOf hl hd)
  case labels_ne_nil =>
    intro s hs
    obtain ⟨i, hi⟩ := List.getElem?_of_mem hs
    obtain ⟨hlt, -, hlabels⟩ := RawTable.of_getElem?_states_merge hi
    obtain ⟨handle, hmember⟩ := RawTable.exists_mem_members hlt
    rw [hlabels]
    exact List.ne_nil_of_mem (List.mem_map_of_mem hmember)
  case nodup_labels =>
    exact (flatMap_labels_machine_perm hstuck).nodup_iff.mpr (R.nodup_labels_explore start)
  case reached =>
    intro i hi
    obtain ⟨label, hl, rfl⟩ := hclosed.exists_place_eq _ hi
    obtain ⟨tokens, hsubset, rfl⟩ :=
      reaches_iff_exists_labelAfter.mp ((mem_labels_explore_iff hstuck).mp hl)
    exact ⟨tokens, by rw [hfollows.start_eq, hfollows.stateAfter?_place .refl hsubset]⟩

end RuleSet

theorem wellFormed_of_compile {source : String} {options : Options} {c : Compilation}
    (h : compile source options = .ok c) : c.machine.WellFormed := by
  obtain ⟨hparse, htokens, hstuck, hmachine, -⟩ := compile_spec h
  rw [hmachine]
  exact RuleSet.wellFormed_machine hstuck htokens (RuleSet.nodup_tokens_of_parse hparse)

/-- Every compiled machine is well formed. Its states share out the labels of
the raw table, and the first of them is the start label. -/
theorem compile_wellFormed {source : String} {options : Options} {c : Compilation}
    (h : compile source options = .ok c) :
    c.machine.WellFormed ∧
    (∃ raw, c.rules.build c.rules.startLabel = .ok raw ∧ raw.order.length = c.rawStates ∧
      (raw.states.map (·.label)).Nodup ∧
      (c.machine.states.flatMap (·.labels)).Perm (raw.states.map (·.label))) ∧
    (c.machine.states.map (·.labels.length)).sum = c.rawStates ∧
    (∃ s, c.machine.states[0]? = some s ∧ s.labels.head? = some c.rules.startLabel) := by
  obtain ⟨hparse, htokens, hstuck, hmachine, hraw⟩ := compile_spec h
  have hperm := RuleSet.flatMap_labels_machine_perm hstuck
  rw [hmachine, hraw]
  refine ⟨?_, ⟨_, RuleSet.build_eq_ok hstuck, ?_, ?_, ?_⟩, ?_, ?_⟩
  · exact RuleSet.wellFormed_machine hstuck htokens (RuleSet.nodup_tokens_of_parse hparse)
  · rw [Visit.table_order, List.length_map, Visit.labels, List.length_map]
  · rw [Visit.map_label_table_states]
    exact Visit.nodup_arena _ _
  · rw [Visit.map_label_table_states]
    exact hperm.trans (RuleSet.closed_explore hstuck).labels_perm_arena
  · rw [← List.length_flatMap, hperm.length_eq, Visit.labels, List.length_map]
  · exact RuleSet.head?_labels_machine hstuck

theorem compile_wellFormed_sampleText :
    ∃ c, compile sampleText {} = .ok c ∧ c.machine.WellFormed ∧
      ∃ s, c.machine.states[0]? = some s ∧ s.labels.head? = some "S0" := by
  obtain ⟨c, hc, hrules⟩ := compile_sampleText
  obtain ⟨hwf, -, -, hfirst⟩ := compile_wellFormed hc
  rw [hrules] at hfirst
  exact ⟨c, hc, hwf, hfirst⟩

end BreakRules
