import BreakRules.Proofs.Building

/-!
# How long building takes

A row puts a label on the stack for every token, whether it has been met before
or not, so the stack may get longer with every row. What gets less is the number
of labels without a row. They are among the start, the tokens and the targets of
transitions, and `R.labelBound` counts these.

A row costs as many labels later on as there are tokens. This bounds the length of
an exploration by the labels without a row (`RuleSet.Visits.length_le`), and fixes
it once all rows are built (`RuleSet.Visits.length_eq`).

`Worklist.Ends R w n result` is a run of the loop by handles to its end, in which
`n` handles are taken from the stack. A loop in progress has as many turns to go
as the exploration takes labels, so it ends as well and takes as many:
`Worklist.Progress.ends`.
-/

namespace BreakRules

open Worklist (begin)

namespace RuleSet

/-! ### The length of an exploration -/

theorem length_of_row {R : RuleSet} {label : String} {cells : List (Cell String)}
    (h : R.row label = .ok cells) : cells.length = R.tokens.length :=
  (row_eq_ok_iff.mp h).length_eq.symm

namespace Visits

variable {R : RuleSet} {remaining : Std.HashSet String} {stack : List String} {n : Nat} {v : Visit}

/-- Beyond what is on the stack, a label without a row costs at most one label for
every token. -/
theorem length_le (h : R.Visits remaining stack n v) :
    n ≤ stack.length + R.tokens.length * remaining.size := by
  induction h with
  | nil remaining => exact Nat.zero_le _
  | stuck _ _ =>
      rw [List.length_cons]
      omega
  | @row remaining label rest cells n v hlabel hrow hvisits ih =>
      have hpos : 0 < remaining.size := by
        rw [Nat.pos_iff_ne_zero, ← beq_eq_false_iff_ne, ← Std.HashSet.isEmpty_eq_size_eq_zero]
        exact Std.HashSet.isEmpty_eq_false_iff_exists_mem.mpr ⟨label, hlabel⟩
      obtain ⟨size, hsize⟩ := Nat.exists_eq_add_one.mpr hpos
      rw [Std.HashSet.size_erase, if_pos hlabel, hsize, List.length_append, List.length_reverse,
        List.length_map, length_of_row hrow, Nat.add_sub_cancel] at ih
      rw [hsize, List.length_cons, Nat.mul_succ]
      omega
  | skip _ _ ih =>
      rw [List.length_cons]
      omega

/-- An exploration that gets through takes what is on the stack, and one label for
every cell that it builds. -/
theorem length_eq (h : R.Visits remaining stack n v) (hstuck : v.stuck = none) :
    n = stack.length + R.tokens.length * v.rows.length := by
  induction h with
  | nil remaining => rfl
  | stuck _ _ => cases hstuck
  | @row remaining label rest cells n v _ hrow _ ih =>
      rw [ih hstuck, List.length_append, List.length_reverse, List.length_map, length_of_row hrow,
        List.length_cons, List.length_cons, Nat.mul_succ]
      omega
  | skip _ _ ih =>
      rw [ih hstuck, List.length_cons]
      omega

end Visits

/-! ### The labels that can turn up -/

/-- One for the start, one for every token and one for every target of a
transition, where a name that occurs twice counts once. -/
def labelBound (R : RuleSet) : Nat :=
  1 + R.tokens.toFinset.card + (R.rules.filterMap target?).toFinset.card

theorem length_labels_le (R : RuleSet) (start : String) :
    (R.labels start).length ≤ R.labelBound := by
  have hnames : (R.labels start).toFinset =
      insert start (R.tokens.toFinset ∪ (R.rules.filterMap target?).toFinset) := by
    ext name
    simp [labels]
  calc (R.labels start).length
      = (R.labels start).toFinset.card :=
        (List.toFinset_card_of_nodup (nodup_distinct _)).symm
    _ ≤ (R.tokens.toFinset ∪ (R.rules.filterMap target?).toFinset).card + 1 := by
        rw [hnames]
        exact Finset.card_insert_le _ _
    _ ≤ R.labelBound := by
        have hunion := Finset.card_union_le R.tokens.toFinset
          (R.rules.filterMap target?).toFinset
        rw [labelBound]
        omega

/-- A table has a state for every row that was built. -/
theorem length_states_of_build {R : RuleSet} {start : String} {Q : RawTable}
    (hbuild : R.build start = .ok Q) : Q.states.length = (R.explore start).rows.length := by
  obtain ⟨hstuck, rfl⟩ := build_eq_ok_iff.mp hbuild
  rw [Visit.length_table_states, ← (closed_explore hstuck).labels_perm_arena.length_eq,
    Visit.labels, List.length_map]

theorem length_states_le {R : RuleSet} {start : String} {Q : RawTable}
    (hbuild : R.build start = .ok Q) : Q.states.length ≤ R.labelBound := by
  have hlabels : (R.explore start).labels ⊆ R.labels start := fun label hlabel =>
    mem_ofList_labels.mp (mem_remaining_of_mem_labels hlabel)
  calc Q.states.length
      = (R.explore start).labels.length := by
        rw [length_states_of_build hbuild, Visit.labels, List.length_map]
    _ ≤ (R.labels start).length :=
        (R.nodup_labels_explore start).length_le_of_subset hlabels
    _ ≤ R.labelBound := R.length_labels_le start

end RuleSet

/-! ### The length of the loop -/

namespace Worklist

/-- The loop ends with `result` after `n` handles have been taken from its stack. -/
inductive Ends (R : RuleSet) : Worklist → Nat → Except Fault Worklist → Prop where
  | done {w : Worklist} : w.pending = [] → Ends R w 0 (.ok w)
  | fault {w : Worklist} {e : Fault} : w.pending ≠ [] → w.turn R = .error e →
      Ends R w 1 (.error e)
  | turn {w w' : Worklist} {n : Nat} {result : Except Fault Worklist} : w.pending ≠ [] →
      w.turn R = .ok w' → Ends R w' n result → Ends R w (n + 1) result

/-- A loop ends in one way. -/
theorem Ends.unique {R : RuleSet} {w : Worklist} {n m : Nat} {result other : Except Fault Worklist}
    (h : Ends R w n result) (h' : Ends R w m other) : n = m ∧ result = other := by
  induction h generalizing m with
  | done hempty =>
      cases h' with
      | done _ => exact ⟨rfl, rfl⟩
      | fault hpending _ => exact absurd hempty hpending
      | turn hpending _ _ => exact absurd hempty hpending
  | fault hpending hfault =>
      cases h' with
      | done hempty => exact absurd hempty hpending
      | fault _ hother => exact ⟨rfl, hfault.symm.trans hother⟩
      | turn _ hturn _ => cases hfault.symm.trans hturn
  | turn hpending hturn _ ih =>
      cases h' with
      | done hempty => exact absurd hempty hpending
      | fault _ hfault => cases hfault.symm.trans hturn
      | turn _ hother hrest =>
          cases hturn.symm.trans hother
          obtain ⟨rfl, hresult⟩ := ih hrest
          exact ⟨rfl, hresult⟩

/-- A result of the loop is an answer of building: the table, or the undecided
cell. A look-up that misses is no answer. -/
inductive Gives : Except Fault Worklist → Except Undecided RawTable → Prop where
  | table (w : Worklist) : Gives (.ok w) (.ok w.table)
  | undecided (u : Undecided) : Gives (.error (.undecided u)) (.error u)

/-- A loop ends after as many turns as it has to go, and with what building gives. -/
theorem Progress.ends {R : RuleSet} {start : String} {v later : Visit}
    {remaining : Std.HashSet String} {stack : List String} {n : Nat} {w : Worklist}
    (h : Progress R start v remaining stack n later w) :
    ∃ result, Ends R w n result ∧ Gives result (R.build start) := by
  induction n generalizing v remaining stack later w with
  | zero =>
      refine ⟨.ok w, .done h.pending_eq_nil, ?_⟩
      rw [h.build_eq_ok]
      exact .table w
  | succ n ih =>
      have hcourse := h.turn
      rw [Nat.add_sub_cancel] at hcourse
      generalize hturn : w.turn R = result at hcourse
      cases hcourse with
      | progress h' =>
          obtain ⟨result, hends, hgives⟩ := ih h'
          exact ⟨result, .turn h.pending_ne_nil hturn hends, hgives⟩
      | @undecided u hleft hbuild =>
          subst hleft
          rw [hbuild]
          exact ⟨_, .fault h.pending_ne_nil hturn, .undecided u⟩

end Worklist

/-- Building ends, whatever the rules are. The exploration takes a bounded number
of labels from its stack, and the loop by handles takes as many handles and ends
with what building gives. If that is a table, it has no more states than there are
names for them, and the number of handles is one more than that of its cells. -/
theorem RuleSet.build_ends_within_bound (R : RuleSet) (start : String) :
    (∃ n result, R.Visits (.ofList (R.labels start)) [start] n (R.explore start) ∧
      Worklist.Ends R (begin start) n result ∧ Worklist.Gives result (R.build start) ∧
      n ≤ 1 + R.tokens.length * R.labelBound) ∧
    ∀ Q, R.build start = .ok Q →
      Q.states.length ≤ R.labelBound ∧
      ∀ n result, Worklist.Ends R (begin start) n result →
        n = 1 + R.tokens.length * Q.states.length := by
  obtain ⟨n, hvisits⟩ := R.exists_visits (.ofList (R.labels start)) [start]
  obtain ⟨result, hends, hgives⟩ := (Worklist.progress_begin hvisits).ends
  have hsize : (Std.HashSet.ofList (R.labels start)).size ≤ R.labelBound :=
    Std.HashSet.size_ofList_le.trans (R.length_labels_le start)
  refine ⟨⟨n, result, hvisits, hends, hgives, ?_⟩, fun Q hbuild => ?_⟩
  · exact hvisits.length_le.trans (Nat.add_le_add_left (Nat.mul_le_mul_left _ hsize) 1)
  · refine ⟨length_states_le hbuild, fun m other hother => ?_⟩
    rw [(hother.unique hends).1, length_states_of_build hbuild]
    exact hvisits.length_eq (build_eq_ok_iff.mp hbuild).1

/-- Two renamings that lead in a circle. All labels that can turn up do so. -/
def circleRules : RuleSet where
  tokens := ["A", "B"]
  rules :=
    [⟨.rename "A" "B", none, 4⟩, ⟨.rename "B" "A", none, 5⟩,
      ⟨.transition (.name "S") (.name "A") "L", none, 6⟩, ⟨.decision .any .join .any, none, 7⟩]
  start := some "S"

theorem decides_circleRules (label token : String) : circleRules.Decides label token := by
  simp [RuleSet.Decides, RuleSet.scan, RuleSet.facing, circleRules, tokenClauses, Side.accepts,
    Reading.ofToken]
  split <;> simp [Scan.step, Side.accepts]

theorem build_ends_within_bound_circleRules :
    ∃ Q, circleRules.build "S" = .ok Q ∧ Q.states.length = 4 ∧ circleRules.labelBound = 4 ∧
      ∃ n result, Worklist.Ends circleRules (begin "S") n result ∧ n = 9 := by
  have hstuck : (circleRules.explore "S").stuck = none :=
    RuleSet.explore_stuck_eq_none_iff.mpr fun label _ token _ => decides_circleRules label token
  have hbuild := RuleSet.build_eq_ok hstuck
  have hpreorder : circleRules.preorder "S" = ["S", "L", "B", "A"] := by cbv
  have hlength : ((circleRules.explore "S").table "S").states.length = 4 := by
    rw [RuleSet.length_states_of_build hbuild, ← List.length_map, ← Visit.labels,
      RuleSet.labels_explore_eq_preorder hstuck, hpreorder]
    rfl
  obtain ⟨⟨n, result, -, hends, -⟩, hcount⟩ := circleRules.build_ends_within_bound "S"
  refine ⟨_, hbuild, hlength, by decide, n, result, hends, ?_⟩
  rw [(hcount _ hbuild).2 n result hends, hlength]
  rfl

end BreakRules
