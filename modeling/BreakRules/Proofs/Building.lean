import BreakRules.Proofs.Compile
import BreakRules.Proofs.DepthFirst
import BreakRules.Proofs.Tracking

/-!
# A table turn by turn

`R.Visits remaining stack n v` is the exploration with its length: `v` is what is
built from `stack`, and `n` labels are taken from the stack for it. A work list
that begins with a start makes progress: after any number of turns it tracks an
exploration of which `v` has been built and `later` is yet to be built, and it has
as many turns to go as the exploration takes labels (`Worklist.Progress`). A label
that comes up a second time is passed over by both, so handles that are on the
stack twice do no harm.

Every turn takes one from what is left to do, and no look-up in it misses:
`Worklist.Progress.turn`. So where `RuleSet.build` gives a table, the loop ends with
it, and with the findings of the exploration (`Worklist.exists_turns_eq_ok`). The
table has the labels that can be reached and no others, it is built in depth-first
order, and its handles are given out in the order of first mention.
-/

namespace BreakRules

open Worklist (begin turns)

namespace RuleSet

/-! ### An exploration with its length -/

/-- The exploration of a stack takes `n` labels from it and comes to `v`. -/
inductive Visits (R : RuleSet) : Std.HashSet String → List String → Nat → Visit → Prop where
  | nil (remaining : Std.HashSet String) : Visits R remaining [] 0 ⟨[], none⟩
  | stuck {remaining : Std.HashSet String} {label token : String} {rest : List String} :
      label ∈ remaining → R.row label = .error token →
      Visits R remaining (label :: rest) 1 ⟨[], some ⟨label, token⟩⟩
  | row {remaining : Std.HashSet String} {label : String} {rest : List String}
      {cells : List (Cell String)} {n : Nat} {v : Visit} :
      label ∈ remaining → R.row label = .ok cells →
      Visits R (remaining.erase label) ((cells.map (·.next)).reverse ++ rest) n v →
      Visits R remaining (label :: rest) (n + 1) ⟨⟨label, cells⟩ :: v.rows, v.stuck⟩
  | skip {remaining : Std.HashSet String} {label : String} {rest : List String} {n : Nat}
      {v : Visit} : label ∉ remaining → Visits R remaining rest n v →
      Visits R remaining (label :: rest) (n + 1) v

theorem exists_visits (R : RuleSet) (remaining : Std.HashSet String) (stack : List String) :
    ∃ n, R.Visits remaining stack n (R.visit remaining stack) := by
  fun_induction RuleSet.visit R remaining stack with
  | case1 remaining => exact ⟨0, .nil remaining⟩
  | case2 remaining label rest hlabel token hrow => exact ⟨1, .stuck hlabel hrow⟩
  | case3 remaining label rest hlabel cells hrow v ih =>
      obtain ⟨n, hn⟩ := ih
      exact ⟨n + 1, .row hlabel hrow hn⟩
  | case4 remaining label rest hlabel ih =>
      obtain ⟨n, hn⟩ := ih
      exact ⟨n + 1, .skip hlabel hn⟩

end RuleSet

/-- The labels of an arena are numbered as they are mentioned. -/
theorem Visit.arena_eq_eraseDups {R : RuleSet} {v : Visit}
    (hrows : ∀ r ∈ v.rows, R.row r.label = .ok r.row) (start : String) :
    v.arena start = (start :: v.labels.flatMap R.successors).eraseDups := by
  have hnext : v.rows.flatMap (fun r => r.row.map (·.next)) = v.labels.flatMap R.successors := by
    rw [labels, List.flatMap_map]
    refine List.flatMap_congr fun r hr => ?_
    exact RuleSet.map_next_of_row (hrows r hr)
  rw [arena, hnext, distinct_eq_eraseDups]

/-! ### The loop -/

namespace Worklist

variable {R : RuleSet} {start : String}

/-- A loop stands where the exploration does that has built the rows of `v`, that has
the labels of `stack` on its stack, and that takes `n` labels from it to build `later`. -/
structure Progress (R : RuleSet) (start : String) (v : Visit) (remaining : Std.HashSet String)
    (stack : List String) (n : Nat) (later : Visit) (w : Worklist) : Prop where
  tracks : Tracks R v start stack w
  visits : R.Visits remaining stack n later
  stack_subset : stack ⊆ R.labels start
  mem_remaining_iff : ∀ label ∈ R.labels start, label ∈ remaining ↔ label ∉ v.labels
  explore_eq : R.explore start = ⟨v.rows ++ later.rows, later.stuck⟩

/-- What turns come to: progress with so many turns left, or the undecided cell
that building ends at. A look-up that misses is not among it. -/
inductive OnCourse (R : RuleSet) (start : String) (left : Nat) : Except Fault Worklist → Prop
  | progress {v later : Visit} {remaining : Std.HashSet String} {stack : List String}
      {w : Worklist} : Progress R start v remaining stack left later w →
      OnCourse R start left (.ok w)
  | undecided {u : Undecided} : left = 0 → R.build start = .error u →
      OnCourse R start left (.error (.undecided u))

theorem progress_begin {n : Nat}
    (hvisits : R.Visits (.ofList (R.labels start)) [start] n (R.explore start)) :
    Progress R start ⟨[], none⟩ (.ofList (R.labels start)) [start] n (R.explore start)
      (begin start) where
  tracks := tracks_begin R start
  visits := hvisits
  stack_subset := by simp [R.start_mem_labels start]
  mem_remaining_iff := by
    intro label hlabel
    simpa [Visit.labels] using RuleSet.mem_ofList_labels.mpr hlabel
  explore_eq := rfl

namespace Progress

variable {v later : Visit} {remaining : Std.HashSet String} {stack rest : List String}
  {label : String} {n : Nat} {w : Worklist}

theorem pending_ne_nil (h : Progress R start v remaining stack (n + 1) later w) :
    w.pending ≠ [] := by
  rw [h.tracks.pending_eq]
  cases h.visits with
  | stuck | row | skip => exact List.cons_ne_nil _ _

theorem pending_eq_nil (h : Progress R start v remaining stack 0 later w) : w.pending = [] := by
  rw [h.tracks.pending_eq]
  cases h.visits with
  | nil => rfl

/-- A loop with nothing left to do has built what is explored. -/
theorem explore_eq_of_done (h : Progress R start v remaining stack 0 later w) :
    R.explore start = ⟨v.rows, none⟩ := by
  rw [h.explore_eq]
  cases h.visits with
  | nil => rw [List.append_nil]

theorem build_eq_ok (h : Progress R start v remaining stack 0 later w) :
    R.build start = .ok w.table := by
  rw [RuleSet.build_eq_ok_iff, h.explore_eq_of_done, h.tracks.table_eq]
  exact ⟨rfl, rfl⟩

theorem findings_eq (h : Progress R start v remaining stack 0 later w) :
    w.findings = R.findings (R.explore start) := by
  rw [h.explore_eq_of_done, h.tracks.findings_eq]
  rfl

/-- A row that is built is no longer among those that are yet to be built. -/
theorem push {cells : List (Cell String)}
    (h : Progress R start v remaining (label :: rest) (n + 1)
      ⟨⟨label, cells⟩ :: later.rows, later.stuck⟩ w)
    (hrow : R.row label = .ok cells)
    (hvisits : R.Visits (remaining.erase label) ((cells.map (·.next)).reverse ++ rest) n later)
    {w' : Worklist} (htracks : Tracks R (v.add ⟨label, cells⟩) start
      ((cells.map (·.next)).reverse ++ rest) w') :
    Progress R start (v.add ⟨label, cells⟩) (remaining.erase label)
      ((cells.map (·.next)).reverse ++ rest) n later w' where
  tracks := htracks
  visits := hvisits
  stack_subset := by
    refine List.append_subset.mpr ⟨fun next hnext => ?_, (List.cons_subset.mp h.stack_subset).2⟩
    rw [List.mem_reverse, RuleSet.map_next_of_row hrow] at hnext
    obtain ⟨token, htoken, rfl⟩ := List.mem_map.mp hnext
    exact R.scan_next_mem_labels start label htoken
  mem_remaining_iff := by
    intro other hother
    rw [Std.HashSet.mem_erase, h.mem_remaining_iff other hother, v.labels_add, List.mem_append,
      List.mem_singleton, not_or, beq_eq_false_iff_ne, ne_comm, and_comm]
  explore_eq := by
    rw [h.explore_eq, Visit.add, List.append_assoc]
    rfl

/-- One turn keeps a loop on course and takes one from what is left. -/
theorem turn (h : Progress R start v remaining stack n later w) :
    OnCourse R start (n - 1) (w.turn R) := by
  have hvisits := h.visits
  cases hvisits with
  | nil =>
      have hturn : w.turn R = .ok w := by simp only [Worklist.turn, h.pending_eq_nil]
      rw [hturn]
      exact .progress h
  | @stuck _ label token rest hlabel hrow =>
      have hbuilt := (h.mem_remaining_iff label (h.stack_subset List.mem_cons_self)).mp hlabel
      rw [h.tracks.turn_of_not_mem hbuilt, Tracks.buildRow_of_row_eq_error hrow]
      exact .undecided rfl (by rw [RuleSet.build_eq_error_iff, h.explore_eq])
  | @row _ label rest cells n later hlabel hrow hvisits =>
      have hbuilt := (h.mem_remaining_iff label (h.stack_subset List.mem_cons_self)).mp hlabel
      have hmem : label ∈ v.arena start := h.tracks.stack_subset List.mem_cons_self
      obtain ⟨w', hbuildRow, htracks⟩ := h.tracks.pop.buildRow_of_row_eq_ok hmem hbuilt hrow
      rw [h.tracks.turn_of_not_mem hbuilt, hbuildRow]
      exact .progress (h.push hrow hvisits htracks)
  | @skip _ label rest n _ hlabel hvisits =>
      obtain ⟨hfirst, hrest⟩ := List.cons_subset.mp h.stack_subset
      -- what is not left among the labels has its row
      have hbuilt : label ∈ v.labels :=
        not_not.mp (mt (h.mem_remaining_iff label hfirst).mpr hlabel)
      obtain ⟨w', hturn, htracks⟩ := h.tracks.turn_of_mem hbuilt
      rw [hturn]
      exact .progress ⟨htracks, hvisits, hrest, h.mem_remaining_iff, h.explore_eq⟩

/-- Any number of turns keeps a loop on course. A turn of a loop that is over
changes nothing. -/
theorem turns (h : Progress R start v remaining stack n later w) (m : Nat) :
    OnCourse R start (n - m) (turns R m w) := by
  induction m generalizing v remaining stack n later w with
  | zero => exact .progress h
  | succ m ih =>
      have hturn := h.turn
      rw [Worklist.turns]
      generalize w.turn R = result at hturn ⊢
      cases hturn with
      | progress h' =>
          have hrest := ih h'
          rwa [Nat.sub_sub, Nat.add_comm] at hrest
      | undecided hleft hbuild => exact .undecided (by omega) hbuild

end Progress

/-- A loop that will build a table ends with it, and with the findings of the exploration. -/
theorem exists_turns_eq_ok {Q : RawTable} (hbuild : R.build start = .ok Q) :
    ∃ n w, turns R n (begin start) = .ok w ∧ w.pending = [] ∧ w.table = Q ∧
      w.findings = R.findings (R.explore start) := by
  obtain ⟨n, hvisits⟩ := R.exists_visits (.ofList (R.labels start)) [start]
  have hcourse := (progress_begin hvisits).turns n
  rw [Nat.sub_self] at hcourse
  generalize hturns : turns R n (begin start) = result at hcourse
  cases hcourse with
  | @progress v later remaining stack w h =>
      have htable : w.table = Q := Except.ok.inj (h.build_eq_ok.symm.trans hbuild)
      exact ⟨n, w, hturns, h.pending_eq_nil, htable, h.findings_eq⟩
  | undecided _ hfail => cases hbuild.symm.trans hfail

/-- A loop that will build a table tracks the exploration after any number of turns. -/
theorem exists_tracks {Q : RawTable} (hbuild : R.build start = .ok Q) (n : Nat) :
    ∃ w v stack, turns R n (begin start) = .ok w ∧ Tracks R v start stack w ∧
      v.rows <+: (R.explore start).rows := by
  obtain ⟨m, hvisits⟩ := R.exists_visits (.ofList (R.labels start)) [start]
  have hcourse := (progress_begin hvisits).turns n
  generalize turns R n (begin start) = result at hcourse ⊢
  cases hcourse with
  | @progress v later remaining stack w h =>
      refine ⟨w, v, stack, rfl, h.tracks, ?_⟩
      rw [h.explore_eq]
      exact List.prefix_append _ _
  | undecided _ hfail => cases hbuild.symm.trans hfail

end Worklist

/-! ### What a table has -/

theorem map_idxOf_self {l : List String} (hl : l.Nodup) : l.map l.idxOf = List.range l.length := by
  refine List.ext_getElem (by simp) fun i hi _ => ?_
  rw [List.getElem_map, List.getElem_range]
  exact hl.idxOf_getElem i _

/-- A table has the labels that can be reached from a start, each once, and rows
that hold what the rules say. -/
structure RawTable.Covers (Q : RawTable) (R : RuleSet) (start : String) : Prop where
  nodup_labels : (Q.states.map (·.label)).Nodup
  mem_labels_iff : ∀ label, label ∈ Q.states.map (·.label) ↔ R.Reaches start label
  order_perm : Q.order.Perm (List.range Q.states.length)
  start_lt : Q.start < Q.states.length
  label_start : Q.label Q.start = start
  next_lt : ∀ state ∈ Q.states, ∀ c ∈ state.row, c.next < Q.states.length
  answers_row : ∀ state ∈ Q.states,
    List.Forall₂ (fun token c => R.Answers state.label token (c.map Q.label)) R.tokens state.row

theorem RuleSet.covers_table {R : RuleSet} {start : String}
    (hstuck : (R.explore start).stuck = none) :
    ((R.explore start).table start).Covers R start := by
  have hclosed := closed_explore hstuck
  constructor
  case nodup_labels =>
    rw [Visit.map_label_table_states]
    exact Visit.nodup_arena _ _
  case mem_labels_iff =>
    intro label
    rw [Visit.map_label_table_states, hclosed.mem_arena_iff_mem_labels,
      mem_labels_explore_iff hstuck]
  case order_perm =>
    rw [Visit.table_order, Visit.length_table_states, ← map_idxOf_self (Visit.nodup_arena _ _)]
    exact hclosed.labels_perm_arena.map _
  case start_lt => exact Visit.handle_lt (Visit.start_mem_arena _ _)
  case label_start => exact Visit.label_handle _ _ (Visit.start_mem_arena _ _)
  case next_lt => exact fun state hstate c hc => Visit.next_lt_of_mem_states hstate hc
  case answers_row =>
    intro state hstate
    rw [Visit.table_states] at hstate
    obtain ⟨label, hmem, rfl⟩ := List.mem_map.mp hstate
    have hlabel := hclosed.mem_arena_iff_mem_labels.mp hmem
    have hanswers := answers_rowOf hstuck ((mem_labels_explore_iff hstuck).mp hlabel)
    rw [← hclosed.map_label_row hlabel, List.forall₂_map_right_iff, Visit.row_handle _ _ hmem]
      at hanswers
    exact hanswers

/-- A table that is built has the labels that can be reached, no label twice, and
rows that hold what the rules say. The loop by handles ends with this table, and
before each of its turns every handle it can look up is in range. -/
theorem RuleSet.build_covers_reachable {R : RuleSet} {start : String} {Q : RawTable}
    (hbuild : R.build start = .ok Q) :
    Q.Covers R start ∧
      (∃ n w, turns R n (begin start) = .ok w ∧ w.pending = [] ∧ w.table = Q) ∧
      ∀ n, ∃ w, turns R n (begin start) = .ok w ∧ w.InRange := by
  refine ⟨?_, ?_, fun n => ?_⟩
  · obtain ⟨hstuck, rfl⟩ := build_eq_ok_iff.mp hbuild
    exact covers_table hstuck
  · obtain ⟨n, w, hturns, hpending, htable, -⟩ := Worklist.exists_turns_eq_ok hbuild
    exact ⟨n, w, hturns, hpending, htable⟩
  · obtain ⟨w, v, stack, hturns, htracks, -⟩ := Worklist.exists_tracks hbuild n
    exact ⟨w, hturns, htracks.inRange⟩

theorem build_sampleRules :
    sampleRules.build "S0" = .ok ((sampleRules.explore "S0").table "S0") :=
  RuleSet.build_eq_ok (RuleSet.explore_stuck_eq_none_iff.mpr
    fun label _ token _ => decides_sampleRules label token)

theorem build_covers_reachable_sampleRules :
    ∃ Q, sampleRules.build "S0" = .ok Q ∧ Q.Covers sampleRules "S0" ∧
      (∃ n w, turns sampleRules n (begin "S0") = .ok w ∧ w.pending = [] ∧ w.table = Q) ∧
      ∀ n, ∃ w, turns sampleRules n (begin "S0") = .ok w ∧ w.InRange :=
  ⟨_, build_sampleRules, RuleSet.build_covers_reachable build_sampleRules⟩

/-! ### The order of a table -/

/-- The labels that have a row, in build order. -/
def RawTable.built (Q : RawTable) : List String :=
  Q.order.map Q.label

/-- The handles are given out to the start, and then to the successors of the labels
in build order, each when it first occurs. -/
def RawTable.NumberedByMention (Q : RawTable) (R : RuleSet) (start : String) : Prop :=
  Q.states.map (·.label) = (start :: Q.built.flatMap R.successors).eraseDups

theorem Visit.numberedByMention_table {R : RuleSet} {v : Visit} {start : String}
    (hlabels : v.labels ⊆ v.arena start) (hrows : ∀ r ∈ v.rows, R.row r.label = .ok r.row) :
    (v.table start).NumberedByMention R start := by
  rw [RawTable.NumberedByMention, RawTable.built, map_label_table_states,
    map_label_order v start hlabels, arena_eq_eraseDups hrows]

/-- A table is built in depth-first order, and its handles are given out in the
order of first mention. Both hold of the loop by handles after any number of turns,
as far as it has come. -/
theorem RuleSet.build_depth_first {R : RuleSet} {start : String} {Q : RawTable}
    (hbuild : R.build start = .ok Q) :
    Q.built = R.preorder start ∧ Q.NumberedByMention R start ∧
      ∀ n, ∃ w, turns R n (begin start) = .ok w ∧
        w.table.built <+: R.preorder start ∧ w.table.NumberedByMention R start := by
  obtain ⟨hstuck, htable⟩ := build_eq_ok_iff.mp hbuild
  have hlabels := (closed_explore hstuck).labels_subset_arena
  have hpreorder := labels_explore_eq_preorder hstuck
  refine ⟨?_, ?_, fun n => ?_⟩
  · rw [htable, RawTable.built, Visit.map_label_order _ _ hlabels, hpreorder]
  · rw [htable]
    exact Visit.numberedByMention_table hlabels fun r => row_of_mem_explore
  · obtain ⟨w, v, stack, hturns, htracks, hrows⟩ := Worklist.exists_tracks hbuild n
    refine ⟨w, hturns, ?_⟩
    rw [htracks.table_eq, RawTable.built, Visit.map_label_order v start htracks.labels_subset,
      ← hpreorder]
    exact ⟨hrows.map _, Visit.numberedByMention_table htracks.labels_subset
      fun r hr => row_of_mem_explore (hrows.subset hr)⟩

theorem build_depth_first_sampleRules :
    ∃ Q, sampleRules.build "S0" = .ok Q ∧ Q.built = ["S0", "B", "A"] ∧
      Q.states.map (·.label) = ["S0", "A", "B"] := by
  have hpreorder : sampleRules.preorder "S0" = ["S0", "B", "A"] := by cbv
  obtain ⟨hbuilt, hnumbered, -⟩ := RuleSet.build_depth_first build_sampleRules
  rw [hpreorder] at hbuilt
  refine ⟨_, build_sampleRules, hbuilt, ?_⟩
  rw [hnumbered, hbuilt]
  cbv

end BreakRules
