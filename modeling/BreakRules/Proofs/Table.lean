import BreakRules.Proofs.Explore
import BreakRules.Proofs.Merge

/-!
# The machine of an exploration

An exploration is closed if its rows lead to labels that have a row, and every
label but the start is led to by some row. Then the arena holds exactly the
labels with a row, and a label and its handle stand for each other.

`v.place start label` is the state of the merged machine that a label goes to.
The row of that state is the row of the label with places in it:
`Visit.Closed.cell?_place`. Two labels go to one state if and only if their rows
are the same, by label: `Visit.Closed.place_eq_place_iff`.
-/

namespace BreakRules

namespace Visit

/-- The place of a label in the arena. -/
def handle (v : Visit) (start label : String) : Nat :=
  (v.arena start).idxOf label

/-- The state that a label goes to when the table of an exploration is merged. -/
def place (v : Visit) (start label : String) : Nat :=
  (v.table start).group (v.handle start label)

/-- The rows of an exploration lead to one another and are led to from the
start, which has the first row. -/
structure Closed (v : Visit) (start : String) : Prop where
  nodup_labels : v.labels.Nodup
  labels_eq_cons : ∃ rest, v.labels = start :: rest
  mem_labels_iff : ∀ label,
    label ∈ v.labels ↔ label = start ∨ ∃ r ∈ v.rows, ∃ c ∈ r.row, c.next = label

/-! ### The arena -/

theorem mem_arena_iff {v : Visit} {start label : String} :
    label ∈ v.arena start ↔ label = start ∨ ∃ r ∈ v.rows, ∃ c ∈ r.row, c.next = label := by
  simp [arena]

theorem nodup_arena (v : Visit) (start : String) : (v.arena start).Nodup :=
  nodup_distinct _

theorem rowOf_label {v : Visit} {r : Visited} (hnodup : v.labels.Nodup) (hr : r ∈ v.rows) :
    v.rowOf r.label = r.row := by
  have hfind : v.rows.find? (·.label == r.label) = some r := by
    unfold labels at hnodup
    generalize v.rows = rows at hnodup hr
    induction rows with
    | nil => cases hr
    | cons first rows ih =>
        rw [List.map_cons, List.nodup_cons] at hnodup
        rcases List.mem_cons.mp hr with rfl | hr'
        · exact List.find?_cons_of_pos (by simp)
        · have hne : first.label ≠ r.label := by
            intro heq
            exact hnodup.1 (heq ▸ List.mem_map_of_mem hr')
          rw [List.find?_cons_of_neg (by simpa using hne)]
          exact ih hnodup.2 hr'
  rw [rowOf, hfind]
  rfl

/-! ### The raw table -/

section Table

variable (v : Visit) (start : String)

theorem table_states :
    (v.table start).states =
      (v.arena start).map fun label =>
        ⟨label, (v.rowOf label).map (·.map (v.handle start))⟩ := by
  have hget : (Memo.of (v.arena start).idxOf (v.arena start)).get = v.handle start := by
    funext label
    rw [Memo.get_eq, handle]
  simp only [table, hget]

theorem map_label_table_states : (v.table start).states.map (·.label) = v.arena start := by
  rw [table_states, List.map_map]
  exact List.map_id _

theorem table_order : (v.table start).order = v.labels.map (v.handle start) := by
  simp only [table, labels, List.map_map]
  rfl

theorem getElem?_table_states {label : String} (h : label ∈ v.arena start) :
    (v.table start).states[v.handle start label]? =
      some ⟨label, (v.rowOf label).map (·.map (v.handle start))⟩ := by
  rw [table_states, List.getElem?_map, handle, List.getElem?_idxOf h]
  rfl

theorem label_handle {label : String} (h : label ∈ v.arena start) :
    (v.table start).label (v.handle start label) = label := by
  rw [RawTable.label, getElem?_table_states v start h]
  rfl

theorem row_handle {label : String} (h : label ∈ v.arena start) :
    (v.table start).row (v.handle start label) =
      (v.rowOf label).map (·.map (v.handle start)) := by
  rw [RawTable.row, getElem?_table_states v start h]
  rfl

/-- The labels of the handles in build order are the labels in build order. -/
theorem map_label_order (h : v.labels ⊆ v.arena start) :
    (v.table start).order.map (v.table start).label = v.labels := by
  rw [table_order, List.map_map]
  calc v.labels.map ((v.table start).label ∘ v.handle start)
      = v.labels.map id := List.map_congr_left fun label hl => label_handle v start (h hl)
    _ = v.labels := List.map_id _

theorem handle_mem_order {label : String} (hl : label ∈ v.labels) :
    v.handle start label ∈ (v.table start).order := by
  rw [table_order]
  exact List.mem_map_of_mem hl

end Table

namespace Closed

variable {v : Visit} {start : String} (hv : v.Closed start)
include hv

theorem mem_arena_iff_mem_labels {label : String} :
    label ∈ v.arena start ↔ label ∈ v.labels := by
  rw [mem_arena_iff, hv.mem_labels_iff]

theorem labels_subset_arena : v.labels ⊆ v.arena start :=
  fun _ => hv.mem_arena_iff_mem_labels.mpr

theorem labels_perm_arena : v.labels.Perm (v.arena start) :=
  (List.perm_ext_iff_of_nodup hv.nodup_labels (v.nodup_arena start)).mpr fun _ =>
    hv.mem_arena_iff_mem_labels.symm

theorem start_mem_labels : start ∈ v.labels :=
  (hv.mem_labels_iff start).mpr (.inl rfl)

theorem next_mem_labels {r : Visited} {c : Cell String} (hr : r ∈ v.rows) (hc : c ∈ r.row) :
    c.next ∈ v.labels :=
  (hv.mem_labels_iff _).mpr (.inr ⟨r, hr, c, hc, rfl⟩)

theorem next_mem_of_mem_rowOf {label : String} {c : Cell String} (hl : label ∈ v.labels)
    (hc : c ∈ v.rowOf label) : c.next ∈ v.labels := by
  obtain ⟨r, hr, rfl⟩ := List.mem_map.mp hl
  rw [rowOf_label hv.nodup_labels hr] at hc
  exact hv.next_mem_labels hr hc

theorem exists_label_of_mem_order {handle : Nat} (h : handle ∈ (v.table start).order) :
    ∃ label ∈ v.labels, v.handle start label = handle ∧ (v.table start).label handle = label := by
  rw [table_order] at h
  obtain ⟨label, hl, rfl⟩ := List.mem_map.mp h
  exact ⟨label, hl, rfl, label_handle v start (hv.mem_arena_iff_mem_labels.mpr hl)⟩

/-- Handles of labels can be read back, so a row by handle loses nothing. -/
theorem map_label_row {label : String} (hl : label ∈ v.labels) :
    ((v.table start).row (v.handle start label)).map (·.map (v.table start).label) =
      v.rowOf label := by
  rw [row_handle v start (hv.mem_arena_iff_mem_labels.mpr hl), List.map_map]
  calc (v.rowOf label).map ((·.map (v.table start).label) ∘ (·.map (v.handle start)))
      = (v.rowOf label).map id := by
        refine List.map_congr_left fun c hc => ?_
        have hnext := hv.mem_arena_iff_mem_labels.mpr (hv.next_mem_of_mem_rowOf hl hc)
        simp only [Function.comp_apply, Cell.map, label_handle v start hnext, id_eq]
    _ = v.rowOf label := List.map_id _

/-! ### The merged machine -/

/-- Two labels go to one state exactly if they have the same row. -/
theorem place_eq_place_iff {label other : String} (hl : label ∈ v.labels)
    (ho : other ∈ v.labels) :
    v.place start label = v.place start other ↔ v.rowOf label = v.rowOf other := by
  rw [place, place, RawTable.group_eq_group_iff (handle_mem_order v start hl)
    (handle_mem_order v start ho)]
  constructor
  · intro h
    rw [← hv.map_label_row hl, ← hv.map_label_row ho, h]
  · intro h
    rw [row_handle v start (hv.mem_arena_iff_mem_labels.mpr hl),
      row_handle v start (hv.mem_arena_iff_mem_labels.mpr ho), h]

theorem order_eq_cons :
    ∃ rest, (v.table start).order = v.handle start start :: rest := by
  obtain ⟨rest, hrest⟩ := hv.labels_eq_cons
  exact ⟨rest.map (v.handle start), by rw [table_order, hrest, List.map_cons]⟩

theorem place_start : v.place start start = 0 := by
  obtain ⟨rest, hrest⟩ := hv.order_eq_cons
  exact RawTable.group_of_order_eq_cons hrest

theorem nodup_order : (v.table start).order.Nodup := by
  rw [table_order]
  refine hv.nodup_labels.map_on ?_
  intro label hl other _ heq
  exact (List.idxOf_inj (hv.mem_arena_iff_mem_labels.mpr hl)).mp heq

section Merged

variable (tokens : List String)

/-- The state that a label goes to has the row of the label, with places in it. -/
theorem getElem?_states_place {label : String} (hl : label ∈ v.labels) :
    ((v.table start).merge tokens).states[v.place start label]? =
      some ⟨v.place start label,
        ((v.table start).members (v.place start label)).map (v.table start).label,
        (v.rowOf label).map (·.map (v.place start))⟩ := by
  rw [place, RawTable.getElem?_states_merge_group _ _ (handle_mem_order v start hl),
    row_handle v start (hv.mem_arena_iff_mem_labels.mpr hl), List.map_map]
  rfl

theorem cell?_place {label : String} (hl : label ∈ v.labels) (column : Nat) :
    ((v.table start).merge tokens).cell? (v.place start label) column =
      (v.rowOf label)[column]?.map (·.map (v.place start)) := by
  simp [Machine.cell?, hv.getElem?_states_place tokens hl]

theorem place_lt {label : String} (hl : label ∈ v.labels) :
    v.place start label < ((v.table start).merge tokens).states.length :=
  (List.getElem?_eq_some_iff.mp (hv.getElem?_states_place tokens hl)).1

/-- Every state is the place of a label. -/
theorem exists_place_eq {i : Nat} (hi : i < ((v.table start).merge tokens).states.length) :
    ∃ label ∈ v.labels, v.place start label = i := by
  rw [RawTable.length_states_merge] at hi
  obtain ⟨handle, hmember⟩ := RawTable.exists_mem_members hi
  obtain ⟨hmem, hgroup⟩ := RawTable.mem_members_iff.mp hmember
  obtain ⟨label, hl, rfl, -⟩ := hv.exists_label_of_mem_order hmem
  exact ⟨label, hl, hgroup⟩

theorem stateOf?_of_mem {label : String} (hl : label ∈ v.labels) :
    ((v.table start).merge tokens).stateOf? label = some (v.place start label) := by
  have hlabel := label_handle v start (hv.mem_arena_iff_mem_labels.mpr hl)
  have hfound := RawTable.stateOf?_merge_label tokens (handle_mem_order v start hl) (by
    intro handle hmem heq
    obtain ⟨other, -, rfl, hother⟩ := hv.exists_label_of_mem_order hmem
    rw [← hother, heq, hlabel])
  rwa [hlabel] at hfound

theorem stateOf?_of_not_mem {label : String} (hl : label ∉ v.labels) :
    ((v.table start).merge tokens).stateOf? label = none := by
  apply RawTable.stateOf?_merge_eq_none
  intro handle hmem heq
  obtain ⟨other, hother, -, hlabel⟩ := hv.exists_label_of_mem_order hmem
  exact hl (heq ▸ hlabel ▸ hother)

theorem flatMap_labels_perm :
    (((v.table start).merge tokens).states.flatMap (·.labels)).Perm v.labels := by
  have hlabels : (v.table start).listed.map (v.table start).label = v.labels := by
    rw [RawTable.listed_eq_order hv.nodup_order, map_label_order v start hv.labels_subset_arena]
  rw [RawTable.flatMap_labels_merge, ← hlabels]
  exact (v.table start).flatMap_members_perm.map _

end Merged

end Closed

end Visit

/-- An exploration that is not stuck is closed. -/
theorem RuleSet.closed_explore {R : RuleSet} {start : String}
    (hstuck : (R.explore start).stuck = none) : (R.explore start).Closed start where
  nodup_labels := R.nodup_labels_explore start
  labels_eq_cons := labels_explore_eq_cons hstuck
  mem_labels_iff := by
    intro label
    rw [mem_labels_explore_iff hstuck]
    constructor
    · intro hreach
      cases hreach with
      | refl => exact .inl rfl
      | @step label token hreach htoken =>
          obtain ⟨r, hr, rfl⟩ := List.mem_map.mp ((mem_labels_explore_iff hstuck).mpr hreach)
          exact .inr ⟨r, hr, (mem_row_next_iff (row_of_mem_explore hr)).mpr ⟨token, htoken, rfl⟩⟩
    · rintro (rfl | ⟨r, hr, hnext⟩)
      · exact .refl
      · obtain ⟨token, htoken, rfl⟩ := (mem_row_next_iff (row_of_mem_explore hr)).mp hnext
        exact ((mem_labels_explore_iff hstuck).mp (List.mem_map_of_mem hr)).step htoken

/-- The row of a label that can be reached has, for every token, the cell that
holds what the rules say. -/
theorem RuleSet.answers_rowOf {R : RuleSet} {start label : String}
    (hstuck : (R.explore start).stuck = none) (hreach : R.Reaches start label) :
    List.Forall₂ (R.Answers label) R.tokens ((R.explore start).rowOf label) := by
  obtain ⟨r, hr, rfl⟩ := List.mem_map.mp ((mem_labels_explore_iff hstuck).mpr hreach)
  rw [Visit.rowOf_label (R.nodup_labels_explore start) hr]
  exact row_eq_ok_iff.mp (row_of_mem_explore hr)

theorem RuleSet.build_eq_ok_iff {R : RuleSet} {start : String} {t : RawTable} :
    R.build start = .ok t ↔
      (R.explore start).stuck = none ∧ t = (R.explore start).table start := by
  rw [build]
  cases (R.explore start).stuck with
  | some u => simp
  | none => simp [eq_comm]

theorem RuleSet.build_eq_error_iff {R : RuleSet} {start : String} {u : Undecided} :
    R.build start = .error u ↔ (R.explore start).stuck = some u := by
  rw [build]
  cases (R.explore start).stuck <;> simp

theorem RuleSet.build_eq_ok {R : RuleSet} {start : String}
    (hstuck : (R.explore start).stuck = none) :
    R.build start = .ok ((R.explore start).table start) :=
  build_eq_ok_iff.mpr ⟨hstuck, rfl⟩

end BreakRules
