import BreakRules.Table.Merge
import Mathlib.Data.List.Nodup
import Mathlib.Data.List.Perm.Basic

/-!
# Groups of handles

`t.group handle` is the position of the group that a handle belongs to: the
position of its row among the rows of the listed handles. It is what merging
computes, without the tables that save time, so `RawTable.merge_eq` says all
there is to say about a merged machine. Two listed handles are in one group if
and only if they have the same row: `RawTable.group_eq_group_iff`.

`t.members i` are the handles of a group. The groups share the listed handles
out among themselves: `RawTable.flatMap_members_perm`.
-/

namespace BreakRules

namespace RawTable

/-- The group of a handle, and the first group for a handle that is not listed. -/
def group (t : RawTable) (handle : Nat) : Nat :=
  if handle ∈ t.order then t.rows.idxOf (t.row handle) else 0

/-- The handles in a group, in the order in which they are listed. -/
def members (t : RawTable) (i : Nat) : List Nat :=
  t.listed.filter (t.group · == i)

@[simp] theorem mem_listed {t : RawTable} {handle : Nat} :
    handle ∈ t.listed ↔ handle ∈ t.order := mem_distinct

theorem nodup_listed (t : RawTable) : t.listed.Nodup := nodup_distinct _

theorem listed_eq_order {t : RawTable} (h : t.order.Nodup) : t.listed = t.order := by
  unfold listed
  generalize t.order = order at h
  induction order with
  | nil => rfl
  | cons handle order ih =>
      obtain ⟨hmem, hnodup⟩ := List.nodup_cons.mp h
      rw [distinct_cons, ih hnodup, List.filter_eq_self.mpr]
      intro other hother
      simpa using ne_of_mem_of_not_mem hother hmem

theorem mem_rows_iff {t : RawTable} {row : List (Cell Nat)} :
    row ∈ t.rows ↔ ∃ handle ∈ t.order, t.row handle = row := by
  simp [rows]

theorem nodup_rows (t : RawTable) : t.rows.Nodup := nodup_distinct _

theorem group_of_mem {t : RawTable} {handle : Nat} (h : handle ∈ t.order) :
    t.group handle = t.rows.idxOf (t.row handle) := if_pos h

theorem groupIndex_positions (t : RawTable) (handle : Nat) :
    t.groupIndex (positions t.rows) handle = t.group handle := by
  unfold groupIndex group
  split
  · next h =>
      have hmem : t.row handle ∈ t.rows := mem_rows_iff.mpr ⟨handle, h, rfl⟩
      obtain ⟨i, hi⟩ := Option.isSome_iff_exists.mp (List.isSome_idxOf?.mpr hmem)
      rw [getElem?_positions, List.idxOf_eq_getD_idxOf?, hi]
      rfl
  · rfl

/-- The merged machine has a state for every group. -/
theorem merge_eq (t : RawTable) (tokens : List String) :
    t.merge tokens =
      { tokens := tokens
        start := t.group t.start
        states := t.rows.zipIdx.map fun (row, i) =>
          ⟨i, (t.members i).map t.label, row.map (·.map t.group)⟩ } := by
  have hget : ∀ handles : List Nat,
      (Memo.of (t.groupIndex (positions t.rows)) handles).get = t.group := by
    intro handles
    funext handle
    rw [Memo.get_eq, groupIndex_positions]
  simp only [merge, hget]
  rfl

/-! ### One group -/

theorem getElem?_rows_group {t : RawTable} {handle : Nat} (h : handle ∈ t.order) :
    t.rows[t.group handle]? = some (t.row handle) := by
  rw [group_of_mem h]
  exact List.getElem?_idxOf (mem_rows_iff.mpr ⟨handle, h, rfl⟩)

theorem group_lt_length_rows {t : RawTable} {handle : Nat} (h : handle ∈ t.order) :
    t.group handle < t.rows.length :=
  (List.getElem?_eq_some_iff.mp (getElem?_rows_group h)).1

/-- Two listed handles are in one group exactly if they have the same row. -/
theorem group_eq_group_iff {t : RawTable} {handle other : Nat} (h : handle ∈ t.order)
    (ho : other ∈ t.order) : t.group handle = t.group other ↔ t.row handle = t.row other := by
  rw [group_of_mem h, group_of_mem ho]
  exact List.idxOf_inj (mem_rows_iff.mpr ⟨handle, h, rfl⟩)

theorem mem_members_iff {t : RawTable} {i handle : Nat} :
    handle ∈ t.members i ↔ handle ∈ t.order ∧ t.group handle = i := by
  simp [members]

theorem exists_mem_members {t : RawTable} {i : Nat} (hi : i < t.rows.length) :
    ∃ handle, handle ∈ t.members i := by
  obtain ⟨handle, hmem, hrow⟩ := mem_rows_iff.mp (List.getElem_mem hi)
  refine ⟨handle, mem_members_iff.mpr ⟨hmem, ?_⟩⟩
  rw [group_of_mem hmem, hrow]
  exact t.nodup_rows.idxOf_getElem i hi

/-- The handle that is listed first is in the first group. -/
theorem group_of_order_eq_cons {t : RawTable} {handle : Nat} {rest : List Nat}
    (h : t.order = handle :: rest) : t.group handle = 0 := by
  have hmem : handle ∈ t.order := by simp [h]
  rw [group_of_mem hmem, rows, listed, h, distinct_cons, List.map_cons, distinct_cons]
  exact List.idxOf_cons_self

theorem head?_members_zero {t : RawTable} {handle : Nat} {rest : List Nat}
    (h : t.order = handle :: rest) : (t.members 0).head? = some handle := by
  rw [members, listed, h, distinct_cons, List.filter_cons_of_pos]
  · rfl
  · simp [group_of_order_eq_cons h]

/-- The groups share the listed handles out among themselves. -/
theorem flatMap_members_perm (t : RawTable) :
    ((List.range t.rows.length).flatMap t.members).Perm t.listed := by
  have hdisjoint : (List.range t.rows.length).Pairwise
      (Function.onFun List.Disjoint t.members) := by
    refine List.nodup_range.imp ?_
    intro i j hij handle hi hj
    exact hij ((mem_members_iff.mp hi).2.symm.trans (mem_members_iff.mp hj).2)
  have hnodup : ((List.range t.rows.length).flatMap t.members).Nodup :=
    List.nodup_flatMap.mpr ⟨fun i _ => t.nodup_listed.filter _, hdisjoint⟩
  refine (List.perm_ext_iff_of_nodup hnodup t.nodup_listed).mpr fun handle => ?_
  simp only [List.mem_flatMap, List.mem_range, mem_members_iff, mem_listed]
  constructor
  · rintro ⟨i, -, hmem, -⟩
    exact hmem
  · intro hmem
    exact ⟨t.group handle, group_lt_length_rows hmem, hmem, rfl⟩

/-! ### The merged machine -/

section Merged

variable (t : RawTable) (tokens : List String)

@[simp] theorem tokens_merge : (t.merge tokens).tokens = tokens := rfl

@[simp] theorem start_merge : (t.merge tokens).start = t.group t.start := by
  rw [merge_eq]

@[simp] theorem length_states_merge : (t.merge tokens).states.length = t.rows.length := by
  simp [merge_eq]

theorem getElem?_states_merge (i : Nat) :
    (t.merge tokens).states[i]? =
      t.rows[i]?.map fun row => ⟨i, (t.members i).map t.label, row.map (·.map t.group)⟩ := by
  simp [merge_eq, List.getElem?_zipIdx, Option.map_map, Function.comp_def]

variable {t tokens} in
theorem of_getElem?_states_merge {i : Nat} {s : State}
    (h : (t.merge tokens).states[i]? = some s) :
    i < t.rows.length ∧ s.index = i ∧ s.labels = (t.members i).map t.label := by
  rw [getElem?_states_merge] at h
  obtain ⟨row, hrow, rfl⟩ := Option.map_eq_some_iff.mp h
  exact ⟨(List.getElem?_eq_some_iff.mp hrow).1, rfl, rfl⟩

theorem flatMap_labels_merge :
    (t.merge tokens).states.flatMap (·.labels) =
      ((List.range t.rows.length).flatMap t.members).map t.label := by
  have hrange : List.range t.rows.length = t.rows.zipIdx.map Prod.snd := by
    rw [List.zipIdx_map_snd, List.range_eq_range']
  rw [merge_eq, hrange, List.flatMap_map, List.flatMap_map, List.map_flatMap]

/-- The state of a listed handle has its row, with groups in the place of handles. -/
theorem getElem?_states_merge_group {handle : Nat} (h : handle ∈ t.order) :
    (t.merge tokens).states[t.group handle]? =
      some ⟨t.group handle, (t.members (t.group handle)).map t.label,
        (t.row handle).map (·.map t.group)⟩ := by
  rw [getElem?_states_merge, getElem?_rows_group h]
  rfl

variable {t}

/-- A label that only one listed handle has is found in the state of that handle. -/
theorem stateOf?_merge_label {handle : Nat} (h : handle ∈ t.order)
    (hunique : ∀ other ∈ t.order, t.label other = t.label handle → other = handle) :
    (t.merge tokens).stateOf? (t.label handle) = some (t.group handle) := by
  have hstate := List.mem_of_getElem? (getElem?_states_merge_group t tokens h)
  have hlabel : t.label handle ∈ (t.members (t.group handle)).map t.label :=
    List.mem_map_of_mem (mem_members_iff.mpr ⟨h, rfl⟩)
  rw [Machine.stateOf?]
  cases hfind : (t.merge tokens).states.find? (·.labels.contains (t.label handle)) with
  | none => exact absurd (by simpa using hlabel) (List.find?_eq_none.mp hfind _ hstate)
  | some s =>
      -- whichever state is found, the label is there by the same handle
      obtain ⟨i, hi⟩ := List.getElem?_of_mem (List.mem_of_find?_eq_some hfind)
      obtain ⟨-, hindex, hlabels⟩ := of_getElem?_states_merge hi
      have hmem : t.label handle ∈ (t.members i).map t.label := by
        simpa [hlabels] using List.find?_some hfind
      obtain ⟨other, hmember, heq⟩ := List.mem_map.mp hmem
      obtain ⟨horder, hgroup⟩ := mem_members_iff.mp hmember
      rw [hunique other horder heq] at hgroup
      rw [Option.map_some, hindex, hgroup]

theorem stateOf?_merge_eq_none {label : String} (h : ∀ handle ∈ t.order, t.label handle ≠ label) :
    (t.merge tokens).stateOf? label = none := by
  rw [Machine.stateOf?, Option.map_eq_none_iff, List.find?_eq_none]
  intro s hs hlabel
  rw [List.contains_iff_mem] at hlabel
  have hmem : label ∈ (t.merge tokens).states.flatMap (·.labels) :=
    List.mem_flatMap.mpr ⟨s, hs, hlabel⟩
  rw [flatMap_labels_merge, (t.flatMap_members_perm.map t.label).mem_iff] at hmem
  obtain ⟨handle, hlisted, rfl⟩ := List.mem_map.mp hmem
  exact h handle (mem_listed.mp hlisted) rfl

end Merged

end RawTable

end BreakRules
