import BreakRules.Proofs.Merge
import Mathlib.Data.List.Induction

/-!
# Merging by marks

Merging collects the distinct rows of a table and then the handles of each. The
same machine can be found in one pass over the order, without collecting rows
first: a handle that has no mark begins a new group, gets its number for a mark and
gives the same mark to what comes behind it in the order and has its row.
`Marking.pass` is this pass, and `RawTable.mergeByMarking` is the machine that it
leads to. A look-up of a handle that has no state makes it `none`.

What the pass has done is known from the rows it has met. A handle is marked if its
row has been met, wherever it is listed, so nothing that comes behind is looked at
twice, and a handle that is listed twice is a member once
(`RawTable.markOf`, `Marking.pass_eq`). With all handles in range the two ways of
merging give one machine: `RawTable.mergeByMarking_eq`.

`RawTable.GroupedByRow` says what this machine is, without a way to find it: a state
for each distinct row of a listed handle, in the order of their first occurrence.
-/

namespace BreakRules

theorem mapM_eq_some_map {α β : Type} {f : α → Option β} {g : α → β} {l : List α}
    (h : ∀ a ∈ l, f a = some (g a)) : l.mapM f = some (l.map g) := by
  induction l with
  | nil => rfl
  | cons a l ih =>
      obtain ⟨ha, hl⟩ := List.forall_mem_cons.mp h
      rw [List.mapM_cons, ha, ih hl]
      rfl

/-! ### The pass -/

/-- A pass over the order of a table: the group of every handle that has one, and
the members of the groups. -/
structure Marking where
  marks : List (Option Nat)
  groups : List (List Nat)

namespace Marking

/-- Marks the handles of a list that have no mark and a given row. They are the
members of a group, beside the handle that it began with. -/
def sweep (t : RawTable) (row : List (Cell Nat)) (group : Nat) :
    List (Option Nat) → List Nat → Option (List (Option Nat) × List Nat)
  | marks, [] => some (marks, [])
  | marks, other :: rest =>
      match marks[other]? with
      | none => none
      | some (some _) => sweep t row group marks rest
      | some none =>
          match t.states[other]? with
          | none => none
          | some state =>
              if state.row = row then
                (sweep t row group (marks.set other (some group)) rest).map
                  fun (marks', members) => (marks', other :: members)
              else sweep t row group marks rest

/-- Goes on with the rest of the order. A handle without a mark begins a group. -/
def pass (t : RawTable) : Marking → List Nat → Option Marking
  | m, [] => some m
  | m, handle :: rest =>
      match m.marks[handle]? with
      | none => none
      | some (some _) => pass t m rest
      | some none =>
          match t.states[handle]? with
          | none => none
          | some state =>
              let group := m.groups.length
              match sweep t state.row group (m.marks.set handle (some group)) rest with
              | none => none
              | some (marks, members) =>
                  pass t ⟨marks, m.groups ++ [handle :: members]⟩ rest

/-- The state of a group, which has the row of its first member. -/
def state (t : RawTable) (m : Marking) (members : List Nat) (index : Nat) : Option State := do
  let first ← members.head?
  let state ← t.states[first]?
  let labels ← members.mapM fun handle => t.states[handle]?.map (·.label)
  let row ← state.row.mapM fun c => m.marks[c.next]?.map fun mark => ⟨c.verdict, mark.getD 0⟩
  return ⟨index, labels, row⟩

end Marking

/-- The machine of a table, by marks. -/
def RawTable.mergeByMarking (t : RawTable) (tokens : List String) : Option Machine := do
  let m ← Marking.pass t ⟨List.replicate t.states.length none, []⟩ t.order
  let states ← m.groups.zipIdx.mapM fun (members, index) => Marking.state t m members index
  let start ← m.marks[t.start]?
  return ⟨tokens, start.getD 0, states⟩

/-- Every handle that a table mentions has a state. -/
structure RawTable.InRange (t : RawTable) : Prop where
  order_lt : ∀ handle ∈ t.order, handle < t.states.length
  next_lt : ∀ state ∈ t.states, ∀ c ∈ state.row, c.next < t.states.length
  start_lt : t.start < t.states.length

/-! ### Marks -/

namespace RawTable

variable (t : RawTable)

/-- Marks that are given by a function of the handle. -/
def marksOf (f : Nat → Option Nat) : List (Option Nat) :=
  (List.range t.states.length).map f

variable {t}

theorem getElem?_marksOf {handle : Nat} (h : handle < t.states.length) (f : Nat → Option Nat) :
    (t.marksOf f)[handle]? = some (f handle) := by
  rw [marksOf, List.getElem?_map, List.getElem?_range h, Option.map_some]

theorem set_marksOf (f : Nat → Option Nat) (handle : Nat) (mark : Option Nat) :
    (t.marksOf f).set handle mark = t.marksOf (Function.update f handle mark) := by
  refine List.ext_getElem (by simp [marksOf]) fun i hi _ => ?_
  rw [List.getElem_set]
  by_cases h : handle = i
  · simp [marksOf, h]
  · simp [marksOf, h, Ne.symm h]

theorem row_of_getElem? {handle : Nat} {state : RawState} (h : t.states[handle]? = some state) :
    t.row handle = state.row := by
  rw [row, h]
  rfl

/-- The mark of a handle when certain rows have been met: the place of its row among
them. -/
def markOf (t : RawTable) (rows : List (List (Cell Nat))) (handle : Nat) : Option Nat :=
  if handle ∈ t.order then rows.idxOf? (t.row handle) else none

/-- The members of the groups when certain rows have been met. -/
def groupsOf (t : RawTable) (rows : List (List (Cell Nat))) : List (List Nat) :=
  rows.map fun row => t.listed.filter fun handle => t.row handle = row

end RawTable

namespace Marking

variable {t : RawTable}

/-- The marks behind a sweep: what the list has without a mark and with the row
belongs to the group. -/
def swept (t : RawTable) (row : List (Cell Nat)) (group : Nat) (rest : List Nat)
    (f : Nat → Option Nat) (handle : Nat) : Option Nat :=
  if handle ∈ rest ∧ f handle = none ∧ t.row handle = row then some group else f handle

/-- The handles that a sweep marks. -/
def found (t : RawTable) (row : List (Cell Nat)) (rest : List Nat) (f : Nat → Option Nat) :
    List Nat :=
  distinct (rest.filter fun handle => f handle = none ∧ t.row handle = row)

section Cons

variable {row : List (Cell Nat)} {f : Nat → Option Nat} {other : Nat}

theorem swept_cons_of_open (hopen : f other = none ∧ t.row other = row) (group : Nat)
    (rest : List Nat) :
    swept t row group (other :: rest) f =
      swept t row group rest (Function.update f other (some group)) := by
  funext handle
  by_cases h : handle = other
  · simp [swept, h, hopen]
  · simp [swept, h]

theorem swept_cons_of_not_open (hopen : ¬ (f other = none ∧ t.row other = row)) (group : Nat)
    (rest : List Nat) : swept t row group (other :: rest) f = swept t row group rest f := by
  funext handle
  by_cases h : handle = other
  · simp [swept, h, hopen]
  · simp [swept, h]

/-- A handle that was marked is not found again. -/
theorem found_cons_of_open (hopen : f other = none ∧ t.row other = row) (group : Nat)
    (rest : List Nat) :
    found t row (other :: rest) f =
      other :: found t row rest (Function.update f other (some group)) := by
  have hmarked : (rest.filter fun handle =>
        Function.update f other (some group) handle = none ∧ t.row handle = row) =
      (rest.filter fun handle => f handle = none ∧ t.row handle = row).filter (· != other) := by
    rw [List.filter_filter]
    refine List.filter_congr fun handle _ => ?_
    by_cases h : handle = other
    · simp [h]
    · simp [h]
  rw [found, found, hmarked, List.filter_cons_of_pos (by simpa using hopen), distinct_cons,
    ← distinct_filter]

theorem found_cons_of_not_open (hopen : ¬ (f other = none ∧ t.row other = row))
    (rest : List Nat) : found t row (other :: rest) f = found t row rest f := by
  rw [found, found, List.filter_cons_of_neg (by simpa using hopen)]

end Cons

theorem sweep_marksOf {rest : List Nat} (hrest : ∀ handle ∈ rest, handle < t.states.length)
    (row : List (Cell Nat)) (group : Nat) (f : Nat → Option Nat) :
    sweep t row group (t.marksOf f) rest =
      some (t.marksOf (swept t row group rest f), found t row rest f) := by
  induction rest generalizing f with
  | nil =>
      have hswept : swept t row group [] f = f := by
        funext handle
        simp [swept]
      rw [hswept]
      rfl
  | cons other rest ih =>
      obtain ⟨hother, hrest⟩ := List.forall_mem_cons.mp hrest
      have hstate := List.getElem?_eq_getElem hother
      have hrow := RawTable.row_of_getElem? hstate
      rw [sweep, RawTable.getElem?_marksOf hother, hstate]
      by_cases hopen : f other = none ∧ t.row other = row
      · rw [swept_cons_of_open hopen, found_cons_of_open hopen group]
        simp only [hopen.1, ← hrow, hopen.2, if_true]
        rw [RawTable.set_marksOf, ih hrest, Option.map_some]
      · rw [swept_cons_of_not_open hopen, found_cons_of_not_open hopen, ← ih hrest f]
        cases hmark : f other with
        | some mark => rfl
        | none =>
            have hne : t.states[other].row ≠ row := fun h => hopen ⟨hmark, hrow.trans h⟩
            simp only [if_neg hne]

/-- A handle without a mark that begins a group is swept up with the rest. -/
theorem sweep_set_marksOf {handle : Nat} {rest : List Nat} {f : Nat → Option Nat}
    (hlt : ∀ other ∈ handle :: rest, other < t.states.length) (hnone : f handle = none)
    (group : Nat) :
    ∃ members,
      sweep t (t.row handle) group ((t.marksOf f).set handle (some group)) rest =
        some (t.marksOf (swept t (t.row handle) group (handle :: rest) f), members) ∧
      handle :: members = found t (t.row handle) (handle :: rest) f := by
  have hopen : f handle = none ∧ t.row handle = t.row handle := ⟨hnone, rfl⟩
  have hrest := (List.forall_mem_cons.mp hlt).2
  rw [swept_cons_of_open hopen, found_cons_of_open hopen group, RawTable.set_marksOf]
  exact ⟨_, sweep_marksOf hrest _ group _, rfl⟩

end Marking

/-! ### Rows that have been met -/

theorem distinct_concat_of_mem {α : Type} [BEq α] [Hashable α] [LawfulBEq α] {l : List α} {a : α}
    (h : a ∈ l) : distinct (l ++ [a]) = distinct l := by
  simp [distinct_append, distinct_cons, h]

theorem distinct_concat_of_not_mem {α : Type} [BEq α] [Hashable α] [LawfulBEq α] {l : List α}
    {a : α} (h : a ∉ l) : distinct (l ++ [a]) = distinct l ++ [a] := by
  simp [distinct_append, distinct_cons, h]

theorem idxOf?_concat {α : Type} [BEq α] (l : List α) (a b : α) :
    (l ++ [a]).idxOf? b = (l.idxOf? b).or (if a == b then some l.length else none) := by
  rw [List.idxOf?, List.findIdx?_append, List.findIdx?_singleton]
  by_cases h : a == b
  · simp [h]
  · simp [h]

theorem distinct_map_distinct {α β : Type} [BEq α] [Hashable α] [LawfulBEq α] [BEq β] [Hashable β]
    [LawfulBEq β] (f : α → β) (l : List α) :
    distinct ((distinct l).map f) = distinct (l.map f) := by
  induction l using List.reverseRecOn with
  | nil => rfl
  | append_singleton l a ih =>
      rw [List.map_append, List.map_singleton]
      by_cases ha : a ∈ l
      · rw [distinct_concat_of_mem ha, ih, distinct_concat_of_mem (List.mem_map_of_mem ha)]
      · rw [distinct_concat_of_not_mem ha, List.map_append, List.map_singleton]
        have hmem : f a ∈ (distinct l).map f ↔ f a ∈ l.map f := by simp
        by_cases hfa : f a ∈ l.map f
        · rw [distinct_concat_of_mem hfa, distinct_concat_of_mem (hmem.mpr hfa), ih]
        · rw [distinct_concat_of_not_mem hfa, distinct_concat_of_not_mem (mt hmem.mp hfa), ih]

namespace RawTable

variable {t : RawTable} {before rest : List Nat} {handle : Nat}

/-- The rows that a first part of the order meets. -/
def rowsMet (t : RawTable) (before : List Nat) : List (List (Cell Nat)) :=
  distinct (before.map t.row)

theorem mem_rowsMet_iff {row : List (Cell Nat)} :
    row ∈ t.rowsMet before ↔ ∃ handle ∈ before, t.row handle = row := by
  simp [rowsMet]

theorem rows_eq_rowsMet (t : RawTable) : t.rows = t.rowsMet t.order :=
  distinct_map_distinct t.row t.order

theorem rowsMet_concat_of_mem (h : t.row handle ∈ t.rowsMet before) :
    t.rowsMet (before ++ [handle]) = t.rowsMet before := by
  rw [rowsMet, List.map_append]
  exact distinct_concat_of_mem (mem_distinct.mp h)

theorem rowsMet_concat_of_not_mem (h : t.row handle ∉ t.rowsMet before) :
    t.rowsMet (before ++ [handle]) = t.rowsMet before ++ [t.row handle] := by
  rw [rowsMet, List.map_append]
  exact distinct_concat_of_not_mem (mt mem_distinct.mpr h)

theorem markOf_eq_none {rows : List (List (Cell Nat))} (h : t.row handle ∉ rows) :
    t.markOf rows handle = none := by
  rw [markOf, List.idxOf?_eq_none_iff.mpr h, ite_self]

section NewRow

variable (horder : t.order = before ++ handle :: rest)
  (hnew : t.row handle ∉ t.rowsMet before)
include horder hnew

theorem mem_order_iff_of_row_eq {other : Nat} (hrow : t.row other = t.row handle) :
    other ∈ t.order ↔ other ∈ handle :: rest := by
  have hbefore : other ∉ before := fun hother =>
    hnew (mem_rowsMet_iff.mpr ⟨other, hother, hrow⟩)
  rw [horder, List.mem_append, or_iff_right hbefore]

/-- A handle whose row is new begins a group with all that have its row. -/
theorem listed_filter_row :
    (t.listed.filter fun other => t.row other = t.row handle) =
      Marking.found t (t.row handle) (handle :: rest) (t.markOf (t.rowsMet before)) := by
  have hbefore : (before.filter fun other => t.row other = t.row handle) = [] := by
    rw [List.filter_eq_nil_iff]
    intro other hother hrow
    exact hnew (mem_rowsMet_iff.mpr ⟨other, hother, by simpa using hrow⟩)
  rw [listed, ← distinct_filter, horder, List.filter_append, hbefore, List.nil_append,
    Marking.found]
  congr 1
  refine List.filter_congr fun other _ => ?_
  by_cases hrow : t.row other = t.row handle
  · simp [hrow, markOf_eq_none (hrow ▸ hnew)]
  · simp [hrow]

/-- When a new row has been met, those who have it are marked, and the other marks
stay. -/
theorem markOf_concat :
    t.markOf (t.rowsMet before ++ [t.row handle]) =
      Marking.swept t (t.row handle) (t.rowsMet before).length (handle :: rest)
        (t.markOf (t.rowsMet before)) := by
  funext other
  rw [markOf, idxOf?_concat, Marking.swept]
  by_cases hrow : t.row other = t.row handle
  · have hplace := List.idxOf?_eq_none_iff.mpr hnew
    have hnone : t.markOf (t.rowsMet before) other = none := markOf_eq_none (hrow ▸ hnew)
    rw [hrow, hplace, if_pos (beq_self_eq_true _), Option.none_or, hnone]
    simp only [mem_order_iff_of_row_eq horder hnew hrow, and_self, and_true]
  · have hbeq : (t.row handle == t.row other) = false := by simpa using Ne.symm hrow
    have hnot : ¬ (other ∈ handle :: rest ∧ t.markOf (t.rowsMet before) other = none ∧
        t.row other = t.row handle) := fun h => hrow h.2.2
    rw [hbeq, if_neg hnot, if_neg Bool.false_ne_true, Option.or_none, markOf]

end NewRow

end RawTable

/-- A pass that has met certain rows meets the others in the rest of the order. -/
theorem Marking.pass_eq {t : RawTable} (ht : t.InRange) {before rest : List Nat}
    (horder : t.order = before ++ rest) :
    pass t ⟨t.marksOf (t.markOf (t.rowsMet before)), t.groupsOf (t.rowsMet before)⟩ rest =
      some ⟨t.marksOf (t.markOf t.rows), t.groupsOf t.rows⟩ := by
  induction rest generalizing before with
  | nil =>
      rw [List.append_nil] at horder
      rw [pass, t.rows_eq_rowsMet, horder]
  | cons handle rest ih =>
      have hconcat : t.order = before ++ [handle] ++ rest := by rw [horder]; simp
      have hmem : handle ∈ t.order := by simp [horder]
      have hlt := ht.order_lt handle hmem
      have hrest : ∀ other ∈ handle :: rest, other < t.states.length := fun other hother =>
        ht.order_lt other (horder ▸ List.mem_append_right _ hother)
      have hmark : t.markOf (t.rowsMet before) handle =
          (t.rowsMet before).idxOf? (t.row handle) := if_pos hmem
      rw [pass, RawTable.getElem?_marksOf hlt, hmark, List.getElem?_eq_getElem hlt]
      by_cases hmet : t.row handle ∈ t.rowsMet before
      · obtain ⟨i, hi⟩ := Option.isSome_iff_exists.mp (List.isSome_idxOf?.mpr hmet)
        rw [← RawTable.rowsMet_concat_of_mem hmet] at hi ⊢
        simp only [hi]
        exact ih hconcat
      · have hi := List.idxOf?_eq_none_iff.mpr hmet
        have hrow := RawTable.row_of_getElem? (List.getElem?_eq_getElem hlt)
        have hlength : (t.groupsOf (t.rowsMet before)).length = (t.rowsMet before).length :=
          List.length_map _
        obtain ⟨members, hsweep, hmembers⟩ :=
          Marking.sweep_set_marksOf hrest (hmark.trans hi) (t.rowsMet before).length
        rw [← RawTable.markOf_concat horder hmet] at hsweep
        rw [← RawTable.listed_filter_row horder hmet] at hmembers
        have hgroups : t.groupsOf (t.rowsMet before) ++ [handle :: members] =
            t.groupsOf (t.rowsMet before ++ [t.row handle]) := by
          rw [hmembers, RawTable.groupsOf, RawTable.groupsOf, List.map_append]
          rfl
        simp only [hi, ← hrow, hlength, hsweep, hgroups,
          ← RawTable.rowsMet_concat_of_not_mem hmet]
        exact ih hconcat

/-! ### The machine -/

namespace RawTable

variable {t : RawTable}

theorem getD_markOf_rows (handle : Nat) : (t.markOf t.rows handle).getD 0 = t.group handle := by
  rw [markOf, group]
  split
  · next hmem =>
      have hrow : t.row handle ∈ t.rows := mem_rows_iff.mpr ⟨handle, hmem, rfl⟩
      obtain ⟨i, hi⟩ := Option.isSome_iff_exists.mp (List.isSome_idxOf?.mpr hrow)
      rw [List.idxOf_eq_getD_idxOf?, hi]
      rfl
  · rfl

/-- The groups are numbered as their rows are. -/
theorem group_eq_iff {handle i : Nat} {row : List (Cell Nat)} (hmem : handle ∈ t.order)
    (hrow : t.rows[i]? = some row) : t.group handle = i ↔ t.row handle = row := by
  obtain ⟨hi, rfl⟩ := List.getElem?_eq_some_iff.mp hrow
  have hplace : t.rows.idxOf t.rows[i] = i := t.nodup_rows.idxOf_getElem i hi
  rw [group_of_mem hmem]
  constructor
  · intro h
    exact (List.idxOf_inj (mem_rows_iff.mpr ⟨handle, hmem, rfl⟩)).mp (h.trans hplace.symm)
  · intro h
    rw [h, hplace]

theorem filter_row_eq_members {row : List (Cell Nat)} {i : Nat} (hrow : t.rows[i]? = some row) :
    (t.listed.filter fun handle => t.row handle = row) = t.members i := by
  refine List.filter_congr fun handle hlisted => ?_
  rw [Bool.eq_iff_iff, decide_eq_true_iff, beq_iff_eq, group_eq_iff (mem_listed.mp hlisted) hrow]

theorem label_of_lt {handle : Nat} (h : handle < t.states.length) :
    t.states[handle]?.map (·.label) = some (t.label handle) := by
  rw [label, List.getElem?_eq_getElem h]
  rfl

theorem InRange.next_lt_of_mem_row (ht : t.InRange) {handle : Nat} {c : Cell Nat}
    (hlt : handle < t.states.length) (hc : c ∈ t.row handle) : c.next < t.states.length := by
  rw [row_of_getElem? (List.getElem?_eq_getElem hlt)] at hc
  exact ht.next_lt _ (List.getElem_mem hlt) c hc

end RawTable

/-- The state of a group has the row that its members share. -/
theorem Marking.state_eq {t : RawTable} (ht : t.InRange) {row : List (Cell Nat)} {i : Nat}
    (hrow : t.rows[i]? = some row) (groups : List (List Nat)) :
    Marking.state t ⟨t.marksOf (t.markOf t.rows), groups⟩
        (t.listed.filter fun handle => t.row handle = row) i =
      some ⟨i, (t.members i).map t.label, row.map (·.map t.group)⟩ := by
  rw [RawTable.filter_row_eq_members hrow]
  have hmembers : ∀ handle ∈ t.members i, handle < t.states.length ∧ t.row handle = row := by
    intro handle hhandle
    obtain ⟨hmem, hgroup⟩ := RawTable.mem_members_iff.mp hhandle
    exact ⟨ht.order_lt handle hmem, (RawTable.group_eq_iff hmem hrow).mp hgroup⟩
  obtain ⟨first, others, hfirst⟩ : ∃ first others, t.members i = first :: others := by
    obtain ⟨handle, hhandle⟩ :=
      RawTable.exists_mem_members (List.getElem?_eq_some_iff.mp hrow).1
    exact List.exists_cons_of_ne_nil (List.ne_nil_of_mem hhandle)
  obtain ⟨hlt, hfirstRow⟩ := hmembers first (by simp [hfirst])
  have hstate := List.getElem?_eq_getElem hlt
  have hlabels : (t.members i).mapM (fun handle => t.states[handle]?.map (·.label)) =
      some ((t.members i).map t.label) :=
    mapM_eq_some_map fun handle hhandle => RawTable.label_of_lt (hmembers handle hhandle).1
  have hcells : row.mapM (fun c => (t.marksOf (t.markOf t.rows))[c.next]?.map fun mark =>
      (⟨c.verdict, mark.getD 0⟩ : Cell Nat)) = some (row.map (·.map t.group)) := by
    refine mapM_eq_some_map fun c hc => ?_
    have hnext : c.next < t.states.length := ht.next_lt_of_mem_row hlt (hfirstRow ▸ hc)
    rw [RawTable.getElem?_marksOf hnext, Option.map_some, RawTable.getD_markOf_rows]
    rfl
  have hshared : t.states[first].row = row :=
    (RawTable.row_of_getElem? hstate).symm.trans hfirstRow
  have hhead : (t.members i).head? = some first := by rw [hfirst]; rfl
  simp only [Marking.state, hhead, hstate, hlabels, hshared, hcells, Option.bind_eq_bind,
    Option.bind_some, Option.pure_def]

/-- With all handles in range the pass leads to the merged machine. -/
theorem RawTable.mergeByMarking_eq {t : RawTable} (ht : t.InRange) (tokens : List String) :
    t.mergeByMarking tokens = some (t.merge tokens) := by
  have hbegin : List.replicate t.states.length none = t.marksOf (t.markOf (t.rowsMet [])) := by
    have hnone : t.markOf (t.rowsMet []) = fun _ => none := by
      funext handle
      exact markOf_eq_none List.not_mem_nil
    rw [hnone, marksOf, List.map_const', List.length_range]
  have hpass : Marking.pass t ⟨List.replicate t.states.length none, []⟩ t.order =
      some ⟨t.marksOf (t.markOf t.rows), t.groupsOf t.rows⟩ := by
    rw [hbegin]
    exact Marking.pass_eq ht rfl
  have hstates : (t.groupsOf t.rows).zipIdx.mapM (fun (members, i) =>
      Marking.state t ⟨t.marksOf (t.markOf t.rows), t.groupsOf t.rows⟩ members i) =
        some (t.merge tokens).states := by
    rw [groupsOf, List.zipIdx_map, List.mapM_map, merge_eq]
    refine mapM_eq_some_map fun (row, i) hrow => ?_
    exact Marking.state_eq ht (List.mk_mem_zipIdx_iff_getElem?.mp hrow) _
  simp only [mergeByMarking, hpass, hstates, getElem?_marksOf ht.start_lt, getD_markOf_rows,
    Option.bind_eq_bind, Option.bind_some, Option.pure_def, ← start_merge t tokens]
  rfl

/-! ### Groups by rows -/

namespace RawTable

/-- The distinct rows of the listed states, in the order of their first occurrence. -/
def firstRows (t : RawTable) : List (List (Cell Nat)) :=
  (t.order.map t.row).eraseDups

/-- The number of a handle: the place of its row, and 0 if it is not listed. -/
def number (t : RawTable) (handle : Nat) : Nat :=
  if handle ∈ t.order then t.firstRows.idxOf (t.row handle) else 0

/-- The machine has one state for each distinct row, with the labels of the handles
that have the row, and with numbers in the place of handles. -/
structure GroupedByRow (t : RawTable) (tokens : List String) (M : Machine) : Prop where
  tokens_eq : M.tokens = tokens
  start_eq : M.start = t.number t.start
  length_states : M.states.length = t.firstRows.length
  state_eq : ∀ k row, t.firstRows[k]? = some row →
    M.states[k]? = some
      { index := k
        labels := (t.order.filter fun handle => t.row handle = row).eraseDups.map t.label
        row := row.map fun c => ⟨c.verdict, t.number c.next⟩ : State }

variable (t : RawTable)

theorem firstRows_eq_rows : t.firstRows = t.rows := by
  rw [rows_eq_rowsMet, rowsMet, distinct_eq_eraseDups, firstRows]

theorem number_eq_group : t.number = t.group := by
  funext handle
  rw [number, group, firstRows_eq_rows]

theorem eraseDups_filter_row {row : List (Cell Nat)} {i : Nat} (hrow : t.rows[i]? = some row) :
    (t.order.filter fun handle => t.row handle = row).eraseDups = t.members i := by
  rw [← distinct_eq_eraseDups, distinct_filter, ← filter_row_eq_members hrow, listed]

theorem groupedByRow_merge (tokens : List String) : t.GroupedByRow tokens (t.merge tokens) where
  tokens_eq := t.tokens_merge tokens
  start_eq := by rw [start_merge, number_eq_group]
  length_states := by rw [length_states_merge, firstRows_eq_rows]
  state_eq := by
    intro k row hrow
    rw [firstRows_eq_rows] at hrow
    rw [getElem?_states_merge, hrow, eraseDups_filter_row t hrow, number_eq_group]
    rfl

/-- Merging groups the listed handles by their rows, in the order in which the rows
are first met, and with all handles in range the pass that marks them as it goes
finds the same machine. Rows are compared before handles give way to numbers. -/
theorem merge_groups_by_row (tokens : List String) :
    t.GroupedByRow tokens (t.merge tokens) ∧
      (t.InRange → t.mergeByMarking tokens = some (t.merge tokens)) :=
  ⟨t.groupedByRow_merge tokens, fun ht => mergeByMarking_eq ht tokens⟩

/-- A table whose order is partial and has repetitions. Nothing lists the start, and
the rows of `a` and `e` lead to two handles of one group. -/
def looseTable : RawTable where
  states :=
    [⟨"a", [⟨.split, 1⟩, ⟨.join, 3⟩]⟩, ⟨"b", [⟨.join, 0⟩]⟩, ⟨"c", [⟨.join, 0⟩]⟩, ⟨"d", []⟩,
      ⟨"e", [⟨.split, 2⟩, ⟨.join, 3⟩]⟩]
  order := [1, 0, 2, 0, 4, 1]
  start := 3

/-- The rows of `a` and `e` have become equal, but the states are two. -/
def looseMachine : Machine where
  tokens := ["T"]
  start := 0
  states :=
    [⟨0, ["b", "c"], [⟨.join, 1⟩]⟩, ⟨1, ["a"], [⟨.split, 0⟩, ⟨.join, 0⟩]⟩,
      ⟨2, ["e"], [⟨.split, 0⟩, ⟨.join, 0⟩]⟩]

theorem merge_groups_by_row_looseTable :
    looseTable.InRange ∧ looseTable.merge ["T"] = looseMachine ∧
      looseTable.GroupedByRow ["T"] looseMachine := by
  have ht : looseTable.InRange := ⟨by decide, by decide, by decide⟩
  obtain ⟨hgrouped, hmark⟩ := merge_groups_by_row looseTable ["T"]
  have hmachine : looseTable.mergeByMarking ["T"] = some looseMachine := by decide
  have hmerge : looseTable.merge ["T"] = looseMachine :=
    Option.some.inj ((hmark ht).symm.trans hmachine)
  exact ⟨ht, hmerge, hmerge ▸ hgrouped⟩

end RawTable

end BreakRules
