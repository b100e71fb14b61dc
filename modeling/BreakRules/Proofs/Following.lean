import BreakRules.Proofs.Marking
import BreakRules.Proofs.Run
import BreakRules.Proofs.Table

/-!
# Following rows, column by column

`follow cell? state columns` are the cells that are met when columns are read one
after another. It stops at a column that a row does not have, so the number of cells
says how far it came. Raw tables and machines are followed alike, and a machine that
reads a text follows the columns of the tokens: `Machine.runFrom?_eq_some_iff`.

A table is closed if its order lists the start and all that the listed handles lead
to. Then one step from a handle and one step from its group lead to a handle and to
its group (`RawTable.cell?_merge_group`), and so does every sequence of columns
(`RawTable.Closed.follow_merge_group`). A table that was built is closed:
`RuleSet.closed_of_build`.
-/

namespace BreakRules

/-- The cells that are met from a state on, up to a column that is missing. -/
def follow (cell? : Nat → Nat → Option (Cell Nat)) : Nat → List Nat → List (Cell Nat)
  | _, [] => []
  | state, column :: rest =>
      match cell? state column with
      | none => []
      | some c => c :: follow cell? c.next rest

def verdictsAlong (cell? : Nat → Nat → Option (Cell Nat)) (state : Nat) (columns : List Nat) :
    List Verdict :=
  (follow cell? state columns).map (·.verdict)

section Follow

variable {cell? : Nat → Nat → Option (Cell Nat)} {state column : Nat} {rest : List Nat}

theorem follow_cons_of_eq_none (h : cell? state column = none) :
    follow cell? state (column :: rest) = [] := by
  rw [follow, h]

theorem follow_cons_of_eq_some {c : Cell Nat} (h : cell? state column = some c) :
    follow cell? state (column :: rest) = c :: follow cell? c.next rest := by
  rw [follow, h]

theorem verdictsAlong_cons {c : Cell Nat} (h : cell? state column = some c) :
    verdictsAlong cell? state (column :: rest) = c.verdict :: verdictsAlong cell? c.next rest := by
  rw [verdictsAlong, follow_cons_of_eq_some h]
  rfl

/-- A map of states that single steps keep to is kept to by every sequence of columns.
Only the states that steps lead to count. -/
theorem follow_map {image? : Nat → Nat → Option (Cell Nat)} {f : Nat → Nat} {P : Nat → Prop}
    (hcell : ∀ s, P s → ∀ i, image? (f s) i = (cell? s i).map (·.map f))
    (hnext : ∀ s, P s → ∀ i c, cell? s i = some c → P c.next) (hstate : P state)
    (columns : List Nat) :
    follow image? (f state) columns = (follow cell? state columns).map (·.map f) ∧
      ∀ c ∈ follow cell? state columns, P c.next := by
  induction columns generalizing state with
  | nil => exact ⟨rfl, by simp [follow]⟩
  | cons column rest ih =>
      have hstep := hcell state hstate column
      cases hc : cell? state column with
      | none =>
          rw [hc, Option.map_none] at hstep
          rw [follow_cons_of_eq_none hc, follow_cons_of_eq_none hstep]
          exact ⟨rfl, by simp⟩
      | some c =>
          rw [hc, Option.map_some] at hstep
          have hlead := hnext state hstate column c hc
          obtain ⟨hrest, hmem⟩ := ih hlead
          rw [follow_cons_of_eq_some hc, follow_cons_of_eq_some hstep, List.map_cons,
            List.forall_mem_cons]
          exact ⟨congrArg _ hrest, hlead, hmem⟩

end Follow

theorem mapM_cons_eq_some_iff {α β : Type} {f : α → Option β} {a : α} {l : List α} {bs : List β} :
    (a :: l).mapM f = some bs ↔
      ∃ b, f a = some b ∧ ∃ more, l.mapM f = some more ∧ b :: more = bs := by
  simp [List.mapM_cons, Option.bind_eq_some_iff]

/-- A machine reads a text if it knows the tokens and none of their columns is
missing on the way. -/
theorem Machine.runFrom?_eq_some_iff {M : Machine} {state : Nat} {text : List String}
    {verdicts : List Verdict} :
    M.runFrom? state text = some verdicts ↔
      ∃ columns, text.mapM M.tokenIndex? = some columns ∧
        verdictsAlong M.cell? state columns = verdicts ∧ verdicts.length = columns.length := by
  induction text generalizing state verdicts with
  | nil => simp [runFrom?, verdictsAlong, follow, eq_comm]
  | cons token rest ih =>
      simp only [runFrom?_cons, Option.bind_eq_some_iff, Option.map_eq_some_iff,
        mapM_cons_eq_some_iff]
      constructor
      · rintro ⟨column, htoken, c, hc, more, hrun, rfl⟩
        obtain ⟨columns, hrest, rfl, hlength⟩ := ih.mp hrun
        refine ⟨column :: columns, ⟨column, htoken, columns, hrest, rfl⟩, ?_, ?_⟩
        · exact verdictsAlong_cons hc
        · rw [List.length_cons, List.length_cons, hlength]
      · rintro ⟨-, ⟨column, htoken, columns, hrest, rfl⟩, rfl, hlength⟩
        cases hc : M.cell? state column with
        | none =>
            -- it stops here, but has come as far as there are columns
            rw [verdictsAlong, follow_cons_of_eq_none hc] at hlength
            cases hlength
        | some c =>
            rw [verdictsAlong_cons hc] at hlength ⊢
            refine ⟨column, htoken, c, hc, _, ih.mpr ⟨columns, hrest, rfl, ?_⟩, rfl⟩
            exact Nat.succ.inj hlength

namespace RawTable

def cell? (t : RawTable) (handle column : Nat) : Option (Cell Nat) := do
  let s ← t.states[handle]?
  s.row[column]?

/-- The order lists the start and every successor of what it lists. -/
structure Closed (t : RawTable) : Prop where
  start_mem : t.start ∈ t.order
  next_mem : ∀ handle ∈ t.order, ∀ c ∈ t.row handle, c.next ∈ t.order

theorem cell?_eq_getElem?_row (t : RawTable) (handle column : Nat) :
    t.cell? handle column = (t.row handle)[column]? := by
  rw [cell?, row]
  cases t.states[handle]? with
  | none => rfl
  | some s => rfl

/-- One step from the group of a listed handle is the step from the handle. -/
theorem cell?_merge_group {t : RawTable} {handle : Nat} (h : handle ∈ t.order)
    (tokens : List String) (column : Nat) :
    (t.merge tokens).cell? (t.group handle) column =
      (t.cell? handle column).map (·.map t.group) := by
  rw [Machine.cell?, getElem?_states_merge_group t tokens h, cell?_eq_getElem?_row]
  exact List.getElem?_map

namespace Closed

variable {t : RawTable} (ht : t.Closed) {handle : Nat} (hhandle : handle ∈ t.order)
include ht hhandle

theorem next_mem_of_cell? {column : Nat} {c : Cell Nat} (hc : t.cell? handle column = some c) :
    c.next ∈ t.order := by
  rw [cell?_eq_getElem?_row] at hc
  exact ht.next_mem handle hhandle c (List.mem_of_getElem? hc)

/-- From a listed handle and from its group the same columns lead to handles and to
their groups, and all of the handles are listed. -/
theorem follow_merge_group (tokens : List String) (columns : List Nat) :
    follow (t.merge tokens).cell? (t.group handle) columns =
        (follow t.cell? handle columns).map (·.map t.group) ∧
      ∀ c ∈ follow t.cell? handle columns, c.next ∈ t.order :=
  follow_map (fun _ hmem => cell?_merge_group hmem tokens)
    (fun _ hmem _ _ => ht.next_mem_of_cell? hmem) hhandle columns

theorem verdictsAlong_merge_group (tokens : List String) (columns : List Nat) :
    verdictsAlong (t.merge tokens).cell? (t.group handle) columns =
      verdictsAlong t.cell? handle columns := by
  rw [verdictsAlong, (ht.follow_merge_group hhandle tokens columns).1, List.map_map]
  rfl

end Closed

end RawTable

/-- The rows that were built lead to rows that were built. -/
theorem RuleSet.closed_of_build {R : RuleSet} {start : String} {t : RawTable}
    (h : R.build start = .ok t) : t.Closed := by
  obtain ⟨hstuck, rfl⟩ := build_eq_ok_iff.mp h
  have hclosed := closed_explore hstuck
  constructor
  case start_mem => exact Visit.handle_mem_order _ start hclosed.start_mem_labels
  case next_mem =>
    intro handle hhandle c hc
    obtain ⟨label, hl, rfl, -⟩ := hclosed.exists_label_of_mem_order hhandle
    rw [Visit.row_handle _ start (hclosed.labels_subset_arena hl)] at hc
    obtain ⟨d, hd, rfl⟩ := List.mem_map.mp hc
    exact Visit.handle_mem_order _ start (hclosed.next_mem_of_mem_rowOf hl hd)

namespace RawTable

/-- Merging a closed table keeps what it does. From a listed handle and from its
group every sequence of columns meets the same verdicts, stops at the same place and
leads to a handle and to its group, so handles that share a group cannot be told
apart, and the machine reads texts as the rows of the table do. -/
theorem merge_preserves_runs {t : RawTable} (ht : t.Closed) (tokens : List String) :
    (∀ handle ∈ t.order,
      (∃ s, (t.merge tokens).states[t.group handle]? = some s ∧ t.label handle ∈ s.labels) ∧
      ∀ columns,
        follow (t.merge tokens).cell? (t.group handle) columns =
            (follow t.cell? handle columns).map (·.map t.group) ∧
          verdictsAlong (t.merge tokens).cell? (t.group handle) columns =
            verdictsAlong t.cell? handle columns ∧
          ∀ c ∈ follow t.cell? handle columns, c.next ∈ t.order) ∧
    (∀ handle ∈ t.order, ∀ other ∈ t.order, t.group handle = t.group other →
      ∀ columns, verdictsAlong t.cell? handle columns = verdictsAlong t.cell? other columns) ∧
    (t.merge tokens).start = t.group t.start ∧
    ∀ text verdicts, (t.merge tokens).run? text = some verdicts ↔
      ∃ columns, text.mapM (t.merge tokens).tokenIndex? = some columns ∧
        verdictsAlong t.cell? t.start columns = verdicts ∧ verdicts.length = columns.length := by
  refine ⟨?_, ?_, t.start_merge tokens, ?_⟩
  · intro handle hhandle
    refine ⟨⟨_, t.getElem?_states_merge_group tokens hhandle, ?_⟩, ?_⟩
    · exact List.mem_map_of_mem (mem_members_iff.mpr ⟨hhandle, rfl⟩)
    · intro columns
      have hfollow := ht.follow_merge_group hhandle tokens columns
      exact ⟨hfollow.1, ht.verdictsAlong_merge_group hhandle tokens columns, hfollow.2⟩
  · intro handle hhandle other hother hgroup columns
    calc verdictsAlong t.cell? handle columns
        = verdictsAlong (t.merge tokens).cell? (t.group handle) columns :=
          (ht.verdictsAlong_merge_group hhandle tokens columns).symm
      _ = verdictsAlong (t.merge tokens).cell? (t.group other) columns := by rw [hgroup]
      _ = verdictsAlong t.cell? other columns :=
          ht.verdictsAlong_merge_group hother tokens columns
  · intro text verdicts
    simp only [Machine.run?, start_merge, Machine.runFrom?_eq_some_iff,
      ht.verdictsAlong_merge_group ht.start_mem]

/-- A table that goes round in circles. The rows of `a` and `b` are equal, and
shorter than the row of the start. -/
def roundTable : RawTable where
  states := [⟨"s", [⟨.split, 1⟩, ⟨.join, 2⟩]⟩, ⟨"a", [⟨.join, 0⟩]⟩, ⟨"b", [⟨.join, 0⟩]⟩]
  order := [0, 1, 2, 1]
  start := 0

/-- The table goes by `b` and stops at `a`, the machine is in their one state both
times. -/
theorem merge_preserves_runs_roundTable :
    roundTable.Closed ∧ follow roundTable.cell? 0 [1, 0, 0, 1, 0] =
        [⟨.join, 2⟩, ⟨.join, 0⟩, ⟨.split, 1⟩] ∧
      follow (roundTable.merge ["T", "U"]).cell? 0 [1, 0, 0, 1, 0] =
        [⟨.join, 1⟩, ⟨.join, 0⟩, ⟨.split, 1⟩] := by
  have ht : roundTable.Closed := ⟨by decide, by decide⟩
  have hraw : follow roundTable.cell? 0 [1, 0, 0, 1, 0] =
      [⟨.join, 2⟩, ⟨.join, 0⟩, ⟨.split, 1⟩] := by decide
  have hgroup : roundTable.group 0 = 0 ∧ roundTable.group 1 = 1 ∧ roundTable.group 2 = 1 := by
    rw [← number_eq_group]
    decide
  have hmerged := ((merge_preserves_runs ht ["T", "U"]).1 0 (by decide)).2 [1, 0, 0, 1, 0]
  rw [hraw, hgroup.1] at hmerged
  refine ⟨ht, hraw, hmerged.1.trans ?_⟩
  simp [Cell.map, hgroup]

end RawTable

end BreakRules
