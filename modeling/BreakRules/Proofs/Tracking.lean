import BreakRules.Proofs.Table
import BreakRules.Proofs.Worklist

/-!
# A work list against an exploration

An exploration that gains a row gains the labels at the end of its arena that the
row is the first to mention. Old handles stay, and in the table one state gets
its row: `Visit.table_add_states`, `Visit.table_add_order`, `Visit.flags_add`.

A work list tracks an exploration if its table is that of the exploration, its
flags say which labels have a row, and its stack holds the handles of the labels
that wait: `Worklist.Tracks`. Then every handle on the stack is in range, so that
one turn passes over a label or builds its row:
`Worklist.Tracks.turn_of_mem`, `Worklist.Tracks.turn_of_not_mem`. A row that is
built keeps the work list on track: `Worklist.Tracks.buildRow_of_row_eq_ok`.
-/

namespace BreakRules

open Worklist (fresh)

/-- What is done at the place of an entry is done at the entry. -/
theorem modify_map_idxOf {β : Type} {l : List String} (hl : l.Nodup) (f : String → β)
    (a : String) (g : β → β) :
    (l.map f).modify (l.idxOf a) g = l.map fun b => if b = a then g (f b) else f b := by
  induction l with
  | nil => rfl
  | cons b l ih =>
      obtain ⟨hb, hl⟩ := List.nodup_cons.mp hl
      by_cases heq : b = a
      · subst heq
        have htail : l.map f = l.map fun c => if c = b then g (f c) else f c :=
          List.map_congr_left fun c hc => by rw [if_neg (ne_of_mem_of_not_mem hc hb)]
        rw [List.idxOf_cons_self, List.map_cons, List.modify_zero_cons, List.map_cons, if_pos rfl,
          ← htail]
      · rw [List.idxOf_cons_ne _ heq, List.map_cons, List.modify_succ_cons, ih hl, List.map_cons,
          if_neg heq]

/-! ### One more row -/

namespace Visit

/-- Which of the labels in the arena have a row. -/
def flags (v : Visit) (start : String) : List Bool :=
  (v.arena start).map fun label => decide (label ∈ v.labels)

def add (v : Visit) (r : Visited) : Visit :=
  { v with rows := v.rows ++ [r] }

/-- The labels that one more row is the first to mention. -/
def introduced (v : Visit) (start : String) (r : Visited) : List String :=
  fresh (v.arena start) (r.row.map (·.next))

section Arena

variable (v : Visit) (start : String) (r : Visited)

theorem labels_add : (v.add r).labels = v.labels ++ [r.label] := by
  rw [labels, add, List.map_append]
  rfl

/-- The arena grows at its end. -/
theorem arena_add : (v.add r).arena start = v.arena start ++ v.introduced start r := by
  have hknown : ∀ names, fresh (v.arena start) names =
      fresh (start :: v.rows.flatMap (·.row.map (·.next))) names := by
    intro names
    simp only [fresh, arena, List.contains_eq_mem, mem_distinct]
  rw [introduced, hknown, arena, arena, add, ← Worklist.distinct_append_eq_fresh,
    List.flatMap_append, List.flatMap_singleton, List.cons_append]

theorem arena_subset_add : v.arena start ⊆ (v.add r).arena start := by
  rw [arena_add]
  exact List.subset_append_left _ _

theorem handle_add {label : String} (h : label ∈ v.arena start) :
    (v.add r).handle start label = v.handle start label := by
  rw [handle, arena_add, List.idxOf_append_of_mem h, handle]

theorem start_mem_arena : start ∈ v.arena start :=
  mem_arena_iff.mpr (.inl rfl)

end Arena

/-- The row is searched for hits, one token after the other. -/
theorem undeclaredHits_add (v : Visit) (R : RuleSet) (r : Visited) :
    R.undeclaredHits (v.add r) = R.undeclaredHits v ++ R.tokens.flatMap (R.hitsAt r.label) := by
  rw [RuleSet.undeclaredHits_eq, RuleSet.undeclaredHits_eq, add, List.flatMap_append,
    List.flatMap_singleton]
  rfl

section Rows

variable {v : Visit} {label : String}

theorem find?_rows_eq_none (h : label ∉ v.labels) :
    v.rows.find? (·.label == label) = none := by
  rw [List.find?_eq_none]
  intro row hrow heq
  exact h (List.mem_map.mpr ⟨row, hrow, beq_iff_eq.mp heq⟩)

theorem rowOf_of_not_mem (h : label ∉ v.labels) : v.rowOf label = [] := by
  rw [rowOf, find?_rows_eq_none h]
  rfl

theorem rowOf_add {r : Visited} (hr : r.label ∉ v.labels) (label : String) :
    (v.add r).rowOf label = if label = r.label then r.row else v.rowOf label := by
  rw [rowOf, add, List.find?_append]
  by_cases hlabel : label = r.label
  · subst hlabel
    rw [if_pos rfl, find?_rows_eq_none hr]
    simp
  · have hne : (r.label == label) = false := by simpa using Ne.symm hlabel
    rw [if_neg hlabel, List.find?_singleton, hne, rowOf]
    simp

theorem next_mem_arena {c : Cell String} (hc : c ∈ v.rowOf label) (start : String) :
    c.next ∈ v.arena start := by
  rw [rowOf] at hc
  cases hfind : v.rows.find? (·.label == label) with
  | none => simp [hfind] at hc
  | some row =>
      refine mem_arena_iff.mpr (.inr ⟨row, List.mem_of_find?_eq_some hfind, c, ?_, rfl⟩)
      simpa [hfind] using hc

end Rows

theorem length_table_states (v : Visit) (start : String) :
    (v.table start).states.length = (v.arena start).length := by
  rw [table_states, List.length_map]

theorem handle_lt {v : Visit} {start label : String} (h : label ∈ v.arena start) :
    v.handle start label < (v.table start).states.length := by
  rw [length_table_states]
  exact List.idxOf_lt_length_of_mem h

/-- A row leads to states of the table. -/
theorem next_lt_of_mem_states {v : Visit} {start : String} {state : RawState} {c : Cell Nat}
    (hstate : state ∈ (v.table start).states) (hc : c ∈ state.row) :
    c.next < (v.table start).states.length := by
  have hmem := hstate
  rw [table_states] at hmem
  obtain ⟨label, -, rfl⟩ := List.mem_map.mp hmem
  obtain ⟨d, hd, rfl⟩ := List.mem_map.mp hc
  exact handle_lt (next_mem_arena hd start)

section Table

variable {v : Visit} {start : String} {r : Visited} (hlabels : v.labels ⊆ v.arena start)
include hlabels

theorem not_mem_labels_of_mem_introduced {label : String} (h : label ∈ v.introduced start r) :
    label ∉ v.labels :=
  fun hlabel => (Worklist.mem_fresh_iff.mp h).2 (hlabels hlabel)

variable (hmem : r.label ∈ v.arena start)
include hmem

theorem table_add_order :
    ((v.add r).table start).order = (v.table start).order ++ [v.handle start r.label] := by
  have hold : v.labels.map ((v.add r).handle start) = v.labels.map (v.handle start) :=
    List.map_congr_left fun label hlabel => v.handle_add start r (hlabels hlabel)
  rw [table_order, table_order, labels_add, List.map_append, hold, List.map_singleton,
    v.handle_add start r hmem]

/-- New labels have no row, and the label of the row has one from now on. -/
theorem flags_add :
    (v.add r).flags start =
      (v.flags start ++ (v.introduced start r).map fun _ => false).set
        (v.handle start r.label) true := by
  have hfresh : ((v.introduced start r).map fun _ => false) =
      (v.introduced start r).map fun label => decide (label ∈ v.labels) :=
    List.map_congr_left fun label hlabel =>
      (decide_eq_false (not_mem_labels_of_mem_introduced hlabels hlabel)).symm
  rw [flags, flags, hfresh, ← List.map_append, ← v.arena_add start r, List.set_eq_modify,
    ← v.handle_add start r hmem, handle, modify_map_idxOf ((v.add r).nodup_arena start)]
  refine List.map_congr_left fun label _ => ?_
  rw [labels_add]
  by_cases hlabel : label = r.label <;> simp [hlabel]

/-- New labels have states without a row, and the row goes to the handle of its
label. -/
theorem table_add_states (hr : r.label ∉ v.labels) :
    ((v.add r).table start).states =
      List.modify
        ((v.table start).states ++ (v.introduced start r).map fun label => ⟨label, []⟩)
        (v.handle start r.label)
        fun state => { state with row := r.row.map (·.map ((v.add r).handle start)) } := by
  have hfresh : ((v.introduced start r).map fun label => (⟨label, []⟩ : RawState)) =
      (v.introduced start r).map fun label =>
        ⟨label, (v.rowOf label).map (·.map (v.handle start))⟩ := by
    refine List.map_congr_left fun label hlabel => ?_
    rw [rowOf_of_not_mem (not_mem_labels_of_mem_introduced hlabels hlabel), List.map_nil]
  rw [table_states, table_states, hfresh, ← List.map_append, ← v.arena_add start r,
    ← v.handle_add start r hmem, handle, modify_map_idxOf ((v.add r).nodup_arena start)]
  refine List.map_congr_left fun label _ => ?_
  rw [rowOf_add hr]
  by_cases hlabel : label = r.label
  · rw [if_pos hlabel, if_pos hlabel]
  · -- the successors in an old row had their handles before
    have hrow : (v.rowOf label).map (·.map ((v.add r).handle start)) =
        (v.rowOf label).map (·.map (v.handle start)) := by
      refine List.map_congr_left fun c hc => ?_
      rw [Cell.map, Cell.map, v.handle_add start r (next_mem_arena hc start)]
    rw [if_neg hlabel, if_neg hlabel, hrow]

end Table

end Visit

namespace Worklist

/-- A work list stands where an exploration does that has the rows of `v` and
has yet to look at the labels on `stack`. -/
structure Tracks (R : RuleSet) (v : Visit) (start : String) (stack : List String)
    (w : Worklist) : Prop where
  table_eq : w.table = v.table start
  getElem?_handles : ∀ label,
    w.handles[label]? = if label ∈ v.arena start then some (v.handle start label) else none
  built_eq : w.built = v.flags start
  pending_eq : w.pending = stack.map (v.handle start)
  stack_subset : stack ⊆ v.arena start
  labels_subset : v.labels ⊆ v.arena start
  found_eq : w.found = R.reportHits ∅ (R.undeclaredHits v)

theorem tracks_begin (R : RuleSet) (start : String) : Tracks R ⟨[], none⟩ start [start] (begin start) := by
  have harena : (⟨[], none⟩ : Visit).arena start = [start] := by
    simp [Visit.arena, distinct_cons]
  have hhandle : (⟨[], none⟩ : Visit).handle start start = 0 := by
    rw [Visit.handle, harena, List.idxOf_cons_self]
  have hbegin : begin start =
      { states := [⟨start, []⟩], handles := (∅ : Std.HashMap String Nat).insert start 0,
        built := [false], pending := [0] } := by
    rw [begin, mention_of_not_mem indexed_empty List.not_mem_nil]
    rfl
  rw [hbegin]
  constructor
  case table_eq => simp [table, Visit.table, harena, Visit.rowOf]
  case getElem?_handles =>
    intro label
    rw [harena, Std.HashMap.getElem?_insert]
    by_cases hlabel : label = start
    · simp [hlabel, hhandle]
    · simp [hlabel, Ne.symm hlabel]
  case built_eq => simp [Visit.flags, harena, Visit.labels]
  case pending_eq => rw [List.map_singleton, hhandle]
  case stack_subset => rw [harena]; exact List.Subset.refl _
  case labels_subset => exact List.nil_subset _
  case found_eq => rw [RuleSet.undeclaredHits_eq]; rfl

namespace Tracks

variable {R : RuleSet} {v : Visit} {start label : String} {rest stack : List String} {w : Worklist}

theorem states_eq (h : Tracks R v start stack w) : w.states = (v.table start).states :=
  congrArg RawTable.states h.table_eq

theorem labels_eq (h : Tracks R v start stack w) : w.labels = v.arena start := by
  rw [labels, h.states_eq, v.map_label_table_states start]

theorem indexed (h : Tracks R v start stack w) : w.Indexed where
  nodup_labels := by
    rw [h.labels_eq]
    exact v.nodup_arena start
  getElem?_handles := by
    intro label
    rw [h.labels_eq]
    exact h.getElem?_handles label

theorem inRange (h : Tracks R v start stack w) : w.InRange where
  length_built := by
    rw [h.built_eq, h.states_eq, v.length_table_states start, Visit.flags, List.length_map]
  pending_lt := by
    intro handle hhandle
    rw [h.pending_eq] at hhandle
    obtain ⟨label, hlabel, rfl⟩ := List.mem_map.mp hhandle
    rw [h.states_eq]
    exact Visit.handle_lt (h.stack_subset hlabel)
  next_lt := by
    intro state hstate c hc
    rw [h.states_eq] at hstate ⊢
    exact Visit.next_lt_of_mem_states hstate hc

theorem getElem?_built (h : Tracks R v start stack w) (hlabel : label ∈ v.arena start) :
    w.built[v.handle start label]? = some (decide (label ∈ v.labels)) := by
  rw [h.built_eq, Visit.flags, List.getElem?_map, Visit.handle, List.getElem?_idxOf hlabel,
    Option.map_some]

/-- The next handle is taken from the stack. -/
theorem pop (h : Tracks R v start (label :: rest) w) :
    Tracks R v start rest { w with pending := rest.map (v.handle start) } :=
  ⟨h.table_eq, h.getElem?_handles, h.built_eq, rfl, (List.cons_subset.mp h.stack_subset).2,
    h.labels_subset, h.found_eq⟩

/-- A label that has its row is passed over. -/
theorem turn_of_mem (h : Tracks R v start (label :: rest) w) (hbuilt : label ∈ v.labels) :
    ∃ w', w.turn R = .ok w' ∧ Tracks R v start rest w' := by
  have hflag := h.getElem?_built (h.labels_subset hbuilt)
  rw [decide_eq_true hbuilt] at hflag
  refine ⟨_, ?_, h.pop⟩
  simp only [turn, h.pending_eq, List.map_cons, hflag]

/-- A label without a row is looked up, and its row is built. -/
theorem turn_of_not_mem (h : Tracks R v start (label :: rest) w) (hbuilt : label ∉ v.labels) :
    w.turn R =
      { w with pending := rest.map (v.handle start) }.buildRow R (v.handle start label) label := by
  have hlabel : label ∈ v.arena start := (List.cons_subset.mp h.stack_subset).1
  have hflag := h.getElem?_built hlabel
  rw [decide_eq_false hbuilt] at hflag
  have hstate := v.getElem?_table_states start hlabel
  rw [← h.states_eq] at hstate
  simp only [turn, h.pending_eq, List.map_cons, hflag, hstate]

theorem buildRow_of_row_eq_error {token : String} (hrow : R.row label = .error token)
    (w : Worklist) (handle : Nat) :
    w.buildRow R handle label = .error (.undecided ⟨label, token⟩) := by
  obtain ⟨before, after, htokens, hbefore, hbad⟩ := RuleSet.exists_of_row_eq_error hrow
  rw [buildRow, htokens, fill_eq_error hbefore hbad]

/-! ### A row that is built -/

section Row

variable {cells : List (Cell String)} {w' : Worklist} (h : Tracks R v start stack w)
  (hmentions : w.Mentions (cells.map (·.next)) w')
include h hmentions

theorem labels_mentions (label : String) : w'.labels = (v.add ⟨label, cells⟩).arena start := by
  rw [v.arena_add, hmentions.labels_eq, h.labels_eq]
  rfl

theorem states_mentions (label : String) :
    w'.states =
      (v.table start).states ++ (v.introduced start ⟨label, cells⟩).map fun l => ⟨l, []⟩ := by
  rw [hmentions.states_eq, h.states_eq, h.labels_eq]
  rfl

theorem built_mentions (label : String) :
    w'.built = v.flags start ++ (v.introduced start ⟨label, cells⟩).map fun _ => false := by
  rw [hmentions.built_eq, h.built_eq, h.labels_eq]
  rfl

/-- The label and its successors have states by now, so that nothing is out of range
when the row is put into its place. -/
theorem settle_mentions (hmem : label ∈ v.arena start) :
    w'.settle (v.handle start label) (cells.map (·.map w'.labels.idxOf)) =
      .ok { w' with
        states := w'.states.modify (v.handle start label) fun state =>
          { state with row := cells.map (·.map w'.labels.idxOf) }
        built := w'.built.set (v.handle start label) true
        order := w'.order ++ [v.handle start label] } := by
  have hplace : v.handle start label < w.states.length := by
    rw [h.states_eq]
    exact Visit.handle_lt hmem
  apply settle_eq_ok
  case hstate =>
    rw [hmentions.states_eq, List.length_append]
    exact Nat.lt_add_right _ hplace
  case hflag =>
    rw [hmentions.built_eq, List.length_append, h.inRange.length_built]
    exact Nat.lt_add_right _ hplace
  case hcells =>
    intro c hc
    obtain ⟨d, hd, rfl⟩ := List.mem_map.mp hc
    have hlength : w'.labels.length = w'.states.length := List.length_map _
    rw [← hlength]
    exact List.idxOf_lt_length_of_mem (hmentions.mem_labels (List.mem_map_of_mem hd))

end Row

/-- A row that can be built is put into the table, and the successors in it come
up next, the one under the last token first. -/
theorem buildRow_of_row_eq_ok (h : Tracks R v start stack w) (hmem : label ∈ v.arena start)
    (hbuilt : label ∉ v.labels) {cells : List (Cell String)} (hrow : R.row label = .ok cells) :
    ∃ w', w.buildRow R (v.handle start label) label = .ok w' ∧
      Tracks R (v.add ⟨label, cells⟩) start ((cells.map (·.next)).reverse ++ stack) w' := by
  obtain ⟨w', hmentions, hfound, hfill⟩ := fill_eq_ok (RuleSet.row_eq_ok_iff.mp hrow) h.indexed
  have hlabels := h.labels_mentions hmentions label
  have hstates := h.states_mentions hmentions label
  have hhandle : w'.labels.idxOf = (v.add ⟨label, cells⟩).handle start := by
    rw [hlabels]
    rfl
  have hbuild := h.settle_mentions hmentions hmem
  refine ⟨_, by rw [buildRow, hfill]; exact hbuild, ?_⟩
  constructor
  case table_eq =>
    have hstart : (v.table start).start = ((v.add ⟨label, cells⟩).table start).start :=
      (v.handle_add start _ (v.start_mem_arena start)).symm
    have horder : w.order = (v.table start).order := congrArg RawTable.order h.table_eq
    have hfirst : w.start = (v.table start).start := congrArg RawTable.start h.table_eq
    have hrows := Visit.table_add_states (r := ⟨label, cells⟩) h.labels_subset hmem hbuilt
    have hplaces := Visit.table_add_order (r := ⟨label, cells⟩) h.labels_subset hmem
    simp only [table, hstates, hhandle, hmentions.order_eq, hmentions.start_eq, horder, hfirst,
      hstart, ← hrows, ← hplaces]
  case getElem?_handles =>
    intro l
    rw [hmentions.indexed.getElem?_handles, hlabels]
    rfl
  case built_eq =>
    rw [h.built_mentions hmentions label, Visit.flags_add h.labels_subset hmem]
  case pending_eq =>
    -- what waited has kept its handles
    have hstack : stack.map ((v.add ⟨label, cells⟩).handle start) = stack.map (v.handle start) :=
      List.map_congr_left fun l hl => v.handle_add start _ (h.stack_subset hl)
    rw [hmentions.pending_eq, hhandle, h.pending_eq, List.map_append, hstack, List.map_reverse]
  case stack_subset =>
    intro l hl
    rcases List.mem_append.mp hl with hl | hl
    · rw [← hlabels]
      exact hmentions.mem_labels (List.mem_reverse.mp hl)
    · exact v.arena_subset_add start _ (h.stack_subset hl)
  case labels_subset =>
    intro l hl
    rw [v.labels_add] at hl
    rcases List.mem_append.mp hl with hl | hl
    · exact v.arena_subset_add start _ (h.labels_subset hl)
    · rw [List.mem_singleton.mp hl]
      exact v.arena_subset_add start _ hmem
  case found_eq => rw [v.undeclaredHits_add, RuleSet.reportHits_append, ← h.found_eq, hfound]

/-- What has been found is what the exploration finds. -/
theorem findings_eq (h : Tracks R v start stack w) : w.findings = R.findings v := by
  rw [findings, h.found_eq, RuleSet.map_snd_reportHits]

end Tracks

end Worklist

end BreakRules
