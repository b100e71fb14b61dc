import BreakRules.Proofs.Findings
import BreakRules.Proofs.Reach

/-!
# Building a raw table by handles

An exploration goes by labels and gives out handles when it is over. A
`Worklist` builds the same table in one pass and goes by handles from the start:
a label gets its handle when it is first mentioned, the stack holds handles, and
a state is looked up by its handle when it comes up. Such a look-up can miss, in
which case the loop ends with `Fault.outOfRange`. A decision that is hit by a
name outside of the alphabet is reported on the spot, if it has not been before.
`Worklist.turn` is one turn of the loop and `Worklist.turns` are several; that
they come to the table and the findings of the exploration, and that no look-up
ever misses, is shown elsewhere.

Here it is said what building one row does. A work list is indexed if its labels
are without repetitions and every label is found at its handle. Mentioning names
puts those that are new, `fresh known names`, at the end of the arena, so that
old handles stay: `Worklist.Mentions`. Filling the row of a state mentions its
successors and reports its hits: `Worklist.fill_eq_ok`.
-/

namespace BreakRules

/-- A loop that builds a raw table, between two turns. -/
structure Worklist where
  /-- The states that have been mentioned. The place of a state is its handle. -/
  states : List RawState := []
  /-- The handles of the labels that have been mentioned. -/
  handles : Std.HashMap String Nat := ∅
  /-- For every handle, whether the row of its state has been built. -/
  built : List Bool := []
  /-- The handles of the states with a row, in build order. -/
  order : List Nat := []
  start : Nat := 0
  /-- The handles that wait, the next one first. -/
  pending : List Nat := []
  /-- What has been found, by the positions of the rules. -/
  found : Std.TreeMap Nat Finding := ∅

namespace Worklist

inductive Fault where
  | undecided (u : Undecided)
  /-- A handle was looked up that no state has. -/
  | outOfRange

/-- The labels that have been mentioned, in the order of their handles. -/
def labels (w : Worklist) : List String :=
  w.states.map (·.label)

def table (w : Worklist) : RawTable :=
  ⟨w.states, w.order, w.start⟩

/-- What has been found, in the order of the rules. -/
def findings (w : Worklist) : List Finding :=
  w.found.toList.map (·.2)

/-- Every handle that a turn looks up or notes has a state, and a flag as well. -/
structure InRange (w : Worklist) : Prop where
  length_built : w.built.length = w.states.length
  pending_lt : ∀ handle ∈ w.pending, handle < w.states.length
  next_lt : ∀ state ∈ w.states, ∀ c ∈ state.row, c.next < w.states.length

/-! ### The loop -/

/-- The handle of a label. A label without one gets a state without a row. -/
def intern (w : Worklist) (label : String) : Worklist × Nat :=
  match w.handles[label]? with
  | some handle => (w, handle)
  | none =>
      ({ w with
          states := w.states ++ [⟨label, []⟩]
          handles := w.handles.insert label w.states.length
          built := w.built ++ [false] },
        w.states.length)

/-- Puts the handle of a label on the stack. -/
def mention (w : Worklist) (label : String) : Worklist × Nat :=
  let (w', handle) := w.intern label
  ({ w' with pending := handle :: w'.pending }, handle)

/-- The loop before its first turn, with the start on the stack. -/
def begin (start : String) : Worklist :=
  let (w, handle) := mention {} start
  { w with start := handle }

def report (R : RuleSet) (label token : String) (w : Worklist) : Worklist :=
  { w with found := R.reportHits w.found (R.hitsAt label token) }

/-- The cells under tokens in the row of a label, or the first token that is
undecided. The hits are reported and the successors mentioned. -/
def fill (R : RuleSet) (label : String) :
    Worklist → List String → Except Undecided (Worklist × List (Cell Nat))
  | w, [] => .ok (w, [])
  | w, token :: rest =>
      match (R.scan label token).verdict with
      | none => .error ⟨label, token⟩
      | some verdict =>
          let (w', next) := (w.report R label token).mention (R.scan label token).next
          (fill R label w' rest).map fun (w'', cells) => (w'', ⟨verdict, next⟩ :: cells)

/-- Gives a state its row. The row is also noted in the journal, by the labels of
the successors, so these are looked up as well. -/
def settle (w : Worklist) (handle : Nat) (cells : List (Cell Nat)) : Except Fault Worklist :=
  if handle < w.states.length ∧ handle < w.built.length ∧
      ∀ c ∈ cells, c.next < w.states.length then
    .ok { w with
      states := w.states.modify handle fun state => { state with row := cells }
      built := w.built.set handle true
      order := w.order ++ [handle] }
  else .error .outOfRange

def buildRow (R : RuleSet) (w : Worklist) (handle : Nat) (label : String) :
    Except Fault Worklist :=
  match fill R label w R.tokens with
  | .error u => .error (.undecided u)
  | .ok (w', cells) => w'.settle handle cells

/-- One turn: takes the next handle from the stack and builds the row of its
state if it has none. -/
def turn (R : RuleSet) (w : Worklist) : Except Fault Worklist :=
  match w.pending with
  | [] => .ok w
  | handle :: rest =>
      match w.built[handle]? with
      | none => .error .outOfRange
      | some true => .ok { w with pending := rest }
      | some false =>
          match w.states[handle]? with
          | none => .error .outOfRange
          | some state => { w with pending := rest }.buildRow R handle state.label

/-- Several turns. A loop with nothing on its stack is over. -/
def turns (R : RuleSet) : Nat → Worklist → Except Fault Worklist
  | 0, w => .ok w
  | n + 1, w => (w.turn R).bind (turns R n)

/-! ### Labels that are mentioned -/

/-- The names that are not known, in the order of their first occurrence. -/
def fresh (known names : List String) : List String :=
  (distinct names).filter fun name => !known.contains name

theorem mem_fresh_iff {known names : List String} {name : String} :
    name ∈ fresh known names ↔ name ∈ names ∧ name ∉ known := by
  simp [fresh]

theorem distinct_append_eq_fresh (known names : List String) :
    distinct (known ++ names) = distinct known ++ fresh known names :=
  distinct_append known names

theorem fresh_append (known names more : List String) :
    fresh known (names ++ more) =
      fresh known names ++ fresh (known ++ fresh known names) more := by
  have hboth : ∀ name, (!known.contains name && !names.contains name) =
      !(known ++ fresh known names).contains name := by
    intro name
    rw [Bool.eq_iff_iff]
    simp only [Bool.and_eq_true, Bool.not_eq_true', List.contains_eq_mem, decide_eq_false_iff_not,
      List.mem_append, mem_fresh_iff]
    tauto
  rw [fresh, distinct_append, List.filter_append, List.filter_filter]
  simp only [hboth]
  rfl

theorem fresh_of_mem {known : List String} {name : String} (h : name ∈ known) :
    fresh known [name] = [] := by
  simp [fresh, distinct_cons, h]

theorem fresh_of_not_mem {known : List String} {name : String} (h : name ∉ known) :
    fresh known [name] = [name] := by
  simp [fresh, distinct_cons, h]

/-- No label has two handles, and every label is found at its handle. -/
structure Indexed (w : Worklist) : Prop where
  nodup_labels : w.labels.Nodup
  getElem?_handles : ∀ label,
    w.handles[label]? = if label ∈ w.labels then some (w.labels.idxOf label) else none

/-- `w'` is `w` after `names` have been mentioned, one after the other. -/
structure Mentions (w : Worklist) (names : List String) (w' : Worklist) : Prop where
  indexed : w'.Indexed
  states_eq : w'.states = w.states ++ (fresh w.labels names).map (⟨·, []⟩)
  built_eq : w'.built = w.built ++ (fresh w.labels names).map fun _ => false
  order_eq : w'.order = w.order
  start_eq : w'.start = w.start
  pending_eq : w'.pending = (names.map w'.labels.idxOf).reverse ++ w.pending

namespace Mentions

variable {w w' : Worklist} {names : List String}

theorem labels_eq (h : w.Mentions names w') :
    w'.labels = w.labels ++ fresh w.labels names := by
  rw [labels, h.states_eq, List.map_append, List.map_map]
  exact congrArg (w.labels ++ ·) (List.map_id _)

theorem mem_labels (h : w.Mentions names w') {name : String} (hname : name ∈ names) :
    name ∈ w'.labels := by
  rw [h.labels_eq, List.mem_append, mem_fresh_iff]
  by_cases hknown : name ∈ w.labels
  · exact .inl hknown
  · exact .inr ⟨hname, hknown⟩

/-- A label keeps its handle. -/
theorem idxOf_labels (h : w.Mentions names w') {label : String} (hlabel : label ∈ w.labels) :
    w'.labels.idxOf label = w.labels.idxOf label := by
  rw [h.labels_eq, List.idxOf_append_of_mem hlabel]

protected theorem nil (hw : w.Indexed) : w.Mentions [] w where
  indexed := hw
  states_eq := by simp [fresh]
  built_eq := by simp [fresh]
  order_eq := rfl
  start_eq := rfl
  pending_eq := rfl

protected theorem trans {w'' : Worklist} {more : List String} (h : w.Mentions names w')
    (h' : w'.Mentions more w'') : w.Mentions (names ++ more) w'' where
  indexed := h'.indexed
  states_eq := by
    rw [h'.states_eq, h.states_eq, h.labels_eq, fresh_append, List.map_append, List.append_assoc]
  built_eq := by
    rw [h'.built_eq, h.built_eq, h.labels_eq, fresh_append, List.map_append, List.append_assoc]
  order_eq := h'.order_eq.trans h.order_eq
  start_eq := h'.start_eq.trans h.start_eq
  pending_eq := by
    have hold : names.map w''.labels.idxOf = names.map w'.labels.idxOf :=
      List.map_congr_left fun name hname => h'.idxOf_labels (h.mem_labels hname)
    rw [h'.pending_eq, h.pending_eq, List.map_append, hold, List.reverse_append,
      List.append_assoc]

end Mentions

theorem found_mention (w : Worklist) (label : String) : (w.mention label).1.found = w.found := by
  cases hhandle : w.handles[label]? with
  | none => simp only [mention, intern, hhandle]
  | some handle => simp only [mention, intern, hhandle]

theorem indexed_empty : ({} : Worklist).Indexed :=
  ⟨List.nodup_nil, fun _ => by simp [labels]⟩

section Mention

variable {w : Worklist} (hw : w.Indexed) {label : String}
include hw

theorem mention_of_mem (hlabel : label ∈ w.labels) :
    w.mention label =
      ({ w with pending := w.labels.idxOf label :: w.pending }, w.labels.idxOf label) := by
  have hfound := hw.getElem?_handles label
  rw [if_pos hlabel] at hfound
  simp only [mention, intern, hfound]

theorem mention_of_not_mem (hlabel : label ∉ w.labels) :
    w.mention label =
      ({ w with
          states := w.states ++ [⟨label, []⟩]
          handles := w.handles.insert label w.states.length
          built := w.built ++ [false]
          pending := w.states.length :: w.pending },
        w.states.length) := by
  have hfound := hw.getElem?_handles label
  rw [if_neg hlabel] at hfound
  simp only [mention, intern, hfound]

/-- A new label gets the handle behind all others. -/
theorem Indexed.insert {w' : Worklist} (hlabel : label ∉ w.labels)
    (hlabels : w'.labels = w.labels ++ [label])
    (hhandles : w'.handles = w.handles.insert label w.states.length) : w'.Indexed where
  nodup_labels := by
    rw [hlabels]
    exact (List.perm_append_singleton label w.labels).nodup_iff.mpr
      (List.nodup_cons.mpr ⟨hlabel, hw.nodup_labels⟩)
  getElem?_handles := by
    intro other
    have hlength : w.labels.length = w.states.length := List.length_map _
    rw [hhandles, Std.HashMap.getElem?_insert, hw.getElem?_handles, hlabels]
    by_cases hother : other = label
    · subst hother
      have hmem : other ∈ w.labels ++ [other] := by simp
      rw [if_pos (beq_self_eq_true other), if_pos hmem, List.idxOf_append_of_notMem hlabel,
        List.idxOf_cons_self, Nat.add_zero, hlength]
    · have hmem : other ∈ w.labels ++ [label] ↔ other ∈ w.labels := by simp [hother]
      rw [if_neg (by simpa using Ne.symm hother)]
      by_cases hknown : other ∈ w.labels
      · rw [if_pos hknown, if_pos (hmem.mpr hknown), List.idxOf_append_of_mem hknown]
      · rw [if_neg hknown, if_neg (mt hmem.mp hknown)]

/-- Mentioning a label gives its handle. -/
theorem mention_spec (label : String) :
    w.Mentions [label] (w.mention label).1 ∧
      (w.mention label).2 = (w.mention label).1.labels.idxOf label := by
  by_cases hlabel : label ∈ w.labels
  · rw [mention_of_mem hw hlabel]
    refine ⟨⟨⟨hw.nodup_labels, hw.getElem?_handles⟩, ?_, ?_, rfl, rfl, rfl⟩, rfl⟩
    · rw [fresh_of_mem hlabel, List.map_nil, List.append_nil]
    · rw [fresh_of_mem hlabel, List.map_nil, List.append_nil]
  · have hlabels : (w.mention label).1.labels = w.labels ++ [label] := by
      rw [mention_of_not_mem hw hlabel, labels, List.map_append]
      rfl
    have hhandle : (w.mention label).2 = (w.mention label).1.labels.idxOf label := by
      rw [hlabels, List.idxOf_append_of_notMem hlabel, List.idxOf_cons_self, Nat.add_zero,
        mention_of_not_mem hw hlabel]
      exact (List.length_map _).symm
    refine ⟨⟨hw.insert hlabel hlabels ?_, ?_, ?_, ?_, ?_, ?_⟩, hhandle⟩
    · rw [mention_of_not_mem hw hlabel]
    · rw [fresh_of_not_mem hlabel, mention_of_not_mem hw hlabel]
      rfl
    · rw [fresh_of_not_mem hlabel, mention_of_not_mem hw hlabel]
      rfl
    · rw [mention_of_not_mem hw hlabel]
    · rw [mention_of_not_mem hw hlabel]
    · rw [List.map_singleton, ← hhandle, mention_of_not_mem hw hlabel]
      rfl

end Mention

/-! ### Rows -/

/-- Reports leave the labels alone. -/
theorem Indexed.report {w : Worklist} (hw : w.Indexed) (R : RuleSet) (label token : String) :
    (w.report R label token).Indexed :=
  ⟨hw.nodup_labels, hw.getElem?_handles⟩

theorem Mentions.of_report {R : RuleSet} {label token : String} {w w' : Worklist}
    {names : List String} (h : (w.report R label token).Mentions names w') :
    w.Mentions names w' :=
  ⟨h.indexed, h.states_eq, h.built_eq, h.order_eq, h.start_eq, h.pending_eq⟩

theorem settle_eq_ok {w : Worklist} {handle : Nat} {cells : List (Cell Nat)}
    (hstate : handle < w.states.length) (hflag : handle < w.built.length)
    (hcells : ∀ c ∈ cells, c.next < w.states.length) :
    w.settle handle cells =
      .ok { w with
        states := w.states.modify handle fun state => { state with row := cells }
        built := w.built.set handle true
        order := w.order ++ [handle] } :=
  if_pos ⟨hstate, hflag, hcells⟩

/-- A row that can be built is filled with the handles of its successors, which
are mentioned, and its hits are reported. -/
theorem fill_eq_ok {R : RuleSet} {label : String} {tokens : List String}
    {cells : List (Cell String)} (hcells : List.Forall₂ (R.Answers label) tokens cells)
    {w : Worklist} (hw : w.Indexed) :
    ∃ w', w.Mentions (cells.map (·.next)) w' ∧
      w'.found = R.reportHits w.found (tokens.flatMap (R.hitsAt label)) ∧
      fill R label w tokens = .ok (w', cells.map (·.map w'.labels.idxOf)) := by
  induction hcells generalizing w with
  | nil => exact ⟨w, .nil hw, rfl, rfl⟩
  | @cons token c tokens cells hc _ ih =>
      obtain ⟨hfirst, hhandle⟩ := mention_spec (hw.report R label token) c.next
      obtain ⟨w', hrest, hfound, hfill⟩ := ih hfirst.indexed
      refine ⟨w', hfirst.of_report.trans hrest, ?_, ?_⟩
      · rw [hfound, found_mention, List.flatMap_cons, RuleSet.reportHits_append]
        rfl
      · have hnext : ((w.report R label token).mention c.next).2 = w'.labels.idxOf c.next := by
          rw [hhandle, hrest.idxOf_labels (hfirst.mem_labels (List.mem_singleton_self _))]
        simp only [fill, hc.1, hc.2, hfill, hnext]
        rfl

/-- A row that cannot be built is left at the first token without a verdict. -/
theorem fill_eq_error {R : RuleSet} {label bad : String} {before after : List String}
    (hbefore : ∀ token ∈ before, R.Decides label token) (hbad : ¬ R.Decides label bad)
    (w : Worklist) : fill R label w (before ++ bad :: after) = .error ⟨label, bad⟩ := by
  induction before generalizing w with
  | nil =>
      have hverdict : (R.scan label bad).verdict = none := by
        simpa [RuleSet.Decides] using hbad
      simp only [List.nil_append, fill, hverdict]
  | cons token before ih =>
      obtain ⟨hfirst, hrest⟩ := List.forall_mem_cons.mp hbefore
      obtain ⟨verdict, hverdict⟩ := Option.isSome_iff_exists.mp hfirst
      simp only [List.cons_append, fill, hverdict, ih hrest]
      rfl

end Worklist

end BreakRules
