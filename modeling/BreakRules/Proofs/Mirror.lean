import BreakRules.Proofs.Compile
import BreakRules.Proofs.Table

/-!
# Explorations in step

`R.Mirrors R' f start` says that `R'` has the cells of `R` under new names: on
every label that `R` leads to from `start` and every token, the verdict is the
same, and the next label is the renamed one. Nothing is said about labels that
`R` does not lead to. There the two rule sets may differ as they like, and so
may the labels that they could meet.

The two explorations then go on in step: `RuleSet.Mirrors.explore_eq`. Along the
way their stacks hold the same labels under the two sets of names, and a label
that can be reached is without a row in one of them if and only if it is so in
the other.

If no name is changed, this says that a table depends on the rules only through
the cells that can be reached.
-/

namespace BreakRules

/-! ### New names -/

def Visited.mapNames (f : String → String) (r : Visited) : Visited :=
  ⟨f r.label, r.row.map (·.map f)⟩

def Undecided.mapNames (f : String → String) (u : Undecided) : Undecided :=
  ⟨f u.state, f u.token⟩

def Visit.mapNames (f : String → String) (v : Visit) : Visit :=
  ⟨v.rows.map (·.mapNames f), v.stuck.map (·.mapNames f)⟩

/-- A raw table whose labels have new names. Handles stay. -/
def RawTable.mapNames (f : String → String) (t : RawTable) : RawTable :=
  { t with states := t.states.map fun s => ⟨f s.label, s.row⟩ }

/-- What building comes to, under new names. -/
def mapBuiltNames (f : String → String) :
    Except Undecided RawTable → Except Undecided RawTable
  | .ok t => .ok (t.mapNames f)
  | .error u => .error (u.mapNames f)

@[simp] theorem Cell.map_id {σ : Type} (c : Cell σ) : c.map id = c := rfl

@[simp] theorem RawTable.mapNames_id (t : RawTable) : t.mapNames id = t := by
  simp [mapNames]

@[simp] theorem mapBuiltNames_id (b : Except Undecided RawTable) : mapBuiltNames id b = b := by
  cases b with
  | ok t => simp [mapBuiltNames]
  | error u => rfl

section Injective

variable {f : String → String} (hf : Function.Injective f)
include hf

theorem distinct_map (l : List String) : distinct (l.map f) = (distinct l).map f := by
  induction l with
  | nil => rfl
  | cons a l ih =>
      have hne : ((· != f a) ∘ f) = (· != a) := by
        funext b
        simp [bne, hf.eq_iff]
      rw [List.map_cons, distinct_cons, distinct_cons, ih, List.filter_map, hne, List.map_cons]

theorem idxOf_map (l : List String) (a : String) : (l.map f).idxOf (f a) = l.idxOf a := by
  have heq : ((· == f a) ∘ f) = (· == a) := by
    funext b
    simp [hf.eq_iff]
  rw [List.idxOf, List.findIdx_map, heq, List.idxOf]

namespace Visit

variable (v : Visit) (start : String)

theorem arena_mapNames : (v.mapNames f).arena (f start) = (v.arena start).map f := by
  rw [arena, arena, ← distinct_map hf]
  simp [mapNames, Visited.mapNames, List.flatMap_map, List.map_flatMap, Function.comp_def, Cell.map]

theorem handle_mapNames (label : String) :
    (v.mapNames f).handle (f start) (f label) = v.handle start label := by
  rw [handle, arena_mapNames hf, idxOf_map hf, handle]

theorem rowOf_mapNames (label : String) :
    (v.mapNames f).rowOf (f label) = (v.rowOf label).map (·.map f) := by
  have heq : ((·.label == f label) ∘ Visited.mapNames f) = (·.label == label) := by
    funext r
    simp [Visited.mapNames, hf.eq_iff]
  simp only [rowOf, mapNames, List.find?_map, heq]
  cases v.rows.find? (·.label == label) with
  | none => rfl
  | some r => rfl

theorem table_mapNames : (v.mapNames f).table (f start) = (v.table start).mapNames f := by
  have hstates : ((v.mapNames f).table (f start)).states =
      (v.table start).states.map fun s => ⟨f s.label, s.row⟩ := by
    rw [table_states, table_states, arena_mapNames hf, List.map_map, List.map_map]
    refine List.map_congr_left fun label _ => ?_
    simp only [Function.comp_apply, rowOf_mapNames hf, List.map_map, RawState.mk.injEq, true_and]
    refine List.map_congr_left fun c _ => ?_
    simp only [Function.comp_apply, Cell.map, handle_mapNames hf]
  have horder : ((v.mapNames f).table (f start)).order = (v.table start).order := by
    rw [table_order, table_order, labels, labels, mapNames, List.map_map, List.map_map,
      List.map_map]
    exact List.map_congr_left fun r _ => v.handle_mapNames hf start r.label
  have hstart : ((v.mapNames f).table (f start)).start = (v.table start).start :=
    v.handle_mapNames hf start start
  rw [RawTable.mapNames, ← hstates, ← horder, ← hstart]

end Visit

end Injective

/-! ### Two rule sets -/

/-- Mapping over renamed entries, where every value is the renamed value. -/
theorem mapM_map_eq {β : Type} {f : String → String} {F : β → β}
    {g g' : String → Except String β} {l : List String}
    (h : ∀ a ∈ l, g' (f a) = ((g a).map F).mapError f) :
    (l.map f).mapM g' = ((l.mapM g).map (List.map F)).mapError f := by
  induction l with
  | nil => rfl
  | cons a l ih =>
      obtain ⟨ha, hl⟩ := List.forall_mem_cons.mp h
      rw [List.map_cons, List.mapM_cons, List.mapM_cons, ha, ih hl]
      cases g a with
      | error e => rfl
      | ok b =>
          cases l.mapM g with
          | error e => rfl
          | ok bs => rfl

namespace RuleSet

/-- `R'` has the cells of `R` under new names, on the labels that `R` leads to. -/
structure Mirrors (R R' : RuleSet) (f : String → String) (start : String) : Prop where
  injective : Function.Injective f
  tokens_eq : R'.tokens = R.tokens.map f
  verdict_eq : ∀ label, R.Reaches start label → ∀ token ∈ R.tokens,
    (R'.scan (f label) (f token)).verdict = (R.scan label token).verdict
  next_eq : ∀ label, R.Reaches start label → ∀ token ∈ R.tokens,
    (R'.scan (f label) (f token)).next = f (R.scan label token).next

namespace Mirrors

variable {R R' : RuleSet} {f : String → String} {start : String} (h : R.Mirrors R' f start)
include h

theorem reaches {label : String} (hreach : R.Reaches start label) :
    R'.Reaches (f start) (f label) := by
  induction hreach with
  | refl => exact .refl
  | @step label token hreach htoken ih =>
      have htoken' : f token ∈ R'.tokens := by
        rw [h.tokens_eq]
        exact List.mem_map_of_mem htoken
      exact h.next_eq label hreach token htoken ▸ ih.step htoken'

theorem row_eq {label : String} (hreach : R.Reaches start label) :
    R'.row (f label) = ((R.row label).map (List.map (·.map f))).mapError f := by
  rw [row, row, h.tokens_eq]
  refine mapM_map_eq fun token htoken => ?_
  rw [cell_facing, cell_facing, h.verdict_eq label hreach token htoken,
    h.next_eq label hreach token htoken]
  cases (R.scan label token).verdict with
  | none => rfl
  | some verdict => rfl

/-- The explorations go on in step, as long as what can be reached is without a
row in both or in none of them. -/
theorem visit_eq (remaining : Std.HashSet String) (stack : List String)
    (hstack : ∀ label ∈ stack, R.Reaches start label) :
    ∀ remaining' : Std.HashSet String,
      (∀ label, R.Reaches start label → (f label ∈ remaining' ↔ label ∈ remaining)) →
      R'.visit remaining' (stack.map f) = (R.visit remaining stack).mapNames f := by
  fun_induction R.visit remaining stack with
  | case1 remaining =>
      intro remaining' hremaining
      rw [List.map_nil, visit]
      rfl
  | case2 remaining label rest hmem token hrow =>
      intro remaining' hremaining
      obtain ⟨hlabel, -⟩ := List.forall_mem_cons.mp hstack
      rw [List.map_cons, visit, dif_pos ((hremaining label hlabel).mpr hmem), h.row_eq hlabel,
        hrow]
      rfl
  | case3 remaining label rest hmem cells hrow v ih =>
      intro remaining' hremaining
      obtain ⟨hlabel, hrest⟩ := List.forall_mem_cons.mp hstack
      have hpushed : ∀ s ∈ (cells.map (·.next)).reverse ++ rest, R.Reaches start s := by
        intro s hs
        rcases List.mem_append.mp hs with hs | hs
        · rw [List.mem_reverse, List.mem_map] at hs
          obtain ⟨token, htoken, rfl⟩ := (mem_row_next_iff hrow).mp hs
          exact hlabel.step htoken
        · exact hrest s hs
      have herased : ∀ other, R.Reaches start other →
          (f other ∈ remaining'.erase (f label) ↔ other ∈ remaining.erase label) := by
        intro other hother
        rw [Std.HashSet.mem_erase, Std.HashSet.mem_erase, hremaining other hother,
          beq_eq_false_iff_ne, beq_eq_false_iff_ne, h.injective.ne_iff]
      have hmapped : ((cells.map (·.map f)).map (·.next)).reverse ++ rest.map f =
          ((cells.map (·.next)).reverse ++ rest).map f := by
        simp [Cell.map, Function.comp_def]
      rw [List.map_cons, visit, dif_pos ((hremaining label hlabel).mpr hmem), h.row_eq hlabel,
        hrow]
      simp only [Except.map, Except.mapError, hmapped, ih hpushed _ herased]
      rfl
  | case4 remaining label rest hmem ih =>
      intro remaining' hremaining
      obtain ⟨hlabel, hrest⟩ := List.forall_mem_cons.mp hstack
      rw [List.map_cons, visit, dif_neg (mt (hremaining label hlabel).mp hmem)]
      exact ih hrest remaining' hremaining

theorem explore_eq : R'.explore (f start) = (R.explore start).mapNames f := by
  rw [explore, explore]
  refine h.visit_eq _ [start] ?_ _ ?_
  · intro label hlabel
    rw [List.mem_singleton.mp hlabel]
    exact .refl
  · -- what can be reached is among the labels on both sides
    intro label hreach
    exact iff_of_true (mem_ofList_labels.mpr (h.reaches hreach).mem_labels)
      (mem_ofList_labels.mpr hreach.mem_labels)

theorem build_eq : R'.build (f start) = mapBuiltNames f (R.build start) := by
  rw [build, build, h.explore_eq, Visit.mapNames]
  cases (R.explore start).stuck with
  | some u => rfl
  | none =>
      simp only [Option.map_none, mapBuiltNames]
      rw [← (R.explore start).table_mapNames h.injective start]
      rfl

end Mirrors

/-! ### The cells that can be reached -/

/-- Two rule sets have the same cells on the labels that the first one leads to. -/
def SameCells (R R' : RuleSet) (start : String) : Prop :=
  ∀ label, R.Reaches start label → ∀ token ∈ R.tokens,
    (R'.scan label token).verdict = (R.scan label token).verdict ∧
      (R'.scan label token).next = (R.scan label token).next

def without (R : RuleSet) (i : Nat) : RuleSet :=
  { R with rules := R.rules.eraseIdx i }

theorem SameCells.mirrors {R R' : RuleSet} {start : String} (h : R.SameCells R' start)
    (htokens : R'.tokens = R.tokens) : R.Mirrors R' id start where
  injective := Function.injective_id
  tokens_eq := by rw [htokens, List.map_id]
  verdict_eq label hreach token htoken := (h label hreach token htoken).1
  next_eq label hreach token htoken := (h label hreach token htoken).2

theorem SameCells.build_eq {R R' : RuleSet} {start : String} (h : R.SameCells R' start)
    (htokens : R'.tokens = R.tokens) : R'.build start = R.build start := by
  rw [← mapBuiltNames_id (R.build start)]
  exact (h.mirrors htokens).build_eq

/-- Building sees the rules through the cells that can be reached. Two rule sets
over one alphabet that have these cells in common come to the same undecided
cell or to the same table, and to the same machine; so does a rule set without
a rule that none of these cells depends on. -/
theorem build_eq_of_reachable_cells (start : String) :
    (∀ R R' : RuleSet, R'.tokens = R.tokens → R.SameCells R' start →
      R'.build start = R.build start ∧
      (R'.build start).map (·.merge R'.tokens) = (R.build start).map (·.merge R.tokens)) ∧
    ∀ (R : RuleSet) (i : Nat), R.SameCells (R.without i) start →
      (R.without i).build start = R.build start ∧
      ((R.without i).build start).map (·.merge (R.without i).tokens) =
        (R.build start).map (·.merge R.tokens) := by
  have hsame : ∀ R R' : RuleSet, R'.tokens = R.tokens → R.SameCells R' start →
      R'.build start = R.build start ∧
      (R'.build start).map (·.merge R'.tokens) = (R.build start).map (·.merge R.tokens) := by
    intro R R' htokens hcells
    have hbuild := hcells.build_eq htokens
    exact ⟨hbuild, by rw [hbuild, htokens]⟩
  exact ⟨hsame, fun R i hcells => hsame R (R.without i) rfl hcells⟩

/-- `sampleRules` behind a transition from a state that nothing leads to. -/
def idleRules : RuleSet :=
  { sampleRules with rules := ⟨.transition (.name "Q") .any "Z", none, 3⟩ :: sampleRules.rules }

theorem sameCells_idleRules : idleRules.SameCells sampleRules "S0" := by
  have hcells : ∀ label ∈ ["S0", "A", "B", "Z"], ∀ token ∈ idleRules.tokens,
      (sampleRules.scan label token).verdict = (idleRules.scan label token).verdict ∧
        (sampleRules.scan label token).next = (idleRules.scan label token).next := by
    decide
  intro label hreach
  refine hcells label ?_
  simpa [labels, idleRules, sampleRules, target?] using hreach.mem_labels

theorem build_eq_of_reachable_cells_idleRules :
    idleRules.SameCells (idleRules.without 0) "S0" ∧ "Z" ∈ idleRules.labels "S0" ∧
      "Z" ∉ sampleRules.labels "S0" ∧ sampleRules.build "S0" = idleRules.build "S0" := by
  refine ⟨sameCells_idleRules, ?_, ?_, ?_⟩
  · simp [labels, idleRules, sampleRules, target?]
  · simp [labels, sampleRules, target?]
  · exact ((build_eq_of_reachable_cells "S0").2 idleRules 0 sameCells_idleRules).1

end RuleSet

end BreakRules
