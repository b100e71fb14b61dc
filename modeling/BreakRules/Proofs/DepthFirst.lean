import BreakRules.Proofs.Table
import Mathlib

/-!
# Depth-first order

`depthFirst next visited pending` is the recursive depth-first search: it enters
the entries of `pending` one after the other, each with everything below it, and
passes over what has been visited. `R.preorder start` are the labels in the
order in which the search from `start` enters them, when the successors of a
label are taken from the last token to the first. The search does not ask for
verdicts.

The exploration of a rule set is no recursion. It keeps a stack, puts every
successor on it and looks at a label only when it comes up. The two agree because
a search through two lists, one behind the other, is the search through the
first followed by the search through the second, with all that the first has
visited: `depthFirst_append`. So what is below a label can be searched in front
of what waited with it, and a label that comes up a second time has been visited
by then. What an exploration builds is the rows along the preorder, up to the
first label that has none: `RuleSet.explore_eq_visitAlong`.
-/

namespace BreakRules

/-! ### The search -/

/-- What is left to visit gets less when something new has been visited. -/
theorem card_compl_lt_of_insert_subset {α : Type} [Fintype α] [DecidableEq α]
    {visited more : Finset α} {a : α} (ha : a ∉ visited) (hmore : insert a visited ⊆ more) :
    moreᶜ.card < visitedᶜ.card := by
  have hsubset : moreᶜ ⊆ visitedᶜ :=
    Finset.compl_subset_compl.mpr ((Finset.subset_insert a visited).trans hmore)
  have hnot : a ∉ moreᶜ := fun h =>
    Finset.mem_compl.mp h (hmore (Finset.mem_insert_self a visited))
  exact Finset.card_lt_card ((Finset.ssubset_iff_of_subset hsubset).mpr
    ⟨a, Finset.mem_compl.mpr ha, hnot⟩)

/-- What a depth-first search through `pending` enters, in order: every entry
that has not been visited, then what is below it, then the rest. -/
def depthFirst {α : Type} [Fintype α] [DecidableEq α] (next : α → List α)
    (visited : Finset α) : List α → List α
  | [] => []
  | a :: rest =>
      if _h : a ∈ visited then depthFirst next visited rest
      else
        let below := depthFirst next (insert a visited) (next a)
        a :: below ++ depthFirst next (insert a visited ∪ below.toFinset) rest
termination_by pending => (visitedᶜ.card, pending.length)
decreasing_by
  · apply Prod.Lex.right
    simp
  · apply Prod.Lex.left
    exact card_compl_lt_of_insert_subset _h (Finset.Subset.refl _)
  · apply Prod.Lex.left
    exact card_compl_lt_of_insert_subset _h Finset.subset_union_left

section Search

variable {α : Type} [Fintype α] [DecidableEq α] (next : α → List α)

@[simp] theorem depthFirst_nil (visited : Finset α) : depthFirst next visited [] = [] := by
  rw [depthFirst]

theorem depthFirst_cons_of_mem {visited : Finset α} {a : α} (ha : a ∈ visited)
    (rest : List α) : depthFirst next visited (a :: rest) = depthFirst next visited rest := by
  rw [depthFirst, dif_pos ha]

theorem depthFirst_cons_of_not_mem {visited : Finset α} {a : α} (ha : a ∉ visited)
    (rest : List α) :
    depthFirst next visited (a :: rest) =
      a :: depthFirst next (insert a visited) (next a) ++
        depthFirst next
          (insert a visited ∪ (depthFirst next (insert a visited) (next a)).toFinset) rest := by
  rw [depthFirst, dif_neg ha]

/-- A search through two lists goes through the first, and then through the
second with what the first has visited. -/
theorem depthFirst_append (visited : Finset α) (first second : List α) :
    depthFirst next visited (first ++ second) =
      depthFirst next visited first ++
        depthFirst next (visited ∪ (depthFirst next visited first).toFinset) second := by
  fun_induction depthFirst next visited first with
  | case1 visited => simp
  | case2 visited a rest ha ih =>
      rw [List.cons_append, depthFirst_cons_of_mem next ha]
      exact ih
  | case3 visited a rest ha below _ ihrest =>
      have hvisited : ∀ later : List α,
          insert a visited ∪ below.toFinset ∪ later.toFinset =
            visited ∪ (a :: below ++ later).toFinset := by
        intro later
        ext x
        simp
      rw [List.cons_append, depthFirst_cons_of_not_mem next ha, ihrest, hvisited,
        List.append_assoc]

/-- What is below an entry can be searched in front of what waited behind it. -/
theorem depthFirst_cons_eq_push {visited : Finset α} {a : α} (ha : a ∉ visited)
    (rest : List α) :
    depthFirst next visited (a :: rest) =
      a :: depthFirst next (insert a visited) (next a ++ rest) := by
  rw [depthFirst_cons_of_not_mem next ha, depthFirst_append, List.cons_append]

end Search

namespace RuleSet

/-! ### The preorder of labels -/

/-- The labels that the tokens lead to, in the order of the alphabet. -/
def successors (R : RuleSet) (label : String) : List String :=
  R.tokens.map fun token => (R.scan label token).next

/-- A label that can turn up in an exploration from `start`. There are finitely
many, and their successors are among them. -/
abbrev Label (R : RuleSet) (start : String) : Type :=
  { label : String // label ∈ R.labels start }

/-- The successors of a label, from the last token to the first. -/
def Label.below {R : RuleSet} {start : String} (label : R.Label start) :
    List (R.Label start) :=
  (R.tokens.attach.map fun token =>
    ⟨(R.scan label token).next, R.scan_next_mem_labels start label token.2⟩).reverse

theorem Label.map_val_below {R : RuleSet} {start : String} (label : R.Label start) :
    label.below.map (·.val) = (R.successors label).reverse := by
  rw [below, List.map_reverse, List.map_map, successors]
  congr 1
  exact List.attach_map_val (f := fun token => (R.scan label token).next)

/-- The labels in the order in which the depth-first search from `start` enters
them. -/
def preorder (R : RuleSet) (start : String) : List String :=
  (depthFirst Label.below ∅ [⟨start, R.start_mem_labels start⟩]).map (·.val)

/-! ### Rows along a list of labels -/

/-- Builds the rows of labels one after the other, up to the first that has none. -/
def visitAlong (R : RuleSet) : List String → Visit
  | [] => ⟨[], none⟩
  | label :: rest =>
      match R.row label with
      | .error token => ⟨[], some ⟨label, token⟩⟩
      | .ok cells => ⟨⟨label, cells⟩ :: (R.visitAlong rest).rows, (R.visitAlong rest).stuck⟩

theorem labels_visitAlong {R : RuleSet} {labels : List String}
    (hstuck : (R.visitAlong labels).stuck = none) : (R.visitAlong labels).labels = labels := by
  fun_induction R.visitAlong labels with
  | case1 => rfl
  | case2 label rest token hrow => cases hstuck
  | case3 label rest cells hrow ih => exact congrArg (label :: ·) (ih hstuck)

/-- The rows end at the first label that has none. -/
theorem exists_of_visitAlong_stuck {R : RuleSet} {labels : List String} {u : Undecided}
    (hstuck : (R.visitAlong labels).stuck = some u) :
    ∃ before after, labels = before ++ u.state :: after ∧
      (∀ label ∈ before, ∃ cells, R.row label = .ok cells) ∧ R.row u.state = .error u.token := by
  fun_induction R.visitAlong labels with
  | case1 => cases hstuck
  | case2 label rest token hrow =>
      cases hstuck
      exact ⟨[], rest, rfl, by simp, hrow⟩
  | case3 label rest cells hrow ih =>
      obtain ⟨before, after, rfl, hbefore, herror⟩ := ih hstuck
      refine ⟨label :: before, after, rfl, ?_, herror⟩
      exact List.forall_mem_cons.mpr ⟨⟨cells, hrow⟩, hbefore⟩

/-- The successors in a row are those of its label. -/
theorem map_next_of_row {R : RuleSet} {label : String} {cells : List (Cell String)}
    (h : R.row label = .ok cells) : cells.map (·.next) = R.successors label := by
  have hrow := row_eq_ok_iff.mp h
  rw [successors]
  clear h
  generalize R.tokens = tokens at hrow
  induction hrow with
  | nil => rfl
  | cons hc _ ih => rw [List.map_cons, List.map_cons, ih, hc.2]

/-! ### The exploration -/

/-- The exploration from a stack builds the rows along the search through it, if
the labels without a row are those that have not been visited. -/
theorem visit_eq_visitAlong {R : RuleSet} (start : String) (remaining : Std.HashSet String)
    (stack : List String) :
    ∀ (visited : Finset (R.Label start)) (pending : List (R.Label start)),
      pending.map (·.val) = stack →
      (∀ label : R.Label start, label.val ∈ remaining ↔ label ∉ visited) →
      R.visit remaining stack =
        R.visitAlong ((depthFirst Label.below visited pending).map (·.val)) := by
  fun_induction RuleSet.visit R remaining stack with
  | case1 remaining =>
      intro visited pending hstack _
      rw [List.map_eq_nil_iff.mp hstack, depthFirst_nil]
      rfl
  | case2 remaining first rest hfirst token hrow =>
      intro visited _ hstack hvisited
      obtain ⟨label, pending, rfl, rfl, rfl⟩ := List.map_eq_cons_iff.mp hstack
      have hnew : label ∉ visited := (hvisited label).mp hfirst
      rw [depthFirst_cons_eq_push _ hnew, List.map_cons, visitAlong, hrow]
  | case3 remaining first rest hfirst cells hrow v ih =>
      intro visited _ hstack hvisited
      obtain ⟨label, pending, rfl, rfl, rfl⟩ := List.map_eq_cons_iff.mp hstack
      have hnew : label ∉ visited := (hvisited label).mp hfirst
      have hpush : (label.below ++ pending).map (·.val) =
          (cells.map (·.next)).reverse ++ pending.map (·.val) := by
        rw [List.map_append, label.map_val_below, map_next_of_row hrow]
      have hinsert : ∀ other : R.Label start,
          other.val ∈ remaining.erase label ↔ other ∉ insert label visited := by
        intro other
        rw [Std.HashSet.mem_erase, hvisited, Finset.mem_insert, not_or, beq_eq_false_iff_ne,
          ne_comm, Subtype.coe_ne_coe]
      rw [depthFirst_cons_eq_push _ hnew, List.map_cons, visitAlong, hrow]
      dsimp only
      rw [← ih _ _ hpush hinsert]
  | case4 remaining first rest hfirst ih =>
      intro visited _ hstack hvisited
      obtain ⟨label, pending, rfl, rfl, rfl⟩ := List.map_eq_cons_iff.mp hstack
      have hold : label ∈ visited := not_not.mp (mt (hvisited label).mpr hfirst)
      rw [depthFirst_cons_of_mem _ hold]
      exact ih visited pending rfl hvisited

/-- An exploration builds the rows along the preorder. -/
theorem explore_eq_visitAlong (R : RuleSet) (start : String) :
    R.explore start = R.visitAlong (R.preorder start) := by
  refine visit_eq_visitAlong start _ [start] ∅ _ rfl fun label => ?_
  simpa using mem_ofList_labels.mpr label.2

theorem labels_explore_eq_preorder {R : RuleSet} {start : String}
    (hstuck : (R.explore start).stuck = none) : (R.explore start).labels = R.preorder start := by
  rw [explore_eq_visitAlong] at hstuck ⊢
  exact labels_visitAlong hstuck

/-! ### The first undecided cell -/

theorem exists_build_eq_error_iff {R : RuleSet} {start : String} :
    (∃ u, R.build start = .error u) ↔
      ∃ label token, R.Reaches start label ∧ token ∈ R.tokens ∧ ¬ R.Decides label token := by
  simp only [build_eq_error_iff, ← Option.ne_none_iff_exists', ne_eq, explore_stuck_eq_none_iff,
    not_forall, exists_prop, exists_and_left]

/-- Building fails exactly if some label that can be reached has a token without
a verdict. The label that it names is then the first such label in depth-first
order, and the token is the first such token at this label. -/
theorem build_fails_at_first_undecided (R : RuleSet) (start : String) :
    ((∃ u, R.build start = .error u) ↔
      ∃ label token, R.Reaches start label ∧ token ∈ R.tokens ∧ ¬ R.Decides label token) ∧
    ∀ u, R.build start = .error u →
      R.Reaches start u.state ∧ ¬ R.Decides u.state u.token ∧
      (∃ before after, R.tokens = before ++ u.token :: after ∧
        ∀ token ∈ before, R.Decides u.state token) ∧
      ∃ before after, R.preorder start = before ++ u.state :: after ∧
        ∀ label ∈ before, ∀ token ∈ R.tokens, R.Decides label token := by
  refine ⟨exists_build_eq_error_iff, fun u hbuild => ?_⟩
  have hstuck := build_eq_error_iff.mp hbuild
  obtain ⟨⟨s, hs, hreach⟩, -⟩ := reaches_of_stuck hstuck
  rw [List.mem_singleton.mp hs] at hreach
  rw [explore_eq_visitAlong] at hstuck
  obtain ⟨before, after, hpreorder, hbefore, herror⟩ := exists_of_visitAlong_stuck hstuck
  obtain ⟨decided, rest, htokens, hdecided, hundecided⟩ := exists_of_row_eq_error herror
  refine ⟨hreach, hundecided, ⟨decided, rest, htokens, hdecided⟩, before, after, hpreorder, ?_⟩
  intro label hlabel
  obtain ⟨cells, hrow⟩ := hbefore label hlabel
  exact decides_of_row_eq_ok hrow

/-- A rule set in which two labels that the start leads to have undecided cells. -/
def gapRules : RuleSet where
  tokens := ["A", "B"]
  rules :=
    [⟨.decision (.name "S") .split .any, none, 4⟩,
      ⟨.decision (.name "A") .join (.name "A"), none, 5⟩]
  start := some "S"

theorem build_fails_at_first_undecided_gapRules :
    gapRules.build "S" = .error ⟨"B", "A"⟩ ∧ gapRules.preorder "S" = ["S", "B", "A"] ∧
      ¬ gapRules.Decides "A" "B" ∧
      ∃ before after, gapRules.preorder "S" = before ++ "B" :: after ∧
        ∀ label ∈ before, ∀ token ∈ gapRules.tokens, gapRules.Decides label token := by
  have hbuild : gapRules.build "S" = .error ⟨"B", "A"⟩ := by
    rw [build_eq_error_iff, explore_eq_visitAlong]
    cbv
  refine ⟨hbuild, by cbv, by decide, ?_⟩
  exact ((build_fails_at_first_undecided gapRules "S").2 _ hbuild).2.2.2

end RuleSet

end BreakRules
