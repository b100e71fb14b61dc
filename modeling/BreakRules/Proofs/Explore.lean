import BreakRules.Proofs.Reach

/-!
# What an exploration visits

An exploration that does not get stuck builds a row for every label that can be
reached, and for no other: `RuleSet.mem_labels_explore_iff`. It gets stuck if
and only if one of these labels has a token without a verdict:
`RuleSet.explore_stuck_eq_none_iff`.

The induction is on the calls of `visit`. The labels without a row shrink only
by labels that get one, so a label on the stack that gets no row has one
already. As every label that can turn up is without a row at first, nothing that
can be reached is left out.
-/

namespace BreakRules

/-- The labels that have a row, in build order. -/
def Visit.labels (v : Visit) : List String :=
  v.rows.map (·.label)

namespace RuleSet

/-! ### One call after the other -/

/-- The rows of an exploration are rows of the rule set. -/
theorem row_of_mem_visit {R : RuleSet} {remaining : Std.HashSet String} {stack : List String}
    {r : Visited} (hr : r ∈ (R.visit remaining stack).rows) : R.row r.label = .ok r.row := by
  fun_induction RuleSet.visit R remaining stack with
  | case1 remaining => cases hr
  | case2 remaining label rest hlabel token hrow => cases hr
  | case3 remaining label rest hlabel cells hrow v ih =>
      rcases List.mem_cons.mp hr with rfl | hr'
      · exact hrow
      · exact ih hr'
  | case4 remaining label rest hlabel ih => exact ih hr

/-- Only labels without a row get one. -/
theorem mem_remaining_of_mem_labels {R : RuleSet} {remaining : Std.HashSet String}
    {stack : List String} {label : String} (h : label ∈ (R.visit remaining stack).labels) :
    label ∈ remaining := by
  fun_induction RuleSet.visit R remaining stack with
  | case1 remaining => cases h
  | case2 remaining first rest hfirst token hrow => cases h
  | case3 remaining first rest hfirst cells hrow v ih =>
      rcases List.mem_cons.mp h with rfl | h'
      · exact hfirst
      · exact (Std.HashSet.mem_erase.mp (ih h')).2
  | case4 remaining first rest hfirst ih => exact ih h

/-- No label gets two rows. -/
theorem nodup_labels_visit (R : RuleSet) (remaining : Std.HashSet String)
    (stack : List String) : (R.visit remaining stack).labels.Nodup := by
  fun_induction RuleSet.visit R remaining stack with
  | case1 remaining => exact List.nodup_nil
  | case2 remaining label rest hlabel token hrow => exact List.nodup_nil
  | case3 remaining label rest hlabel cells hrow v ih =>
      refine List.nodup_cons.mpr ⟨fun h => ?_, ih⟩
      simpa using Std.HashSet.mem_erase.mp (mem_remaining_of_mem_labels h)
  | case4 remaining label rest hlabel ih => exact ih

/-- What is reached from a successor of a label, or from the rest of a stack, is
reached from the stack with the label on top. -/
theorem reaches_of_push {R : RuleSet} {first label : String} {rest : List String}
    {cells : List (Cell String)} (hrow : R.row first = .ok cells)
    (h : ∃ s ∈ (cells.map (·.next)).reverse ++ rest, R.Reaches s label) :
    ∃ s ∈ first :: rest, R.Reaches s label := by
  obtain ⟨s, hs, hreach⟩ := h
  rcases List.mem_append.mp hs with hs | hs
  · rw [List.mem_reverse, List.mem_map] at hs
    obtain ⟨token, htoken, rfl⟩ := (mem_row_next_iff hrow).mp hs
    exact ⟨first, List.mem_cons_self, (Reaches.refl.step htoken).trans hreach⟩
  · exact ⟨s, List.mem_cons_of_mem _ hs, hreach⟩

/-- Only labels that can be reached from the stack get a row. -/
theorem reaches_of_mem_labels {R : RuleSet} {remaining : Std.HashSet String}
    {stack : List String} {label : String} (h : label ∈ (R.visit remaining stack).labels) :
    ∃ s ∈ stack, R.Reaches s label := by
  fun_induction RuleSet.visit R remaining stack with
  | case1 remaining => cases h
  | case2 remaining first rest hfirst token hrow => cases h
  | case3 remaining first rest hfirst cells hrow v ih =>
      rcases List.mem_cons.mp h with rfl | h'
      · exact ⟨label, List.mem_cons_self, .refl⟩
      · exact reaches_of_push hrow (ih h')
  | case4 remaining first rest hfirst ih =>
      obtain ⟨s, hs, hreach⟩ := ih h
      exact ⟨s, List.mem_cons_of_mem _ hs, hreach⟩

/-- An exploration gets stuck at a label that can be reached from the stack and
has no row. -/
theorem reaches_of_stuck {R : RuleSet} {remaining : Std.HashSet String} {stack : List String}
    {u : Undecided} (h : (R.visit remaining stack).stuck = some u) :
    (∃ s ∈ stack, R.Reaches s u.state) ∧ R.row u.state = .error u.token := by
  fun_induction RuleSet.visit R remaining stack with
  | case1 remaining => cases h
  | case2 remaining label rest hlabel token hrow =>
      cases h
      exact ⟨⟨label, List.mem_cons_self, .refl⟩, hrow⟩
  | case3 remaining label rest hlabel cells hrow v ih =>
      obtain ⟨hreach, herror⟩ := ih h
      exact ⟨reaches_of_push hrow hreach, herror⟩
  | case4 remaining label rest hlabel ih =>
      obtain ⟨⟨s, hs, hreach⟩, herror⟩ := ih h
      exact ⟨⟨s, List.mem_cons_of_mem _ hs, hreach⟩, herror⟩

/-- A label on the stack gets a row if it has none. -/
theorem mem_labels_of_mem_stack {R : RuleSet} {remaining : Std.HashSet String}
    {stack : List String} {label : String} (hstuck : (R.visit remaining stack).stuck = none)
    (hstack : label ∈ stack) (hremaining : label ∈ remaining) :
    label ∈ (R.visit remaining stack).labels := by
  fun_induction RuleSet.visit R remaining stack with
  | case1 remaining => cases hstack
  | case2 remaining first rest hfirst token hrow => cases hstuck
  | case3 remaining first rest hfirst cells hrow v ih =>
      by_cases heq : label = first
      · subst heq
        exact List.mem_cons_self
      · have hrest : label ∈ rest := List.mem_of_ne_of_mem heq hstack
        refine List.mem_cons_of_mem _ (ih hstuck (List.mem_append_right _ hrest) ?_)
        exact Std.HashSet.mem_erase.mpr ⟨by simpa using Ne.symm heq, hremaining⟩
  | case4 remaining first rest hfirst ih =>
      have hne : label ≠ first := by
        rintro rfl
        exact hfirst hremaining
      exact ih hstuck (List.mem_of_ne_of_mem hne hstack) hremaining

/-- A successor in a row gets a row if it has none. -/
theorem mem_labels_of_mem_row {R : RuleSet} {remaining : Std.HashSet String}
    {stack : List String} {r : Visited} {c : Cell String}
    (hstuck : (R.visit remaining stack).stuck = none)
    (hr : r ∈ (R.visit remaining stack).rows) (hc : c ∈ r.row)
    (hremaining : c.next ∈ remaining) : c.next ∈ (R.visit remaining stack).labels := by
  fun_induction RuleSet.visit R remaining stack with
  | case1 remaining => cases hr
  | case2 remaining label rest hlabel token hrow => cases hstuck
  | case3 remaining label rest hlabel cells hrow v ih =>
      by_cases heq : c.next = label
      · rw [heq]
        exact List.mem_cons_self
      · have herase : c.next ∈ remaining.erase label :=
          Std.HashSet.mem_erase.mpr ⟨by simpa using Ne.symm heq, hremaining⟩
        refine List.mem_cons_of_mem _ ?_
        rcases List.mem_cons.mp hr with rfl | hr'
        · -- the successors of the row that is built now are on the stack
          refine mem_labels_of_mem_stack hstuck (List.mem_append_left _ ?_) herase
          exact List.mem_reverse.mpr (List.mem_map_of_mem hc)
        · exact ih hstuck hr' herase
  | case4 remaining label rest hlabel ih => exact ih hstuck hr hremaining

/-! ### The exploration from a start -/

theorem mem_ofList_labels {R : RuleSet} {start label : String} :
    label ∈ (Std.HashSet.ofList (R.labels start)) ↔ label ∈ R.labels start := by
  rw [Std.HashSet.mem_ofList, List.contains_iff_mem]

theorem Reaches.mem_labels {R : RuleSet} {start label : String} (h : R.Reaches start label) :
    label ∈ R.labels start := by
  cases h with
  | refl => exact R.start_mem_labels start
  | step _ htoken => exact R.scan_next_mem_labels start _ htoken

theorem row_of_mem_explore {R : RuleSet} {start : String} {r : Visited}
    (hr : r ∈ (R.explore start).rows) : R.row r.label = .ok r.row :=
  row_of_mem_visit hr

theorem nodup_labels_explore (R : RuleSet) (start : String) :
    (R.explore start).labels.Nodup :=
  R.nodup_labels_visit _ _

/-- An exploration that is not stuck has visited what can be reached. -/
theorem mem_labels_explore_iff {R : RuleSet} {start label : String}
    (hstuck : (R.explore start).stuck = none) :
    label ∈ (R.explore start).labels ↔ R.Reaches start label := by
  constructor
  · intro h
    obtain ⟨s, hs, hreach⟩ := reaches_of_mem_labels h
    rw [List.mem_singleton] at hs
    exact hs ▸ hreach
  · intro h
    induction h with
    | refl =>
        exact mem_labels_of_mem_stack hstuck (by simp)
          (mem_ofList_labels.mpr (R.start_mem_labels start))
    | @step label token hreach htoken ih =>
        obtain ⟨r, hr, rfl⟩ := List.mem_map.mp ih
        obtain ⟨c, hc, hnext⟩ :=
          (mem_row_next_iff (row_of_mem_visit hr)).mpr ⟨token, htoken, rfl⟩
        have hmem : c.next ∈ R.labels start := hnext ▸ (hreach.step htoken).mem_labels
        exact hnext ▸ mem_labels_of_mem_row hstuck hr hc (mem_ofList_labels.mpr hmem)

/-- An exploration gets stuck exactly if a label that can be reached has a token
without a verdict. -/
theorem explore_stuck_eq_none_iff {R : RuleSet} {start : String} :
    (R.explore start).stuck = none ↔
      ∀ label, R.Reaches start label → ∀ token ∈ R.tokens, R.Decides label token := by
  constructor
  · intro hstuck label hreach
    obtain ⟨r, hr, rfl⟩ := List.mem_map.mp ((mem_labels_explore_iff hstuck).mpr hreach)
    exact decides_of_row_eq_ok (row_of_mem_explore hr)
  · intro hdecides
    by_contra hstuck
    obtain ⟨u, hu⟩ := Option.ne_none_iff_exists'.mp hstuck
    obtain ⟨⟨s, hs, hreach⟩, herror⟩ := reaches_of_stuck hu
    rw [List.mem_singleton] at hs
    obtain ⟨before, after, htokens, -, hundecided⟩ := exists_of_row_eq_error herror
    exact hundecided (hdecides _ (hs ▸ hreach) _ (by simp [htokens]))

/-- The start has the first row. -/
theorem labels_explore_eq_cons {R : RuleSet} {start : String}
    (hstuck : (R.explore start).stuck = none) :
    ∃ rest, (R.explore start).labels = start :: rest := by
  have hmem : start ∈ Std.HashSet.ofList (R.labels start) :=
    mem_ofList_labels.mpr (R.start_mem_labels start)
  rw [explore, visit, dif_pos hmem] at hstuck ⊢
  cases hrow : R.row start with
  | error token => simp [hrow] at hstuck
  | ok cells => exact ⟨_, rfl⟩

end RuleSet

end BreakRules
