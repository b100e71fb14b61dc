import BreakRules.Proofs.Building
import BreakRules.Proofs.Declarations
import BreakRules.Proofs.Reading
import Mathlib.Data.List.ProdSigma

/-!
# What is found about a table

A decision is hit when a row that is built meets it on a token and accepts by a name
outside of the alphabet. The hits are gathered state after state and token after token,
so the one that is looked up for a rule is its first (`RuleSet.lookup_undeclaredHits`),
and the loop by handles reports the same when it goes by.
A finding reports it with what the rule says of itself (`RuleSet.Reports`), and the
findings of a table are these reports: one for every rule that is hit at a label that
can be reached, in the order of the rules.
-/

namespace BreakRules

open Worklist (begin turns)

/-! ### Lists of hits -/

theorem lookup_map_pair {α : Type} (keys : List Nat) (a : α) (i : Nat) :
    (keys.map fun j => (j, a)).lookup i = if i ∈ keys then some a else none := by
  induction keys with
  | nil => rfl
  | cons j keys ih =>
      rw [List.map_cons, List.lookup_cons, ih]
      by_cases hj : i = j
      · simp [hj]
      · have hbeq : (i == j) = false := beq_false_of_ne hj
        simp [hbeq, hj]

/-- The first of some pairs with a key comes from the first place that gives this key. -/
theorem lookup_flatMap_pair {α : Type} (l : List α) (keys : α → List Nat) (i : Nat) :
    (l.flatMap fun a => (keys a).map fun j => (j, a)).lookup i = l.find? fun a => i ∈ keys a := by
  induction l with
  | nil => rfl
  | cons a l ih =>
      rw [List.flatMap_cons, List.lookup_append, ih, lookup_map_pair, List.find?_cons]
      by_cases hmem : i ∈ keys a
      · simp [hmem]
      · simp [hmem]

theorem forall₂_filterMap {α β : Type} {f : α → Option β} {P : α → β → Prop} {l : List α}
    (h : ∀ a ∈ l, ∀ b, f a = some b → P a b) :
    List.Forall₂ P (l.filter fun a => (f a).isSome) (l.filterMap f) := by
  induction l with
  | nil => exact .nil
  | cons a l ih =>
      obtain ⟨ha, hl⟩ := List.forall_mem_cons.mp h
      cases hfa : f a with
      | none => simpa [hfa] using ih hl
      | some b => simpa [hfa] using ⟨ha b hfa, ih hl⟩

def Finding.line? : Finding → Option Nat
  | missingStart => none
  | undeclaredRight line _ _ _ _ => some line

namespace RuleSet

variable {R : RuleSet} {start : String} {v : Visit} {Q : RawTable} {i : Nat}

/-! ### First hits -/

/-- A rule is hit at a state and a token, and at no pair before: the states come in the
order in which they were built, and the tokens of each in the order of the alphabet. -/
def FirstHit (R : RuleSet) (Q : RawTable) (i : Nat) (state token : String) : Prop :=
  i ∈ (R.scan state token).undeclared R.strays ∧
    ∃ before after, Q.built ×ˢ R.tokens = before ++ (state, token) :: after ∧
      ∀ p ∈ before, i ∉ (R.scan p.1 p.2).undeclared R.strays

/-- What a finding says of a rule: where it stands, its right side and its first hit. -/
inductive Reports (R : RuleSet) (Q : RawTable) (i : Nat) : Finding → Prop where
  | undeclaredRight {rule : Rule} {lhs : Side} {verdict : Verdict} {rhs state token : String} :
      R.rules[i]? = some rule → rule.clause = .decision lhs verdict (.name rhs) →
      R.FirstHit Q i state token →
      Reports R Q i (.undeclaredRight rule.line rule.group rhs state token)

theorem firstHit_iff {state token : String} :
    R.FirstHit Q i state token ↔
      (Q.built ×ˢ R.tokens).find? (fun p => i ∈ (R.scan p.1 p.2).undeclared R.strays) =
        some (state, token) := by
  simp [FirstHit, List.find?_eq_some_iff_append]

/-- A rule that is hit at all has a first hit. -/
theorem exists_firstHit_iff :
    (∃ state token, R.FirstHit Q i state token) ↔
      ∃ state ∈ Q.built, ∃ token ∈ R.tokens, i ∈ (R.scan state token).undeclared R.strays := by
  simp only [firstHit_iff]
  constructor
  · rintro ⟨state, token, hfind⟩
    obtain ⟨hstate, htoken⟩ := List.pair_mem_product.mp (List.mem_of_find?_eq_some hfind)
    exact ⟨state, hstate, token, htoken, by simpa using List.find?_some hfind⟩
  · rintro ⟨state, hstate, token, htoken, hhit⟩
    have hsome : ((Q.built ×ˢ R.tokens).find?
        fun p => i ∈ (R.scan p.1 p.2).undeclared R.strays).isSome := by
      rw [List.find?_isSome]
      exact ⟨(state, token), List.pair_mem_product.mpr ⟨hstate, htoken⟩, by simpa using hhit⟩
    obtain ⟨p, hp⟩ := Option.isSome_iff_exists.mp hsome
    exact ⟨p.1, p.2, hp⟩

/-- Only decisions are hit, and by the name on their right side. -/
theorem exists_decision_of_hit {state token : String}
    (h : i ∈ (R.scan state token).undeclared R.strays) :
    ∃ rule lhs verdict rhs, R.rules[i]? = some rule ∧
      rule.clause = .decision lhs verdict (.name rhs) := by
  obtain ⟨verdict, rhs, hdecision, -⟩ := mem_undeclared_iff.mp h
  obtain ⟨rule, lhs, hrule, hclause⟩ := exists_rule_of_decisionAt? hdecision
  exact ⟨rule, lhs, verdict, rhs, hrule, hclause⟩

theorem exists_reports_iff :
    (∃ f, R.Reports Q i f) ↔
      ∃ state ∈ Q.built, ∃ token ∈ R.tokens, i ∈ (R.scan state token).undeclared R.strays := by
  rw [← exists_firstHit_iff]
  constructor
  · rintro ⟨-, hrule, hclause, hfirst⟩
    exact ⟨_, _, hfirst⟩
  · rintro ⟨state, token, hfirst⟩
    obtain ⟨rule, lhs, verdict, rhs, hrule, hclause⟩ := exists_decision_of_hit hfirst.1
    exact ⟨_, .undeclaredRight hrule hclause hfirst⟩

/-! ### Findings of a visit -/

theorem undeclaredHits_eq_product (R : RuleSet) (v : Visit) :
    R.undeclaredHits v = (v.labels ×ˢ R.tokens).flatMap fun p =>
      ((R.scan p.1 p.2).undeclared R.strays).map fun i => (i, p) := by
  simp only [undeclaredHits_eq, Visit.labels, SProd.sprod, List.product, List.flatMap_assoc,
    List.flatMap_map]

/-- The hit that is looked up for a rule is its first. -/
theorem lookup_undeclaredHits (hbuilt : Q.built = v.labels) {state token : String} :
    (R.undeclaredHits v).lookup i = some (state, token) ↔ R.FirstHit Q i state token := by
  rw [undeclaredHits_eq_product, lookup_flatMap_pair, firstHit_iff, hbuilt]

theorem findingAt_eq_some_iff (hbuilt : Q.built = v.labels) {rule : Rule}
    (hrule : R.rules[i]? = some rule) {f : Finding} :
    R.findingAt v rule i = some f ↔ R.Reports Q i f := by
  constructor
  · intro h
    unfold findingAt at h
    split at h
    · next lhs verdict rhs hclause =>
        obtain ⟨⟨state, token⟩, hlookup, rfl⟩ := Option.map_eq_some_iff.mp h
        have hfirst := (lookup_undeclaredHits hbuilt).mp hlookup
        -- the rule that was hit is this one
        obtain ⟨rule', lhs', verdict', rhs', hrule', hclause'⟩ := exists_decision_of_hit hfirst.1
        obtain rfl := Option.some.inj (hrule.symm.trans hrule')
        cases hclause.symm.trans hclause'
        exact .undeclaredRight hrule hclause hfirst
    · cases h
  · rintro ⟨hrule', hclause, hfirst⟩
    obtain rfl := Option.some.inj (hrule.symm.trans hrule')
    rw [findingAt, hclause]
    simp [(lookup_undeclaredHits hbuilt).mpr hfirst, Side.text]

def reported (R : RuleSet) (v : Visit) : List Nat :=
  (R.rules.zipIdx.filter fun (rule, i) => (R.findingAt v rule i).isSome).map (·.2)

theorem pairwise_reported (R : RuleSet) (v : Visit) : (R.reported v).Pairwise (· < ·) := by
  have hsublist : (R.reported v).Sublist (List.range' 0 R.rules.length) := by
    rw [← List.zipIdx_map_snd 0 R.rules]
    exact List.filter_sublist.map _
  exact List.Pairwise.sublist hsublist List.pairwise_lt_range'

theorem forall₂_reports (hbuilt : Q.built = v.labels) :
    List.Forall₂ (R.Reports Q) (R.reported v) (R.findings v) := by
  rw [reported, findings_eq, List.forall₂_map_left_iff]
  refine forall₂_filterMap fun e he f hf => ?_
  exact (findingAt_eq_some_iff hbuilt (List.mem_zipIdx_iff_getElem?.mp he)).mp hf

theorem mem_reported_iff (hbuilt : Q.built = v.labels) :
    i ∈ R.reported v ↔ ∃ f, R.Reports Q i f := by
  simp only [reported, List.mem_map, List.mem_filter, Option.isSome_iff_exists]
  constructor
  · rintro ⟨⟨rule, _⟩, ⟨he, f, hf⟩, rfl⟩
    exact ⟨f, (findingAt_eq_some_iff hbuilt (List.mem_zipIdx_iff_getElem?.mp he)).mp hf⟩
  · rintro ⟨f, hf⟩
    obtain ⟨rule, hrule⟩ : ∃ rule, R.rules[i]? = some rule := by
      cases hf with
      | undeclaredRight hrule => exact ⟨_, hrule⟩
    exact ⟨(rule, i), ⟨List.mem_zipIdx_iff_getElem?.mpr hrule, f,
      (findingAt_eq_some_iff hbuilt hrule).mpr hf⟩, rfl⟩

theorem line?_of_findingAt {rule : Rule} {f : Finding} (h : R.findingAt v rule i = some f) :
    f.line? = some rule.line := by
  unfold findingAt at h
  split at h
  · obtain ⟨hit, -, rfl⟩ := Option.map_eq_some_iff.mp h
    rfl
  · cases h

/-- The findings stand in the order of their lines, if the rules do. -/
theorem pairwise_line?_findings (v : Visit) (h : R.rules.Pairwise (·.line < ·.line)) :
    ((R.findings v).filterMap Finding.line?).Pairwise (· < ·) := by
  have hzip : R.rules.zipIdx.Pairwise (·.1.line < ·.1.line) := by
    rw [← List.pairwise_map (R := fun r r' : Rule => r.line < r'.line), List.zipIdx_map_fst]
    exact h
  rw [List.pairwise_filterMap, findings_eq, List.pairwise_filterMap]
  refine hzip.imp fun hlt f hf f' hf' m hm n hn => ?_
  obtain rfl := Option.some.inj ((line?_of_findingAt hf).symm.trans hm)
  obtain rfl := Option.some.inj ((line?_of_findingAt hf').symm.trans hn)
  exact hlt

/-- The findings of a table are the reports of the rules that are hit at labels that can
be reached, one for each, in the order of the rules and so, for rules that were read from
a text, of their lines. The loop by handles has gathered these findings when it ends. -/
theorem findings_report_first_hits (hbuild : R.build start = .ok Q) :
    ∃ positions : List Nat, positions.Pairwise (· < ·) ∧
      (∀ i, i ∈ positions ↔ ∃ label token, R.Reaches start label ∧ token ∈ R.tokens ∧
        i ∈ (R.scan label token).undeclared R.strays) ∧
      List.Forall₂ (R.Reports Q) positions (R.findings (R.explore start)) ∧
      (∃ n w, turns R n (begin start) = .ok w ∧ w.pending = [] ∧ w.table = Q ∧
        w.findings = R.findings (R.explore start)) ∧
      ∀ source, RuleSet.parse source = .ok R →
        ((R.findings (R.explore start)).filterMap Finding.line?).Pairwise (· < ·) := by
  have hloop := Worklist.exists_turns_eq_ok hbuild
  obtain ⟨hstuck, rfl⟩ := build_eq_ok_iff.mp hbuild
  have hbuilt : ((R.explore start).table start).built = (R.explore start).labels :=
    Visit.map_label_order _ _ (closed_explore hstuck).labels_subset_arena
  refine ⟨R.reported (R.explore start), R.pairwise_reported _, fun i => ?_,
    forall₂_reports hbuilt, hloop, fun source hparse => ?_⟩
  · rw [mem_reported_iff hbuilt, exists_reports_iff, hbuilt]
    simp only [mem_labels_explore_iff hstuck, ← exists_and_left]
  · exact pairwise_line?_findings _ (pairwise_line_of_parse hparse)

end RuleSet

/-! ### Two rules that are hit in the other order -/

/-- A pair that some decision accepts is decided. -/
theorem RuleSet.decides_of_decisionAt? {R : RuleSet} {label token : String} {i : Nat}
    {decision : Verdict × Side} (h : R.decisionAt? label token i = some decision) :
    R.Decides label token := by
  rw [Decides, Option.isSome_iff_ne_none, ne_eq, scan_verdict_eq_none_iff]
  intro hnone
  cases h.symm.trans (hnone i)

/-- The last rule decides what no other does. -/
theorem stuck_explore_strayRules : (strayRules.explore "S").stuck = none := by
  refine RuleSet.explore_stuck_eq_none_iff.mpr fun label _ token _ => ?_
  have hlast : strayRules.decisionAt? label token 4 = some (.join, .any) := rfl
  exact RuleSet.decides_of_decisionAt? hlast

theorem labels_explore_strayRules : (strayRules.explore "S").labels = ["S", "B", "A"] := by
  rw [RuleSet.labels_explore_eq_preorder stuck_explore_strayRules]
  cbv

theorem undeclaredHits_strayRules :
    strayRules.undeclaredHits (strayRules.explore "S") =
      [(3, "S", "B"), (3, "B", "B"), (2, "A", "B"), (3, "A", "B")] := by
  rw [RuleSet.undeclaredHits_eq_product, labels_explore_strayRules]
  simp only [Reading.undeclared, RuleSet.strays, Std.HashSet.contains_ofList]
  cbv

theorem findings_strayRules :
    strayRules.findings (strayRules.explore "S") =
      [.undeclaredRight 8 (some "late") "GHOST" "A" "B",
        .undeclaredRight 10 (some "early") "GHOST" "S" "B"] := by
  rw [RuleSet.findings_eq]
  simp only [RuleSet.findingAt, undeclaredHits_strayRules]
  cbv

theorem findings_report_first_hits_strayRules :
    RuleSet.parse strayText = .ok strayRules ∧
      ∃ Q, strayRules.build "S" = .ok Q ∧
        ∃ positions : List Nat, positions.Pairwise (· < ·) ∧
          List.Forall₂ (strayRules.Reports Q) positions
            [.undeclaredRight 8 (some "late") "GHOST" "A" "B",
              .undeclaredRight 10 (some "early") "GHOST" "S" "B"] ∧
          (∃ n w, turns strayRules n (begin "S") = .ok w ∧ w.pending = [] ∧ w.table = Q ∧
            w.findings =
              [.undeclaredRight 8 (some "late") "GHOST" "A" "B",
                .undeclaredRight 10 (some "early") "GHOST" "S" "B"]) ∧
          ((strayRules.findings (strayRules.explore "S")).filterMap
            Finding.line?).Pairwise (· < ·) := by
  have hbuild := RuleSet.build_eq_ok stuck_explore_strayRules
  obtain ⟨positions, hpositions, -, hreports, hloop, hlines⟩ :=
    RuleSet.findings_report_first_hits hbuild
  rw [findings_strayRules] at hreports hloop
  exact ⟨parse_strayText, _, hbuild, positions, hpositions, hreports, hloop,
    hlines strayText parse_strayText⟩

end BreakRules
