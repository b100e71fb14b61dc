import BreakRules.Finding
import Mathlib.Data.List.Sort
import Std.Data.TreeMap

/-!
# Where findings come from

`RuleSet.undeclaredHits` has a short way out for rule sets without strays, and
`RuleSet.findings` keeps its hits in a map. `RuleSet.undeclaredHits_eq` and
`RuleSet.findings_eq` say what they come to without these. Every hit is at the
position of a stray, that is of a decision whose right side is a name but no
token.

Hits can also be reported one by one, as they come, into a map that is sorted by
the positions of rules (`RuleSet.reportHits`). The first report of a rule stays,
so that the map ends with the findings: `RuleSet.map_snd_reportHits`.
-/

namespace BreakRules

namespace RuleSet

theorem mem_strays_iff {R : RuleSet} {i : Nat} :
    i ∈ R.strays ↔ ∃ rule, R.rules[i]? = some rule ∧ R.isStray rule = true := by
  simp [strays, Std.HashSet.mem_ofList, List.mem_zipIdx_iff_getElem?]

theorem undeclared_eq_nil {strays : Std.HashSet Nat} (h : strays.isEmpty = true) (r : Reading) :
    r.undeclared strays = [] := by
  simp [Reading.undeclared, Std.HashSet.contains_of_isEmpty h]

/-- The hits of the rows, one token after the other. -/
theorem undeclaredHits_eq (R : RuleSet) (v : Visit) :
    R.undeclaredHits v =
      v.rows.flatMap fun r => R.tokens.flatMap fun token =>
        ((R.scan r.label token).undeclared R.strays).map fun i => (i, r.label, token) := by
  rw [undeclaredHits]
  split
  · next hempty => simp [undeclared_eq_nil hempty]
  · rfl

theorem mem_undeclaredHits_iff {R : RuleSet} {v : Visit} {i : Nat} {state token : String} :
    (i, state, token) ∈ R.undeclaredHits v ↔
      state ∈ v.rows.map (·.label) ∧ token ∈ R.tokens ∧
        i ∈ (R.scan state token).named ∧ i ∈ R.strays := by
  simp only [undeclaredHits_eq, List.mem_flatMap, List.mem_map, Prod.mk.injEq,
    Reading.undeclared, List.mem_filter]
  constructor
  · rintro ⟨r, hr, _, htoken, _, ⟨hnamed, hstray⟩, rfl, rfl, rfl⟩
    exact ⟨⟨r, hr, rfl⟩, htoken, hnamed, hstray⟩
  · rintro ⟨⟨r, hr, rfl⟩, htoken, hnamed, hstray⟩
    exact ⟨r, hr, token, htoken, i, ⟨hnamed, hstray⟩, rfl, rfl, rfl⟩

/-- A rule that was hit is a stray. -/
theorem isStray_of_lookup {R : RuleSet} {v : Visit} {i : Nat} {hit : String × String} {rule : Rule}
    (hhit : (R.undeclaredHits v).lookup i = some hit) (hrule : R.rules[i]? = some rule) :
    R.isStray rule = true := by
  obtain ⟨before, after, hhits, -⟩ := List.lookup_eq_some_iff.mp hhit
  have hmem : (i, hit) ∈ R.undeclaredHits v := by simp [hhits]
  obtain ⟨-, -, -, hstray⟩ := mem_undeclaredHits_iff.mp hmem
  obtain ⟨rule', hrule', hstray⟩ := mem_strays_iff.mp hstray
  obtain rfl := Option.some.inj (hrule.symm.trans hrule')
  exact hstray

/-- The finding of a rule at a position, if it was hit. -/
def findingAt (R : RuleSet) (v : Visit) (rule : Rule) (i : Nat) : Option Finding :=
  match rule.clause with
  | .decision _ _ rhs =>
      ((R.undeclaredHits v).lookup i).map fun (state, token) =>
        .undeclaredRight rule.line rule.group rhs.text state token
  | _ => none

theorem findings_eq (R : RuleSet) (v : Visit) :
    R.findings v = R.rules.zipIdx.filterMap fun (rule, i) => R.findingAt v rule i := by
  simp only [findings, getElem?_firsts]
  rfl

/-! ### Reports one by one -/

/-- What is found about a rule that is hit, by the state and the token. -/
def findingOf? (rule : Rule) : Option (String → String → Finding) :=
  match rule.clause with
  | .decision _ _ rhs => some (.undeclaredRight rule.line rule.group rhs.text)
  | _ => none

theorem findingAt_eq (R : RuleSet) (v : Visit) (rule : Rule) (i : Nat) :
    R.findingAt v rule i = (findingOf? rule).bind fun finding =>
      ((R.undeclaredHits v).lookup i).map fun hit => finding hit.1 hit.2 := by
  rw [findingAt, findingOf?]
  cases rule.clause <;> rfl

/-- The hits in the row of a state under a token. -/
def hitsAt (R : RuleSet) (state token : String) : List (Nat × String × String) :=
  ((R.scan state token).undeclared R.strays).map fun i => (i, state, token)

/-- Reports a hit, unless its rule has been reported. -/
def reportHit (R : RuleSet) (found : Std.TreeMap Nat Finding) (hit : Nat × String × String) :
    Std.TreeMap Nat Finding :=
  match R.rules[hit.1]?.bind findingOf? with
  | some finding => found.insertIfNew hit.1 (finding hit.2.1 hit.2.2)
  | none => found

def reportHits (R : RuleSet) (found : Std.TreeMap Nat Finding)
    (hits : List (Nat × String × String)) : Std.TreeMap Nat Finding :=
  hits.foldl R.reportHit found

theorem reportHits_append (R : RuleSet) (found : Std.TreeMap Nat Finding)
    (hits more : List (Nat × String × String)) :
    R.reportHits found (hits ++ more) = R.reportHits (R.reportHits found hits) more :=
  List.foldl_append

theorem getElem?_insertIfNew (found : Std.TreeMap Nat Finding) (i j : Nat) (f : Finding) :
    (found.insertIfNew i f)[j]? = found[j]?.or (if i = j then some f else none) := by
  simp only [Std.TreeMap.getElem?_insertIfNew, Nat.compare_eq_eq]
  by_cases hij : i = j
  · subst hij
    by_cases hfound : i ∈ found
    · rw [if_neg (fun h => h.2 hfound),
        Option.or_of_isSome (Std.TreeMap.mem_iff_isSome_getElem?.mp hfound)]
    · rw [if_pos ⟨rfl, hfound⟩, Std.TreeMap.getElem?_eq_none hfound, Option.none_or, if_pos rfl]
  · rw [if_neg (fun h => hij h.1), if_neg hij, Option.or_none]

theorem getElem?_reportHit (R : RuleSet) (found : Std.TreeMap Nat Finding)
    (hit : Nat × String × String) (i : Nat) :
    (R.reportHit found hit)[i]? =
      found[i]?.or (if hit.1 = i then
        (R.rules[i]?.bind findingOf?).map (· hit.2.1 hit.2.2) else none) := by
  by_cases hi : hit.1 = i
  · rw [reportHit, hi]
    cases R.rules[i]?.bind findingOf? with
    | none => simp
    | some finding => simp only [getElem?_insertIfNew, if_true, Option.map_some]
  · rw [reportHit]
    cases R.rules[hit.1]?.bind findingOf? with
    | none => simp [hi]
    | some finding => simp only [getElem?_insertIfNew, if_neg hi]

/-- A rule is reported at its first hit. -/
theorem getElem?_reportHits (R : RuleSet) (found : Std.TreeMap Nat Finding)
    (hits : List (Nat × String × String)) (i : Nat) :
    (R.reportHits found hits)[i]? =
      found[i]?.or ((R.rules[i]?.bind findingOf?).bind fun finding =>
        (hits.lookup i).map fun hit => finding hit.1 hit.2) := by
  induction hits generalizing found with
  | nil => simp [reportHits]
  | cons hit hits ih =>
      obtain ⟨j, state, token⟩ := hit
      have hstep : R.reportHits found ((j, state, token) :: hits) =
          R.reportHits (R.reportHit found (j, state, token)) hits := rfl
      rw [hstep, ih, getElem?_reportHit, Option.or_assoc]
      by_cases hij : j = i
      · subst hij
        cases R.rules[j]?.bind findingOf? <;> simp
      · have hne : (i == j) = false := beq_false_of_ne (Ne.symm hij)
        simp [hij, List.lookup_cons, hne]

/-- When all hits of an exploration are reported, a rule has the finding that it has for
the exploration. -/
theorem getElem?_reportHits_eq_some_iff {R : RuleSet} {v : Visit} {i : Nat} {f : Finding} :
    (R.reportHits ∅ (R.undeclaredHits v))[i]? = some f ↔
      ∃ rule, R.rules[i]? = some rule ∧ R.findingAt v rule i = some f := by
  rw [getElem?_reportHits, Std.TreeMap.getElem?_emptyc, Option.none_or]
  cases R.rules[i]? with
  | none => simp
  | some rule => simp only [Option.bind_some, ← findingAt_eq, Option.some.injEq, exists_eq_left']

/-- The rules that are reported come in their order, each with its finding. -/
theorem toList_reportHits (R : RuleSet) (v : Visit) :
    (R.reportHits ∅ (R.undeclaredHits v)).toList =
      R.rules.zipIdx.filterMap fun (rule, i) => (R.findingAt v rule i).map (i, ·) := by
  have hantisymm : Std.Antisymm fun e e' : Nat × Finding => e.1 < e'.1 :=
    ⟨fun _ _ h h' => absurd h' (Nat.lt_asymm h)⟩
  have hirrefl : Std.Irrefl fun e e' : Nat × Finding => e.1 < e'.1 :=
    ⟨fun _ => Nat.lt_irrefl _⟩
  apply List.Pairwise.eq_of_mem_iff (r := fun e e' : Nat × Finding => e.1 < e'.1)
  · exact Std.TreeMap.ordered_keys_toList.imp Nat.compare_eq_lt.mp
  · rw [List.pairwise_filterMap]
    have hpositions : R.rules.zipIdx.Pairwise (·.2 < ·.2) := by
      rw [← List.pairwise_map (f := Prod.snd), List.zipIdx_map_snd]
      exact List.pairwise_lt_range'
    refine hpositions.imp fun hlt f hf f' hf' => ?_
    obtain ⟨f, -, rfl⟩ := Option.map_eq_some_iff.mp hf
    obtain ⟨f', -, rfl⟩ := Option.map_eq_some_iff.mp hf'
    exact hlt
  · rintro ⟨i, f⟩
    rw [Std.TreeMap.mem_toList_iff_getElem?_eq_some, getElem?_reportHits_eq_some_iff]
    simp [List.mem_zipIdx_iff_getElem?]

/-- The reports of all hits, sorted by the rules, are the findings. -/
theorem map_snd_reportHits (R : RuleSet) (v : Visit) :
    (R.reportHits ∅ (R.undeclaredHits v)).toList.map (·.2) = R.findings v := by
  rw [toList_reportHits, findings_eq, List.map_filterMap]
  refine List.filterMap_congr fun e _ => ?_
  simp [Function.comp_def]

end RuleSet

end BreakRules
