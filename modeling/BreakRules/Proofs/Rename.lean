import BreakRules.Proofs.Findings
import BreakRules.Proofs.Mirror
import Mathlib.Logic.Equiv.Basic

/-!
# New names

`R.mapNames f` is a rule set with `f` applied to every name in it: to the tokens,
the start, both sides of a renaming, the names on the sides of rules and the
targets of transitions. If `f` is injective, a scan of the new rules under the
new names goes on as the old scan did: `RuleSet.scan_mapNames`. So names count only
for whether they are equal, and everything that is made from a rule set is made
from the renamed one under the new names, in the same order.
-/

namespace BreakRules

/-! ### Rules -/

namespace Side

def mapNames (f : String → String) : Side → Side
  | any => any
  | name n => name (f n)

@[simp] theorem isSome_name?_mapNames (f : String → String) (s : Side) :
    (s.mapNames f).name?.isSome = s.name?.isSome := by
  cases s <;> rfl

theorem accepts_mapNames {f : String → String} (hf : Function.Injective f) (s : Side)
    (n : String) : (s.mapNames f).accepts (f n) = s.accepts n := by
  cases s with
  | any => rfl
  | name m => simp [mapNames, accepts, hf.eq_iff]

end Side

def Clause.mapNames (f : String → String) : Clause → Clause
  | .rename source target => .rename (f source) (f target)
  | .transition lhs token next => .transition (lhs.mapNames f) (token.mapNames f) (f next)
  | .decision lhs verdict rhs => .decision (lhs.mapNames f) verdict (rhs.mapNames f)

/-- A rule under new names. Its place stays. -/
def Rule.mapNames (f : String → String) (rule : Rule) : Rule :=
  { rule with clause := rule.clause.mapNames f }

@[simp] theorem Rule.clause_mapNames (f : String → String) (rule : Rule) :
    (rule.mapNames f).clause = rule.clause.mapNames f := rfl

def RuleSet.mapNames (f : String → String) (R : RuleSet) : RuleSet where
  tokens := R.tokens.map f
  rules := R.rules.map (·.mapNames f)
  start := R.start.map f

/-! ### Scans -/

def TokenClause.mapNames (f : String → String) : TokenClause → TokenClause
  | .rename source target => .rename (f source) (f target)
  | .transition token next => .transition (token.mapNames f) (f next)
  | .decision position verdict rhs => .decision position verdict (rhs.mapNames f)

/-- A reading under new names. Positions of rules stay. -/
def Reading.mapNames (f : String → String) (r : Reading) : Reading :=
  { r with next := f r.next }

def Scan.mapNames (f : String → String) (s : Scan) : Scan :=
  ⟨f s.token, s.reading.mapNames f⟩

section Injective

variable {f : String → String} (hf : Function.Injective f)
include hf

theorem renamed_map (source target name : String) :
    renamed (f source) (f target) (f name) = f (renamed source target name) := by
  simp only [renamed, hf.eq_iff]
  split <;> rfl

theorem tokenClauses_mapNames (state : String) (i : Nat) (rules : List Rule) :
    tokenClauses (f state) i (rules.map (·.mapNames f)) =
      (tokenClauses state i rules).map (·.mapNames f) := by
  induction rules generalizing state i with
  | nil => rfl
  | cons rule rest ih =>
      cases hclause : rule.clause with
      | rename source target =>
          simp only [List.map_cons, tokenClauses, Rule.clause_mapNames, hclause, Clause.mapNames,
            renamed_map hf, ih]
          rfl
      | transition lhs token next =>
          simp only [List.map_cons, tokenClauses, Rule.clause_mapNames, hclause, Clause.mapNames,
            lhs.accepts_mapNames hf, ih]
          split <;> rfl
      | decision lhs verdict rhs =>
          simp only [List.map_cons, tokenClauses, Rule.clause_mapNames, hclause, Clause.mapNames,
            lhs.accepts_mapNames hf, ih]
          split <;> rfl

theorem RuleSet.facing_mapNames (R : RuleSet) (state : String) :
    (R.mapNames f).facing (f state) = (R.facing state).map (·.mapNames f) :=
  tokenClauses_mapNames hf state 0 R.rules

theorem Scan.step_mapNames (s : Scan) (clause : TokenClause) :
    (s.mapNames f).step (clause.mapNames f) = (s.step clause).mapNames f := by
  cases clause with
  | rename source target =>
      simp only [TokenClause.mapNames, Scan.step, Scan.mapNames, renamed_map hf]
  | transition token next =>
      simp only [TokenClause.mapNames, Scan.step, Scan.mapNames, token.accepts_mapNames hf]
      split <;> rfl
  | decision position verdict rhs =>
      simp only [TokenClause.mapNames, Scan.step, Scan.mapNames, rhs.accepts_mapNames hf,
        Side.isSome_name?_mapNames]
      split <;> rfl

theorem Scan.foldl_step_mapNames (clauses : List TokenClause) (s : Scan) :
    (clauses.map (·.mapNames f)).foldl Scan.step (s.mapNames f) =
      (clauses.foldl Scan.step s).mapNames f := by
  induction clauses generalizing s with
  | nil => rfl
  | cons clause clauses ih =>
      rw [List.map_cons, List.foldl_cons, List.foldl_cons, Scan.step_mapNames hf, ih]

theorem Reading.ofToken_mapNames (clauses : List TokenClause) (token : String) :
    Reading.ofToken (clauses.map (·.mapNames f)) (f token) =
      (Reading.ofToken clauses token).mapNames f :=
  congrArg Scan.reading (Scan.foldl_step_mapNames hf clauses (Scan.begin token))

/-- A scan of renamed rules gives the renamed reading. -/
theorem RuleSet.scan_mapNames (R : RuleSet) (state token : String) :
    (R.mapNames f).scan (f state) (f token) = (R.scan state token).mapNames f := by
  rw [scan, facing_mapNames hf, Reading.ofToken_mapNames hf, scan]

theorem RuleSet.mirrors_mapNames (R : RuleSet) (start : String) :
    R.Mirrors (R.mapNames f) f start where
  injective := hf
  tokens_eq := rfl
  verdict_eq label _ token _ := by rw [R.scan_mapNames hf]; rfl
  next_eq label _ token _ := by rw [R.scan_mapNames hf]; rfl

end Injective

/-! ### Findings -/

/-- A finding under new names. Its place stays. -/
def Finding.mapNames (f : String → String) : Finding → Finding
  | .missingStart => .missingStart
  | .undeclaredRight line group rhs state token =>
      .undeclaredRight line group (f rhs) (f state) (f token)

/-- The right side of a stray decision is a name. -/
theorem RuleSet.text_mapNames_of_isStray {R : RuleSet} {rule : Rule} {lhs rhs : Side}
    {verdict : Verdict} (f : String → String) (h : R.isStray rule = true)
    (hclause : rule.clause = .decision lhs verdict rhs) : (rhs.mapNames f).text = f rhs.text := by
  cases rhs with
  | any => simp [isStray, hclause, Side.name?] at h
  | name n => rfl

theorem lookup_map_snd {β : Type} (g : β → β) (l : List (Nat × β)) (k : Nat) :
    (l.map (Prod.map id g)).lookup k = (l.lookup k).map g := by
  induction l with
  | nil => rfl
  | cons e l ih =>
      obtain ⟨a, b⟩ := e
      simp only [List.map_cons, Prod.map_apply, id_eq, List.lookup_cons, ih]
      split <;> rfl

theorem RuleSet.zipIdx_rules_mapNames (f : String → String) (R : RuleSet) :
    (R.mapNames f).rules.zipIdx = R.rules.zipIdx.map (Prod.map (Rule.mapNames f) id) :=
  List.zipIdx_map

section Injective

variable {f : String → String} (hf : Function.Injective f)
include hf

theorem RuleSet.declares_mapNames (R : RuleSet) (name : String) :
    (R.mapNames f).declares (f name) = R.declares name := by
  simp [declares, mapNames, hf.eq_iff]

theorem RuleSet.isStray_mapNames (R : RuleSet) (rule : Rule) :
    (R.mapNames f).isStray (rule.mapNames f) = R.isStray rule := by
  cases hclause : rule.clause with
  | rename source target => simp [isStray, hclause, Clause.mapNames]
  | transition lhs token next => simp [isStray, hclause, Clause.mapNames]
  | decision lhs verdict rhs =>
      cases rhs with
      | any => simp [isStray, hclause, Clause.mapNames, Side.mapNames, Side.name?]
      | name n =>
          simp [isStray, hclause, Clause.mapNames, Side.mapNames, Side.name?,
            R.declares_mapNames hf]

theorem RuleSet.strays_mapNames (R : RuleSet) : (R.mapNames f).strays = R.strays := by
  have hstray : ((fun e : Rule × Nat => (R.mapNames f).isStray e.1) ∘
      Prod.map (Rule.mapNames f) id) = fun e => R.isStray e.1 := by
    funext e
    exact R.isStray_mapNames hf e.1
  rw [strays, strays, zipIdx_rules_mapNames, List.filter_map, hstray, List.map_map]
  rfl

theorem RuleSet.undeclaredHits_mapNames (R : RuleSet) (v : Visit) :
    (R.mapNames f).undeclaredHits (v.mapNames f) =
      (R.undeclaredHits v).map (Prod.map id (Prod.map f f)) := by
  rw [undeclaredHits_eq, undeclaredHits_eq, R.strays_mapNames hf]
  simp only [Visit.mapNames, List.flatMap_map, List.map_flatMap, List.map_map]
  congr 1
  funext r
  have htokens : (R.mapNames f).tokens = R.tokens.map f := rfl
  rw [htokens, List.flatMap_map]
  congr 1
  funext token
  rw [Visited.mapNames, R.scan_mapNames hf]
  rfl

theorem RuleSet.findingAt_mapNames (R : RuleSet) (v : Visit) {rule : Rule} {i : Nat}
    (h : R.rules[i]? = some rule) :
    (R.mapNames f).findingAt (v.mapNames f) (rule.mapNames f) i =
      (R.findingAt v rule i).map (·.mapNames f) := by
  cases hclause : rule.clause with
  | rename source target => simp [findingAt, hclause, Clause.mapNames]
  | transition lhs token next => simp [findingAt, hclause, Clause.mapNames]
  | decision lhs verdict rhs =>
      simp only [findingAt, Rule.clause_mapNames, hclause, Clause.mapNames,
        R.undeclaredHits_mapNames hf, lookup_map_snd, Option.map_map]
      refine Option.map_congr fun hit hhit => ?_
      -- a rule that was hit is a stray, so its right side is a name
      have hstray := isStray_of_lookup hhit h
      simp only [Function.comp_apply, text_mapNames_of_isStray f hstray hclause]
      rfl

theorem RuleSet.findings_mapNames (R : RuleSet) (v : Visit) :
    (R.mapNames f).findings (v.mapNames f) = (R.findings v).map (·.mapNames f) := by
  rw [findings_eq, findings_eq, zipIdx_rules_mapNames, List.filterMap_map, List.map_filterMap]
  refine List.filterMap_congr fun e he => ?_
  exact R.findingAt_mapNames hf v (List.mem_zipIdx_iff_getElem?.mp he)

end Injective

/-! ### Machines -/

def Machine.mapNames (f : String → String) (M : Machine) : Machine where
  tokens := M.tokens.map f
  start := M.start
  states := M.states.map fun s => ⟨s.index, s.labels.map f, s.row⟩

namespace RawTable

variable (f : String → String) (t : RawTable)

@[simp] theorem row_mapNames (handle : Nat) : (t.mapNames f).row handle = t.row handle := by
  simp [row, mapNames, Function.comp_def]

theorem label_mapNames {handle : Nat} (h : handle < t.states.length) :
    (t.mapNames f).label handle = f (t.label handle) := by
  simp [label, mapNames, h]

theorem rows_mapNames : (t.mapNames f).rows = t.rows := by
  have hrow : (t.mapNames f).row = t.row := funext (row_mapNames f t)
  rw [rows, rows, hrow]
  rfl

theorem group_mapNames : (t.mapNames f).group = t.group := by
  funext handle
  rw [group, group, rows_mapNames, row_mapNames]
  rfl

theorem members_mapNames (i : Nat) : (t.mapNames f).members i = t.members i := by
  rw [members, members, group_mapNames]
  rfl

/-- Merging looks at rows only, and labels go along. -/
theorem merge_mapNames (tokens : List String) (h : ∀ handle ∈ t.order, handle < t.states.length) :
    (t.mapNames f).merge (tokens.map f) = (t.merge tokens).mapNames f := by
  have hlabels : ∀ i, (t.members i).map (t.mapNames f).label =
      ((t.members i).map t.label).map f := by
    intro i
    rw [List.map_map]
    exact List.map_congr_left fun handle hmem =>
      t.label_mapNames f (h handle (mem_members_iff.mp hmem).1)
  simp only [merge_eq, Machine.mapNames, group_mapNames, rows_mapNames, members_mapNames, hlabels,
    List.map_map, Function.comp_def]
  rfl

end RawTable

theorem Visit.Closed.lt_length_of_mem_order {v : Visit} {start : String} (hv : v.Closed start)
    {handle : Nat} (h : handle ∈ (v.table start).order) :
    handle < (v.table start).states.length := by
  obtain ⟨label, hl, rfl, -⟩ := hv.exists_label_of_mem_order h
  rw [table_states, List.length_map]
  exact List.idxOf_lt_length_of_mem (hv.mem_arena_iff_mem_labels.mpr hl)

/-- Building the renamed rules from the renamed start comes to what building the
rules comes to, under the new names: the same undecided cell, or a table with
the same arena, order, rows and start, the same findings at the same places, and
a machine with the same states. -/
theorem RuleSet.build_equivariant (R : RuleSet) (start : String) {f : String → String}
    (hf : Function.Injective f) :
    (R.mapNames f).build (f start) = mapBuiltNames f (R.build start) ∧
    (R.mapNames f).findings ((R.mapNames f).explore (f start)) =
      (R.findings (R.explore start)).map (·.mapNames f) ∧
    ∀ t, R.build start = .ok t →
      (R.mapNames f).build (f start) = .ok (t.mapNames f) ∧
      (t.mapNames f).merge (R.mapNames f).tokens = (t.merge R.tokens).mapNames f := by
  have hmirrors := R.mirrors_mapNames hf start
  refine ⟨hmirrors.build_eq, ?_, ?_⟩
  · rw [hmirrors.explore_eq, R.findings_mapNames hf]
  · intro t ht
    obtain ⟨hstuck, rfl⟩ := build_eq_ok_iff.mp ht
    refine ⟨by rw [hmirrors.build_eq, ht]; rfl, ?_⟩
    exact RawTable.merge_mapNames f _ R.tokens
      fun handle => (closed_explore hstuck).lt_length_of_mem_order

/-- A rule set in which a renaming leads to a right side that is no token. -/
def ghostRules : RuleSet where
  tokens := ["A", "B"]
  rules :=
    [⟨.rename "B" "GHOST", none, 4⟩, ⟨.decision .any .join (.name "GHOST"), none, 5⟩,
      ⟨.decision .any .split .any, none, 6⟩]
  start := some "A"

theorem decides_ghostRules (label token : String) : ghostRules.Decides label token := by
  simp [RuleSet.Decides, RuleSet.scan, RuleSet.facing, ghostRules, tokenClauses, Side.accepts,
    Reading.ofToken, Scan.step]

/-- Two tokens change their names with each other. -/
theorem build_equivariant_ghostRules :
    Function.Injective (Equiv.swap "A" "B") ∧
      ghostRules.mapNames (Equiv.swap "A" "B") =
        { tokens := ["B", "A"]
          rules :=
            [⟨.rename "A" "GHOST", none, 4⟩, ⟨.decision .any .join (.name "GHOST"), none, 5⟩,
              ⟨.decision .any .split .any, none, 6⟩]
          start := some "B" } ∧
      ∃ t, ghostRules.build "A" = .ok t ∧
        (ghostRules.mapNames (Equiv.swap "A" "B")).build (Equiv.swap "A" "B" "A") =
          .ok (t.mapNames (Equiv.swap "A" "B")) := by
  have hinjective := (Equiv.swap "A" "B").injective
  have hbuild : ghostRules.build "A" = .ok ((ghostRules.explore "A").table "A") :=
    RuleSet.build_eq_ok (RuleSet.explore_stuck_eq_none_iff.mpr
      fun label _ token _ => decides_ghostRules label token)
  refine ⟨hinjective, ?_, _, hbuild, ?_⟩
  · decide
  · exact ((ghostRules.build_equivariant "A" hinjective).2.2 _ hbuild).1

end BreakRules
