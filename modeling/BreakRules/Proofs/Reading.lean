import BreakRules.Proofs.Findings
import Mathlib.Data.List.Basic

/-!
# What a scan reads, position by position

A scan goes through the rules once and carries two names along, which renamings
change on the way. Here the rules are read without a scan: `R.nameAt i name` is a
name as the rule at position `i` sees it, and `R.decisionAt? state token i` and
`R.targetAt? state token i` say what the rule at position `i` has to say about a
state and a token, whatever the other rules do.

After any number of rules a scan has the verdict of the first decision among them,
the target of the last transition, and the positions of all decisions that accept
by a name (`RuleSet.ScannedTo`). One rule keeps to this, be it a renaming, a
transition or a decision: `RuleSet.ScannedTo.step`. So it holds of the whole scan:
`RuleSet.scan_reads_by_position`.
-/

namespace BreakRules

/-! ### First and last positions -/

section Range

variable {β : Type} {f : Nat → Option β} {n : Nat} {b : β}

theorem findSome?_range_eq_some_iff :
    (List.range n).findSome? f = some b ↔ ∃ i < n, f i = some b ∧ ∀ j < i, f j = none := by
  induction n with
  | zero => simp
  | succ n ih =>
      rw [List.range_succ, List.findSome?_append, Option.or_eq_some_iff, ih,
        List.findSome?_eq_none_iff]
      constructor
      · rintro (⟨i, hi, hfound⟩ | ⟨hnone, hlast⟩)
        · exact ⟨i, by omega, hfound⟩
        · exact ⟨n, by omega, by simpa using hlast, fun j hj => hnone j (List.mem_range.mpr hj)⟩
      · rintro ⟨i, hi, hfound, hnone⟩
        rcases Nat.lt_succ_iff_lt_or_eq.mp hi with hlt | rfl
        · exact .inl ⟨i, hlt, hfound, hnone⟩
        · exact .inr ⟨fun j hj => hnone j (List.mem_range.mp hj), by simpa using hfound⟩

theorem findSome?_reverse_range_eq_some_iff :
    (List.range n).reverse.findSome? f = some b ↔
      ∃ i < n, f i = some b ∧ ∀ j < n, i < j → f j = none := by
  induction n with
  | zero => simp
  | succ n ih =>
      rw [List.range_succ, List.reverse_append, List.reverse_singleton, List.singleton_append]
      cases hlast : f n with
      | some c =>
          rw [List.findSome?_cons_of_isSome (by simp [hlast]), hlast]
          constructor
          · intro h
            exact ⟨n, by omega, hlast.trans h, fun j hj hlt => by omega⟩
          · rintro ⟨i, hi, hfound, hnone⟩
            rcases Nat.lt_succ_iff_lt_or_eq.mp hi with hlt | rfl
            · cases hlast.symm.trans (hnone n (by omega) hlt)
            · exact hlast.symm.trans hfound
      | none =>
          rw [List.findSome?_cons_of_isNone (by simp [hlast]), ih]
          constructor
          · rintro ⟨i, hi, hfound, hnone⟩
            refine ⟨i, by omega, hfound, fun j hj hlt => ?_⟩
            rcases Nat.lt_succ_iff_lt_or_eq.mp hj with hj' | rfl
            · exact hnone j hj' hlt
            · exact hlast
          · rintro ⟨i, hi, hfound, hnone⟩
            rcases Nat.lt_succ_iff_lt_or_eq.mp hi with hlt | rfl
            · exact ⟨i, hlt, hfound, fun j hj => hnone j (by omega)⟩
            · cases hlast.symm.trans hfound

section End

variable (hend : ∀ i, n ≤ i → f i = none)
include hend

theorem lt_of_eq_some {i : Nat} (h : f i = some b) : i < n := by
  by_contra hi
  cases (hend i (Nat.le_of_not_lt hi)).symm.trans h

theorem forall_mem_range_eq_none_iff : (∀ i ∈ List.range n, f i = none) ↔ ∀ i, f i = none := by
  constructor
  · intro h i
    rcases Nat.lt_or_ge i n with hi | hi
    · exact h i (List.mem_range.mpr hi)
    · exact hend i hi
  · exact fun h i _ => h i

end End

end Range

/-! ### The rules, one position at a time -/

def Clause.renaming? : Clause → Option (String × String)
  | .rename source target => some (source, target)
  | _ => none

/-- A name after the renamings among rules, one after the other: each puts its
target in the place of its source. -/
def renamedBy (rules : List Rule) (name : String) : String :=
  (rules.filterMap (·.clause.renaming?)).foldl
    (fun name r => if name = r.1 then r.2 else name) name

namespace RuleSet

variable (R : RuleSet) (state token : String)

/-- A name as the rule at position `i` sees it. -/
def nameAt (i : Nat) (name : String) : String :=
  renamedBy (R.rules.take i) name

/-- The verdict and the right side of the rule at position `i`, if it is a decision
and accepts the state and the token under the names that they have there. -/
def decisionAt? (i : Nat) : Option (Verdict × Side) :=
  match R.rules[i]?.map Rule.clause with
  | some (.decision lhs verdict rhs) =>
      if lhs.accepts (R.nameAt i state) ∧ rhs.accepts (R.nameAt i token) then some (verdict, rhs)
      else none
  | _ => none

/-- The target of the rule at position `i`, if it is a transition and accepts the
state and the token under the names that they have there. -/
def targetAt? (i : Nat) : Option String :=
  match R.rules[i]?.map Rule.clause with
  | some (.transition lhs on target) =>
      if lhs.accepts (R.nameAt i state) ∧ on.accepts (R.nameAt i token) then some target else none
  | _ => none

/-- The rule at position `i` is a decision that accepts by a name on its right
side. -/
def namesAt (i : Nat) : Bool :=
  (R.decisionAt? state token i).any (·.2.name?.isSome)

end RuleSet

/-! ### One rule after the other -/

theorem renamedBy_append (rules more : List Rule) (name : String) :
    renamedBy (rules ++ more) name = renamedBy more (renamedBy rules name) := by
  rw [renamedBy, List.filterMap_append, List.foldl_append]
  rfl

theorem renamedBy_singleton (rule : Rule) (name : String) :
    renamedBy [rule] name =
      match rule.clause.renaming? with
      | some (source, target) => renamed source target name
      | none => name := by
  cases hrenaming : rule.clause.renaming? with
  | none => simp [renamedBy, hrenaming]
  | some r => simp [renamedBy, hrenaming, renamed]

/-- Rules that follow others see the state under the name that these have left it. -/
theorem tokenClauses_append (state : String) (i : Nat) (rules more : List Rule) :
    tokenClauses state i (rules ++ more) =
      tokenClauses state i rules ++
        tokenClauses (renamedBy rules state) (i + rules.length) more := by
  induction rules generalizing state i with
  | nil => rfl
  | cons rule rules ih =>
      have hlength : i + (rule :: rules).length = i + 1 + rules.length := by
        rw [List.length_cons]
        omega
      have hrenamed : renamedBy (rule :: rules) state =
          renamedBy rules (renamedBy [rule] state) := renamedBy_append [rule] rules state
      rw [List.cons_append, hlength, hrenamed, renamedBy_singleton]
      cases hclause : rule.clause with
      | rename source target =>
          simp only [tokenClauses, hclause, ih, Clause.renaming?, List.cons_append]
      | transition lhs on target =>
          simp only [tokenClauses, hclause, ih, Clause.renaming?]
          split <;> rfl
      | decision lhs verdict rhs =>
          simp only [tokenClauses, hclause, ih, Clause.renaming?]
          split <;> rfl

namespace RuleSet

variable {R : RuleSet} {state token : String} {n : Nat} {rule : Rule}

theorem nameAt_succ (hrule : R.rules[n]? = some rule) (name : String) :
    R.nameAt (n + 1) name = renamedBy [rule] (R.nameAt n name) := by
  rw [nameAt, List.take_add_one, hrule, renamedBy_append]
  rfl

/-- The scan behind the first `n` rules. -/
def scanTo (R : RuleSet) (state token : String) (n : Nat) : Scan :=
  (tokenClauses state 0 (R.rules.take n)).foldl Scan.step (Scan.begin token)

theorem scanTo_succ (hrule : R.rules[n]? = some rule) :
    R.scanTo state token (n + 1) =
      (tokenClauses (R.nameAt n state) n [rule]).foldl Scan.step (R.scanTo state token n) := by
  have hn : n < R.rules.length := (List.getElem?_eq_some_iff.mp hrule).1
  have hlength : (R.rules.take n).length = n := by
    rw [List.length_take]
    omega
  rw [scanTo, List.take_add_one, hrule, tokenClauses_append, List.foldl_append, hlength,
    Nat.zero_add]
  rfl

/-- A rule leaves in the scan what it has to say at its position. -/
theorem foldl_step_rule {s : Scan} (htoken : s.token = R.nameAt n token)
    (hrule : R.rules[n]? = some rule) :
    (tokenClauses (R.nameAt n state) n [rule]).foldl Scan.step s =
      { token := R.nameAt (n + 1) token
        reading :=
          { verdict := s.reading.verdict.or ((R.decisionAt? state token n).map (·.1))
            next := (R.targetAt? state token n).getD s.reading.next
            named := s.reading.named ++ if R.namesAt state token n then [n] else [] } } := by
  obtain ⟨_, verdict, next, named⟩ := s
  subst htoken
  rw [nameAt_succ hrule, renamedBy_singleton]
  cases hclause : rule.clause with
  | rename source target =>
      simp [tokenClauses, Scan.step, decisionAt?, targetAt?, namesAt, Clause.renaming?, hrule,
        hclause]
  | transition lhs on target =>
      by_cases hlhs : lhs.accepts (R.nameAt n state) <;>
        by_cases hon : on.accepts (R.nameAt n token) <;>
        simp [tokenClauses, Scan.step, decisionAt?, targetAt?, namesAt, Clause.renaming?, hrule,
          hclause, hlhs, hon]
  | decision lhs verdict rhs =>
      by_cases hlhs : lhs.accepts (R.nameAt n state) <;>
        by_cases hrhs : rhs.accepts (R.nameAt n token) <;>
        by_cases hnamed : rhs.name?.isSome <;>
        simp [tokenClauses, Scan.step, decisionAt?, targetAt?, namesAt, Clause.renaming?, hrule,
          hclause, hlhs, hrhs, hnamed]

/-- What a scan has behind the first `n` rules. -/
structure ScannedTo (R : RuleSet) (state token : String) (n : Nat) (s : Scan) : Prop where
  token_eq : s.token = R.nameAt n token
  verdict_eq : s.reading.verdict =
    ((List.range n).findSome? (R.decisionAt? state token)).map (·.1)
  next_eq : s.reading.next =
    ((List.range n).reverse.findSome? (R.targetAt? state token)).getD token
  named_eq : s.reading.named = (List.range n).filter (R.namesAt state token)

theorem scannedTo_zero (R : RuleSet) (state token : String) :
    R.ScannedTo state token 0 (R.scanTo state token 0) :=
  ⟨rfl, rfl, rfl, rfl⟩

theorem ScannedTo.step {s : Scan} (h : R.ScannedTo state token n s)
    (hrule : R.rules[n]? = some rule) :
    R.ScannedTo state token (n + 1)
      ((tokenClauses (R.nameAt n state) n [rule]).foldl Scan.step s) := by
  rw [foldl_step_rule h.token_eq hrule]
  constructor
  case token_eq => rfl
  case verdict_eq =>
    rw [List.range_succ, List.findSome?_append, List.findSome?_singleton, Option.map_or,
      ← h.verdict_eq]
  case next_eq =>
    rw [List.range_succ, List.reverse_append, List.reverse_singleton, List.findSome?_append,
      List.findSome?_singleton, Option.getD_or, ← h.next_eq]
  case named_eq =>
    rw [List.range_succ, List.filter_append, List.filter_singleton, ← h.named_eq,
      Bool.cond_eq_ite]

theorem scannedTo_scanTo (R : RuleSet) (state token : String) (hn : n ≤ R.rules.length) :
    R.ScannedTo state token n (R.scanTo state token n) := by
  induction n with
  | zero => exact R.scannedTo_zero state token
  | succ n ih =>
      have hrule : R.rules[n]? = some R.rules[n] := List.getElem?_eq_getElem hn
      rw [scanTo_succ hrule]
      exact (ih (Nat.le_of_succ_le hn)).step hrule

/-- The whole scan is the scan behind all rules. -/
theorem scannedTo_scan (R : RuleSet) (state token : String) :
    ∃ s, R.ScannedTo state token R.rules.length s ∧ s.reading = R.scan state token := by
  refine ⟨_, R.scannedTo_scanTo state token (Nat.le_refl _), ?_⟩
  rw [scanTo, List.take_length]
  rfl

/-! ### The whole scan -/

theorem decisionAt?_eq_none (R : RuleSet) (state token : String) (i : Nat)
    (hi : R.rules.length ≤ i) : R.decisionAt? state token i = none := by
  simp [decisionAt?, List.getElem?_eq_none hi]

theorem targetAt?_eq_none (R : RuleSet) (state token : String) (i : Nat)
    (hi : R.rules.length ≤ i) : R.targetAt? state token i = none := by
  simp [targetAt?, List.getElem?_eq_none hi]

theorem scan_verdict_eq_none_iff :
    (R.scan state token).verdict = none ↔ ∀ i, R.decisionAt? state token i = none := by
  obtain ⟨s, hs, hscan⟩ := R.scannedTo_scan state token
  rw [← hscan, hs.verdict_eq, Option.map_eq_none_iff, List.findSome?_eq_none_iff]
  exact forall_mem_range_eq_none_iff (R.decisionAt?_eq_none state token)

/-- The first decision gives the verdict. -/
theorem scan_verdict_eq_some_iff {verdict : Verdict} :
    (R.scan state token).verdict = some verdict ↔
      ∃ i rhs, R.decisionAt? state token i = some (verdict, rhs) ∧
        ∀ j < i, R.decisionAt? state token j = none := by
  obtain ⟨s, hs, hscan⟩ := R.scannedTo_scan state token
  rw [← hscan, hs.verdict_eq, Option.map_eq_some_iff]
  constructor
  · rintro ⟨⟨_, rhs⟩, hfound, rfl⟩
    obtain ⟨i, -, hi, hbefore⟩ := findSome?_range_eq_some_iff.mp hfound
    exact ⟨i, rhs, hi, hbefore⟩
  · rintro ⟨i, rhs, hi, hbefore⟩
    have hlt := lt_of_eq_some (R.decisionAt?_eq_none state token) hi
    exact ⟨(verdict, rhs), findSome?_range_eq_some_iff.mpr ⟨i, hlt, hi, hbefore⟩, rfl⟩

/-- The last transition gives the next label. -/
theorem scan_next_eq_iff {label : String} :
    (R.scan state token).next = label ↔
      (∃ i, R.targetAt? state token i = some label ∧
        ∀ j, i < j → R.targetAt? state token j = none) ∨
      (∀ i, R.targetAt? state token i = none) ∧ token = label := by
  obtain ⟨s, hs, hscan⟩ := R.scannedTo_scan state token
  rw [← hscan, hs.next_eq, Option.getD_eq_iff]
  refine or_congr ?_ (and_congr_left fun _ => ?_)
  · rw [findSome?_reverse_range_eq_some_iff]
    constructor
    · rintro ⟨i, -, hi, hbehind⟩
      refine ⟨i, hi, fun j hj => ?_⟩
      rcases Nat.lt_or_ge j R.rules.length with hlt | hge
      · exact hbehind j hlt hj
      · exact R.targetAt?_eq_none state token j hge
    · rintro ⟨i, hi, hbehind⟩
      have hlt := lt_of_eq_some (R.targetAt?_eq_none state token) hi
      exact ⟨i, hlt, hi, fun j _ => hbehind j⟩
  · simp only [List.findSome?_eq_none_iff, List.mem_reverse]
    exact forall_mem_range_eq_none_iff (R.targetAt?_eq_none state token)

theorem pairwise_undeclared (R : RuleSet) (state token : String) :
    ((R.scan state token).undeclared R.strays).Pairwise (· < ·) := by
  obtain ⟨s, hs, hscan⟩ := R.scannedTo_scan state token
  rw [← hscan, Reading.undeclared, hs.named_eq]
  exact (List.pairwise_lt_range.filter _).filter _

theorem namesAt_iff {i : Nat} :
    R.namesAt state token i = true ↔
      ∃ verdict name, R.decisionAt? state token i = some (verdict, .name name) := by
  rw [namesAt]
  cases R.decisionAt? state token i with
  | none => simp
  | some d =>
      obtain ⟨verdict, rhs⟩ := d
      cases rhs with
      | any => simp [Side.name?]
      | name n => simp [Side.name?]

/-- Only a decision decides at its position, and it decides by its own right side. -/
theorem exists_rule_of_decisionAt? {i : Nat} {verdict : Verdict} {rhs : Side}
    (h : R.decisionAt? state token i = some (verdict, rhs)) :
    ∃ rule lhs, R.rules[i]? = some rule ∧ rule.clause = .decision lhs verdict rhs := by
  unfold decisionAt? at h
  split at h
  · next lhs verdict' rhs' hclause =>
      obtain ⟨rule, hrule, hdecision⟩ := Option.map_eq_some_iff.mp hclause
      split at h
      · cases h
        exact ⟨rule, lhs, hrule, hdecision⟩
      · cases h
  · cases h

/-- Every decision that accepts by a name outside of the alphabet is collected. -/
theorem mem_undeclared_iff {i : Nat} :
    i ∈ (R.scan state token).undeclared R.strays ↔
      ∃ verdict name, R.decisionAt? state token i = some (verdict, .name name) ∧
        name ∉ R.tokens := by
  obtain ⟨s, hs, hscan⟩ := R.scannedTo_scan state token
  rw [← hscan, Reading.undeclared, hs.named_eq, List.mem_filter, List.mem_filter,
    Std.HashSet.contains_iff_mem, mem_strays_iff, namesAt_iff]
  constructor
  · rintro ⟨⟨-, verdict, name, hdecision⟩, rule, hrule, hstray⟩
    obtain ⟨rule', lhs, hrule', hclause⟩ := exists_rule_of_decisionAt? hdecision
    cases hrule.symm.trans hrule'
    refine ⟨verdict, name, hdecision, ?_⟩
    simpa [isStray, hclause, Side.name?, declares] using hstray
  · rintro ⟨verdict, name, hdecision, hname⟩
    obtain ⟨rule, lhs, hrule, hclause⟩ := exists_rule_of_decisionAt? hdecision
    have hlt := lt_of_eq_some (R.decisionAt?_eq_none state token) hdecision
    refine ⟨⟨List.mem_range.mpr hlt, verdict, name, hdecision⟩, rule, hrule, ?_⟩
    simpa [isStray, hclause, Side.name?, declares] using hname

/-- A scan says what can be read off the rules one position at a time. The first
decision gives the verdict, the last transition gives the next label, which is the
token itself if there is none, and every decision that accepts by a name outside of
the alphabet is collected, in the order of the rules. -/
theorem scan_reads_by_position (R : RuleSet) (state token : String) :
    ((R.scan state token).verdict = none ↔ ∀ i, R.decisionAt? state token i = none) ∧
    (∀ verdict, (R.scan state token).verdict = some verdict ↔
      ∃ i rhs, R.decisionAt? state token i = some (verdict, rhs) ∧
        ∀ j < i, R.decisionAt? state token j = none) ∧
    (∀ label, (R.scan state token).next = label ↔
      (∃ i, R.targetAt? state token i = some label ∧
        ∀ j, i < j → R.targetAt? state token j = none) ∨
      (∀ i, R.targetAt? state token i = none) ∧ token = label) ∧
    ((R.scan state token).undeclared R.strays).Pairwise (· < ·) ∧
    ∀ i, i ∈ (R.scan state token).undeclared R.strays ↔
      ∃ verdict name, R.decisionAt? state token i = some (verdict, .name name) ∧
        name ∉ R.tokens := by
  refine ⟨scan_verdict_eq_none_iff, ?_, ?_, R.pairwise_undeclared state token, ?_⟩
  · exact fun verdict => scan_verdict_eq_some_iff
  · exact fun label => scan_next_eq_iff
  · exact fun i => mem_undeclared_iff

end RuleSet

end BreakRules
