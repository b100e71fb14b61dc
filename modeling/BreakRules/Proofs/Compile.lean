import BreakRules.Compile
import BreakRules.Proofs.Explore

/-!
# The stages of a compilation

`compile` without its notes, stage by stage: reading, the test for tokens, the
judgement of the start, the exploration, the judgement of what it found. A
compilation succeeds exactly if every stage does, and then its machine is the
machine of the rule set: `compile_eq_ok_iff`.
-/

namespace BreakRules

/-! ### Judging findings -/

/-- The first finding that is denied ends the judgement; otherwise the warnings
are kept. -/
theorem Options.judge_eq (o : Options) (fs : List Finding) :
    o.judge fs =
      match fs.find? (o.policy · == .deny) with
      | some f => .error f
      | none => .ok (fs.filter (o.policy · == .warn)) := by
  induction fs with
  | nil => rfl
  | cons f fs ih =>
      cases hf : o.policy f with
      | deny => simp [judge, hf]
      | ignore => simp [judge, hf, ih]
      | warn =>
          simp only [judge, hf, ih]
          cases hfind : fs.find? (o.policy · == .deny) with
          | some g => simp [hf, hfind, Functor.map, Except.map]
          | none => simp [hf, hfind, Functor.map, Except.map]

@[simp] theorem Options.policy_default (f : Finding) : ({} : Options).policy f = .warn := by
  cases f <;> rfl

/-- If nothing is denied and nothing ignored, every finding is kept. -/
@[simp] theorem Options.judge_default (fs : List Finding) : ({} : Options).judge fs = .ok fs := by
  induction fs with
  | nil => rfl
  | cons f fs ih =>
      simp only [judge, policy_default, ih]
      rfl

/-! ### Stages -/

namespace RuleSet

def machine (R : RuleSet) (start : String) : Machine :=
  ((R.explore start).table start).merge R.tokens

/-- The compilation of a rule set, with the findings that are kept. -/
def compilation (R : RuleSet) (findings : List Finding) : Compilation :=
  ⟨R, R.machine R.startLabel, (R.explore R.startLabel).rows.length, findings⟩

theorem nodup_tokens_of_parse {source : String} {R : RuleSet}
    (h : RuleSet.parse source = .ok R) : R.tokens.Nodup := by
  unfold RuleSet.parse at h
  split at h
  · cases h
    exact nodup_distinct _
  · cases h

theorem compileNoted_snd (R : RuleSet) (options : Options) :
    (R.compileNoted options).2 =
      if R.tokens.isEmpty then .error .noTokens
      else
        match options.judge R.startFindings with
        | .error f => .error (.denied f)
        | .ok early =>
            match (R.explore R.startLabel).stuck with
            | some u => .error (.undecided u)
            | none =>
                match options.judge (R.findings (R.explore R.startLabel)) with
                | .error f => .error (.denied f)
                | .ok late => .ok (R.compilation (early ++ late)) := by
  unfold compileNoted
  split
  · rfl
  · cases options.judge R.startFindings with
    | error f => rfl
    | ok early =>
        simp only
        cases (R.explore R.startLabel).stuck with
        | some u => rfl
        | none =>
            simp only
            cases options.judge (R.findings (R.explore R.startLabel)) with
            | error f => rfl
            | ok late => rfl

end RuleSet

theorem compile_eq (source : String) (options : Options) :
    compile source options =
      match RuleSet.parse source with
      | .error e => .error (.parse e)
      | .ok R => (R.compileNoted options).2 := by
  unfold compile compileNoted RuleSet.parse
  cases hdraft : Draft.ofText source with
  | mk draft error => cases error <;> rfl

/-- A compilation succeeds exactly if every stage of it does. -/
theorem compile_eq_ok_iff {source : String} {options : Options} {c : Compilation} :
    compile source options = .ok c ↔
      ∃ R early late, RuleSet.parse source = .ok R ∧ R.tokens ≠ [] ∧
        options.judge R.startFindings = .ok early ∧
        (R.explore R.startLabel).stuck = none ∧
        options.judge (R.findings (R.explore R.startLabel)) = .ok late ∧
        c = R.compilation (early ++ late) := by
  rw [compile_eq]
  cases hparse : RuleSet.parse source with
  | error e => simp
  | ok R =>
      simp only [RuleSet.compileNoted_snd, Except.ok.injEq, exists_and_left, exists_eq_left']
      by_cases htokens : R.tokens = []
      · simp [htokens]
      · rw [if_neg (by simpa using htokens)]
        cases hearly : options.judge R.startFindings with
        | error f => simp
        | ok early =>
            cases hstuck : (R.explore R.startLabel).stuck with
            | some u => simp
            | none =>
                cases hlate : options.judge (R.findings (R.explore R.startLabel)) with
                | error f => simp
                | ok late => simp [htokens, eq_comm]

theorem compile_spec {source : String} {options : Options} {c : Compilation}
    (h : compile source options = .ok c) :
    RuleSet.parse source = .ok c.rules ∧ c.rules.tokens ≠ [] ∧
      (c.rules.explore c.rules.startLabel).stuck = none ∧
      c.machine = c.rules.machine c.rules.startLabel ∧
      c.rawStates = (c.rules.explore c.rules.startLabel).rows.length := by
  obtain ⟨R, early, late, hparse, htokens, -, hstuck, -, rfl⟩ := compile_eq_ok_iff.mp h
  exact ⟨hparse, htokens, hstuck, rfl, rfl⟩

/-- A text whose labels that can be reached have a verdict for every token
compiles if nothing is denied. -/
theorem compile_default_of_decides {source : String} {R : RuleSet}
    (hparse : RuleSet.parse source = .ok R) (htokens : R.tokens ≠ [])
    (hdecides : ∀ label, R.Reaches R.startLabel label →
      ∀ token ∈ R.tokens, R.Decides label token) :
    compile source {} =
      .ok (R.compilation (R.startFindings ++ R.findings (R.explore R.startLabel))) :=
  compile_eq_ok_iff.mpr ⟨R, _, _, hparse, htokens, Options.judge_default _,
    RuleSet.explore_stuck_eq_none_iff.mpr hdecides, Options.judge_default _, rfl⟩

/-! ### A text with its rule set -/

/-- A text with a start and two tokens that lead to states with equal rows. -/
def sampleText : String :=
  "A\nB\n-> S0\nS0 - A\nS0 x B\nx\n"

def sampleRules : RuleSet where
  tokens := ["A", "B"]
  rules :=
    [⟨.decision (.name "S0") .split (.name "A"), none, 4⟩,
      ⟨.decision (.name "S0") .join (.name "B"), none, 5⟩,
      ⟨.decision .any .join .any, none, 6⟩]
  start := some "S0"

theorem parse_sampleText : RuleSet.parse sampleText = .ok sampleRules := by
  have hdraft : Draft.ofText sampleText =
      ({ tokens := #["A", "B"], rules := sampleRules.rules.toArray, start := some "S0" },
        none) := by
    decide +kernel
  rw [RuleSet.parse, hdraft]
  simp [Draft.ruleSet, distinct_cons, sampleRules]

theorem decides_sampleRules (label token : String) : sampleRules.Decides label token := by
  by_cases hlabel : "S0" = label
  · subst hlabel
    simp [RuleSet.Decides, RuleSet.scan, RuleSet.facing, sampleRules, tokenClauses, Side.accepts,
      Reading.ofToken, Scan.step]
  · simp [RuleSet.Decides, RuleSet.scan, RuleSet.facing, sampleRules, tokenClauses, Side.accepts,
      Reading.ofToken, Scan.step, hlabel]

theorem compile_sampleText :
    ∃ c, compile sampleText {} = .ok c ∧ c.rules = sampleRules :=
  ⟨_, compile_default_of_decides parse_sampleText (by simp [sampleRules])
    fun label _ token _ => decides_sampleRules label token, rfl⟩

end BreakRules
