import BreakRules.Proofs.Compile

/-!
# What policies can change

Options are asked only where findings are judged. So a text either fails at the
same place under all options, or it gets stuck, where only a denied missing
start comes first, or all of its findings are judged in one go:
`compile_under_options`. Nothing but the findings of a compilation depends on
the policies, and a compilation under other options can be read off the one in
which everything is a warning.
-/

namespace BreakRules

/-- Every finding of a rule set, in the order in which they are judged. -/
def RuleSet.allFindings (R : RuleSet) : List Finding :=
  R.startFindings ++ R.findings (R.explore R.startLabel)

/-- The compilation of a rule set if nothing fails but the judgement. -/
def RuleSet.judged (R : RuleSet) (o : Options) : Except CompileError Compilation :=
  match R.allFindings.find? (o.policy · == .deny) with
  | some f => .error (.denied f)
  | none => .ok (R.compilation (R.allFindings.filter (o.policy · == .warn)))

namespace RuleSet

variable {R : RuleSet} (htokens : R.tokens ≠ [])
include htokens

theorem compileNoted_snd_of_stuck_eq_none (hstuck : (R.explore R.startLabel).stuck = none)
    (o : Options) : (R.compileNoted o).2 = R.judged o := by
  rw [compileNoted_snd, if_neg (by simpa using htokens), hstuck, judged, allFindings,
    List.find?_append, List.filter_append, Options.judge_eq, Options.judge_eq]
  cases R.startFindings.find? (o.policy · == .deny) with
  | some f => rfl
  | none =>
      simp only [Option.none_or]
      cases (R.findings (R.explore R.startLabel)).find? (o.policy · == .deny) with
      | some f => rfl
      | none => rfl

theorem compileNoted_snd_of_stuck_eq_some {u : Undecided}
    (hstuck : (R.explore R.startLabel).stuck = some u) (o : Options) :
    (R.compileNoted o).2 =
      .error (if R.start = none ∧ o.missingStart = .deny then .denied .missingStart
        else .undecided u) := by
  rw [compileNoted_snd, if_neg (by simpa using htokens), hstuck, startFindings]
  cases hstart : R.start with
  | some s => rfl
  | none =>
      cases hpolicy : o.missingStart with
      | deny => simp [Options.judge, Options.policy, hpolicy]
      | warn => simp [Options.judge, Options.policy, hpolicy, Functor.map, Except.map]
      | ignore => simp [Options.judge, Options.policy, hpolicy]

end RuleSet

/-- What a compilation can come to under all options. -/
theorem compile_under_options (source : String) :
    (∃ e, (∀ u, e ≠ .undecided u) ∧ ∀ o, compile source o = .error e) ∨
    (∃ R u, RuleSet.parse source = .ok R ∧ ∀ o, compile source o =
      .error (if R.start = none ∧ o.missingStart = .deny then .denied .missingStart
        else .undecided u)) ∨
    (∃ R, RuleSet.parse source = .ok R ∧ ∀ o, compile source o = R.judged o) := by
  simp only [compile_eq]
  cases hparse : RuleSet.parse source with
  | error e => exact .inl ⟨.parse e, by simp, fun _ => rfl⟩
  | ok R =>
      by_cases htokens : R.tokens = []
      · refine .inl ⟨.noTokens, by simp, ?_⟩
        intro o
        simp [RuleSet.compileNoted_snd, htokens]
      · cases hstuck : (R.explore R.startLabel).stuck with
        | some u =>
            exact .inr (.inl ⟨R, u, rfl,
              RuleSet.compileNoted_snd_of_stuck_eq_some htokens hstuck⟩)
        | none =>
            exact .inr (.inr ⟨R, rfl,
              RuleSet.compileNoted_snd_of_stuck_eq_none htokens hstuck⟩)

/-! ### Judging all findings at once -/

namespace RuleSet

theorem judged_warn (R : RuleSet) : R.judged ⟨.warn, .warn⟩ = .ok (R.compilation R.allFindings) := by
  have hdeny : R.allFindings.find? (({} : Options).policy · == .deny) = none := by
    simp
  have hwarn : R.allFindings.filter (({} : Options).policy · == .warn) = R.allFindings := by
    simp
  rw [judged, hdeny, hwarn]

theorem judged_eq_error {R : RuleSet} {o : Options} {f : Finding}
    (h : R.allFindings.find? (o.policy · == .deny) = some f) :
    R.judged o = .error (.denied f) := by
  rw [judged, h]

theorem judged_eq_ok {R : RuleSet} {o : Options}
    (h : ∀ f ∈ R.allFindings, o.policy f ≠ .deny) :
    R.judged o = .ok (R.compilation (R.allFindings.filter (o.policy · == .warn))) := by
  have hfind : R.allFindings.find? (o.policy · == .deny) = none := by
    simpa using h
  rw [judged, hfind]

theorem judged_eq_ok_iff {R : RuleSet} {o : Options} {c : Compilation} :
    R.judged o = .ok c ↔ (∀ f ∈ R.allFindings, o.policy f ≠ .deny) ∧
      c = R.compilation (R.allFindings.filter (o.policy · == .warn)) := by
  constructor
  · intro h
    unfold judged at h
    split at h
    · cases h
    · next hfind =>
        cases h
        exact ⟨by simpa using hfind, rfl⟩
  · rintro ⟨hall, rfl⟩
    exact judged_eq_ok hall

theorem exists_judged_eq_error_iff {R : RuleSet} {o : Options} :
    (∃ e, R.judged o = .error e) ↔ ∃ f ∈ R.allFindings, o.policy f = .deny := by
  constructor
  · rintro ⟨e, he⟩
    by_contra hall
    push Not at hall
    rw [judged_eq_ok hall] at he
    cases he
  · rintro ⟨f, hf, hdeny⟩
    have hsome : (R.allFindings.find? (o.policy · == .deny)).isSome :=
      List.find?_isSome.mpr ⟨f, hf, by simpa using hdeny⟩
    obtain ⟨g, hg⟩ := Option.isSome_iff_exists.mp hsome
    exact ⟨.denied g, judged_eq_error hg⟩

end RuleSet

theorem Options.policy_denyWarnings (o : Options) (f : Finding) :
    o.denyWarnings.policy f = (o.policy f).denied := by
  cases f <;> rfl

/-- Denying warnings lets exactly those compilations pass that have none. -/
theorem RuleSet.judged_denyWarnings_eq_ok_iff {R : RuleSet} {o : Options} {c : Compilation} :
    R.judged o.denyWarnings = .ok c ↔ R.judged o = .ok c ∧ c.findings = [] := by
  -- a policy becomes `deny` unless it is `ignore`, so nothing is left to be a warning
  have hdeny : ∀ f, o.denyWarnings.policy f ≠ .deny ↔
      o.policy f ≠ .deny ∧ o.policy f ≠ .warn := by
    intro f
    rw [Options.policy_denyWarnings]
    cases o.policy f <;> simp [Policy.denied]
  have hwarn : R.allFindings.filter (o.denyWarnings.policy · == .warn) = [] := by
    rw [List.filter_eq_nil_iff]
    intro f _
    rw [Options.policy_denyWarnings]
    cases o.policy f <;> simp [Policy.denied]
  rw [judged_eq_ok_iff, judged_eq_ok_iff, hwarn]
  constructor
  · rintro ⟨hall, rfl⟩
    have hnone : R.allFindings.filter (o.policy · == .warn) = [] := by
      rw [List.filter_eq_nil_iff]
      intro f hf
      simpa using ((hdeny f).mp (hall f hf)).2
    exact ⟨⟨fun f hf => ((hdeny f).mp (hall f hf)).1, by rw [hnone]⟩, rfl⟩
  · rintro ⟨⟨hall, rfl⟩, hnone⟩
    refine ⟨fun f hf => (hdeny f).mpr ⟨hall f hf, ?_⟩, by rw [← hnone]; rfl⟩
    simpa using List.filter_eq_nil_iff.mp hnone f hf

/-- What a text compiles to under options is read off its compilation with
nothing but warnings. Policies judge the findings of that and change nothing
else; a denied missing start comes before the undecided cell at which building
would fail. -/
theorem compile_judged (source : String) (o : Options) :
    (∀ w, compile source ⟨.warn, .warn⟩ = .ok w →
      ((∃ e, compile source o = .error e) ↔ ∃ f ∈ w.findings, o.policy f = .deny) ∧
      (∀ f, w.findings.find? (o.policy · == .deny) = some f →
        compile source o = .error (.denied f)) ∧
      ((∀ f ∈ w.findings, o.policy f ≠ .deny) →
        compile source o =
          .ok { w with findings := w.findings.filter (o.policy · == .warn) })) ∧
    (∀ e, compile source ⟨.warn, .warn⟩ = .error e →
      ((∃ u, e = .undecided u) ∧ (∃ R, RuleSet.parse source = .ok R ∧ R.start = none) ∧
          o.missingStart = .deny →
        compile source o = .error (.denied .missingStart)) ∧
      (¬ ((∃ u, e = .undecided u) ∧ (∃ R, RuleSet.parse source = .ok R ∧ R.start = none) ∧
          o.missingStart = .deny) →
        compile source o = .error e)) ∧
    (∀ c, compile source o.denyWarnings = .ok c ↔
      compile source o = .ok c ∧ c.findings = []) := by
  rcases compile_under_options source with ⟨e, hne, hall⟩ | ⟨R, u, hparse, hall⟩ | ⟨R, -, hall⟩
  · -- reading fails or there is no token
    refine ⟨by simp [hall], ?_, by simp [hall]⟩
    intro e' he'
    obtain rfl : e = e' := by simpa [hall] using he'
    refine ⟨?_, fun _ => hall o⟩
    rintro ⟨⟨u, hu⟩, -⟩
    exact absurd hu (hne u)
  · -- the exploration gets stuck
    have hwarn : compile source ⟨.warn, .warn⟩ = .error (.undecided u) := by simp [hall]
    refine ⟨by simp [hwarn], ?_, by simp [hall]⟩
    intro e he
    obtain rfl : .undecided u = e := by simpa [hwarn] using he
    constructor
    · rintro ⟨-, ⟨R', hparse', hstart⟩, hdeny⟩
      obtain rfl : R = R' := by simpa [hparse] using hparse'
      rw [hall, if_pos ⟨hstart, hdeny⟩]
    · intro hnot
      rw [hall, if_neg]
      rintro ⟨hstart, hdeny⟩
      exact hnot ⟨⟨u, rfl⟩, ⟨R, hparse, hstart⟩, hdeny⟩
  · -- all findings are judged
    simp only [hall, RuleSet.judged_warn]
    refine ⟨?_, by simp, fun c => RuleSet.judged_denyWarnings_eq_ok_iff⟩
    intro w hw
    cases hw
    exact ⟨RuleSet.exists_judged_eq_error_iff, fun f => RuleSet.judged_eq_error,
      RuleSet.judged_eq_ok⟩

/-- The rule set of a text with one token, one decision and no start. -/
def startlessRules (clause : Clause) : RuleSet :=
  ⟨["A"], [⟨clause, none, 2⟩], none⟩

theorem parse_startless :
    RuleSet.parse "A\nx\n" = .ok (startlessRules (.decision .any .join .any)) ∧
      RuleSet.parse "A\nA x\n" = .ok (startlessRules (.decision (.name "A") .join .any)) := by
  have hany : Draft.ofText "A\nx\n" =
      ({ tokens := #["A"], rules := #[⟨.decision .any .join .any, none, 2⟩] }, none) := by
    rfl
  have hname : Draft.ofText "A\nA x\n" =
      ({ tokens := #["A"], rules := #[⟨.decision (.name "A") .join .any, none, 2⟩] }, none) := by
    rfl
  rw [RuleSet.parse, RuleSet.parse, hany, hname]
  simp [Draft.ruleSet, distinct_cons, startlessRules]

/-- Nothing accepts the empty label, so the exploration is stuck at once. -/
theorem compile_startless_undecided :
    compile "A\nA x\n" ⟨.warn, .warn⟩ = .error (.undecided ⟨"", "A"⟩) := by
  have hmem : "" ∈ Std.HashSet.ofList
      ((startlessRules (.decision (.name "A") .join .any)).labels "") :=
    RuleSet.mem_ofList_labels.mpr (RuleSet.start_mem_labels _ _)
  have hstuck : ((startlessRules (.decision (.name "A") .join .any)).explore "").stuck =
      some ⟨"", "A"⟩ := by
    rw [RuleSet.explore, RuleSet.visit, dif_pos hmem]
    rfl
  rw [compile_eq, parse_startless.2]
  simp only
  rw [RuleSet.compileNoted_snd_of_stuck_eq_some (by decide) hstuck]
  rfl

theorem compile_judged_startless :
    compile "A\nA x\n" ⟨.warn, .deny⟩ = .error (.denied .missingStart) ∧
      compile "A\nx\n" .strict = .error (.denied .missingStart) := by
  constructor
  · exact ((compile_judged "A\nA x\n" ⟨.warn, .deny⟩).2.1 _ compile_startless_undecided).1
      ⟨⟨_, rfl⟩, ⟨_, parse_startless.2, rfl⟩, rfl⟩
  · have hdecides : ∀ label token,
        (startlessRules (.decision .any .join .any)).Decides label token := fun _ _ => rfl
    have hwarn := compile_default_of_decides parse_startless.1 (by decide)
      fun label _ token _ => hdecides label token
    exact ((compile_judged "A\nx\n" .strict).1 _ hwarn).2.1 .missingStart rfl

end BreakRules
