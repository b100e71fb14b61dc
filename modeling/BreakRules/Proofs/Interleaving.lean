import BreakRules.Proofs.Reports

/-!
# The order of declarations

Token lines, start lines, and labels with rules are three sequences that a text may
interleave as it likes, with blank lines and comments between them. What the text
declares depends on each sequence alone, but for the numbers of its lines
(`RuleSet.lineless_ofLines_congr`). In particular a rule may use a token that is declared
further down.

The number of a line is shown to the author of the rules and has no part in anything
else. `lineless` leaves it out: rules without it are explored in the same way and lead to
the same findings without it (`RuleSet.findings_lineless`).
-/

namespace BreakRules

/-! ### Without the numbers of lines -/

/-- A rule without the number of its line. -/
def Rule.lineless (rule : Rule) : Rule :=
  { rule with line := 0 }

def RuleSet.lineless (R : RuleSet) : RuleSet :=
  { R with rules := R.rules.map Rule.lineless }

def Finding.lineless : Finding → Finding
  | missingStart => missingStart
  | undeclaredRight _ group rhs state token => undeclaredRight 0 group rhs state token

def Compilation.lineless (c : Compilation) : Compilation :=
  { c with rules := c.rules.lineless, findings := c.findings.map Finding.lineless }

namespace RuleSet

theorem zipIdx_rules_lineless (R : RuleSet) :
    R.lineless.rules.zipIdx = R.rules.zipIdx.map (Prod.map Rule.lineless id) :=
  List.zipIdx_map

theorem alike_lineless (R : RuleSet) : R.Alike R.lineless :=
  ⟨rfl, rfl, by simp [lineless, List.map_map, Function.comp_def, Rule.lineless]⟩

theorem alike_of_lineless_eq {R R' : RuleSet} (h : R'.lineless = R.lineless) : R.Alike R' where
  tokens_eq := show R'.lineless.tokens = R.lineless.tokens by rw [h]
  start_eq := show R'.lineless.start = R.lineless.start by rw [h]
  clauses_eq := by rw [← R'.alike_lineless.clauses_eq, h, R.alike_lineless.clauses_eq]

theorem Alike.scan_eq {R R' : RuleSet} (h : R.Alike R') (state token : String) :
    R'.scan state token = R.scan state token := by
  rw [scan, scan, facing, facing, tokenClauses_congr h.clauses_eq]

theorem strays_lineless (R : RuleSet) : R.lineless.strays = R.strays := by
  have hstray : ((fun e : Rule × Nat => R.lineless.isStray e.1) ∘ Prod.map Rule.lineless id) =
      fun e => R.isStray e.1 := rfl
  rw [strays, strays, zipIdx_rules_lineless, List.filter_map, hstray, List.map_map]
  rfl

theorem undeclaredHits_lineless (R : RuleSet) (v : Visit) :
    R.lineless.undeclaredHits v = R.undeclaredHits v := by
  simp only [undeclaredHits_eq, strays_lineless, R.alike_lineless.scan_eq]
  rfl

theorem findingAt_lineless (R : RuleSet) (v : Visit) (rule : Rule) (i : Nat) :
    R.lineless.findingAt v rule.lineless i = (R.findingAt v rule i).map Finding.lineless := by
  have hclause : rule.lineless.clause = rule.clause := rfl
  cases h : rule.clause with
  | rename source target => simp [findingAt, hclause, h]
  | transition lhs token next => simp [findingAt, hclause, h]
  | decision lhs verdict rhs =>
      simp only [findingAt, hclause, h, undeclaredHits_lineless, Option.map_map]
      rfl

/-- Rules without lines lead to the same findings, without lines. -/
theorem findings_lineless (R : RuleSet) (v : Visit) :
    R.lineless.findings v = (R.findings v).map Finding.lineless := by
  rw [findings_eq, findings_eq, zipIdx_rules_lineless, List.filterMap_map, List.map_filterMap]
  exact List.filterMap_congr fun e _ => R.findingAt_lineless v e.1 e.2

end RuleSet

/-! ### Sequences of lines -/

/-- Whether a line is a label or a rule. -/
def Line.isGrouping (line : Line) : Bool :=
  line.group?.isSome || line.clause?.isSome

theorem filterMap_filter_isSome {α β : Type} (f : α → Option β) (l : List α) :
    (l.filter fun a => (f a).isSome).filterMap f = l.filterMap f := by
  rw [List.filterMap_filter]
  refine List.filterMap_congr fun a _ => ?_
  cases f a <;> rfl

theorem groupBehind_filter (lines : List Line) :
    groupBehind (lines.filter Line.isGrouping) = groupBehind lines := by
  rw [groupBehind, List.filterMap_filter, groupBehind]
  congr 1
  refine List.filterMap_congr fun line _ => ?_
  cases line <;> rfl

/-- Other lines than labels and rules change nothing about rules but their lines. -/
theorem rulesOf_filter (lines : List Line) :
    (rulesOf (lines.filter Line.isGrouping)).map Rule.lineless =
      (rulesOf lines).map Rule.lineless := by
  induction lines using List.reverseRecOn with
  | nil => rfl
  | append_singleton lines line ih =>
      rw [List.filter_append, rulesOf_concat, List.map_append, ← ih]
      cases hclause : line.clause? with
      | some clause =>
          have hline : [line].filter Line.isGrouping = [line] := by
            simp [Line.isGrouping, hclause]
          rw [hline, rulesOf_concat, List.map_append, hclause, groupBehind_filter]
          rfl
      | none =>
          -- a label that stays adds no rule, as any line that goes
          cases hline : line.isGrouping with
          | true => simp [hline, rulesOf_concat, hclause]
          | false => simp [hline]

/-- What lines declare depends on the sequences of their tokens, of their starts, and of
their labels and rules. -/
theorem RuleSet.lineless_ofLines_congr {lines lines' : List Line}
    (htokens : lines'.filter (·.token?.isSome) = lines.filter (·.token?.isSome))
    (hstarts : lines'.filter (·.start?.isSome) = lines.filter (·.start?.isSome))
    (hrules : lines'.filter Line.isGrouping = lines.filter Line.isGrouping) :
    (RuleSet.ofLines lines').lineless = (RuleSet.ofLines lines).lineless := by
  have htoken : lines'.filterMap Line.token? = lines.filterMap Line.token? := by
    rw [← filterMap_filter_isSome, htokens, filterMap_filter_isSome]
  have hstart : lines'.filterMap Line.start? = lines.filterMap Line.start? := by
    rw [← filterMap_filter_isSome, hstarts, filterMap_filter_isSome]
  have hrule : (rulesOf lines').map Rule.lineless = (rulesOf lines).map Rule.lineless := by
    rw [← rulesOf_filter, hrules, rulesOf_filter]
  simp only [RuleSet.lineless, RuleSet.ofLines, htoken, hstart, hrule]

/-! ### Texts -/

/-- The words of the lines of a text that say something of a kind. -/
def wordsSaying (kind : Line → Bool) (source : String) : List (List String) :=
  ((Text.lines source.toList).map Line.wordsOf).filter fun words =>
    (Line.ofWords words).toOption.any kind

/-- Two texts have the same token lines, the same start lines, and the same labels and
rules, up to layout, each in the same order. -/
structure SameDeclarations (source source' : String) : Prop where
  tokens_eq : wordsSaying (·.token?.isSome) source' = wordsSaying (·.token?.isSome) source
  starts_eq : wordsSaying (·.start?.isSome) source' = wordsSaying (·.start?.isSome) source
  rules_eq : wordsSaying Line.isGrouping source' = wordsSaying Line.isGrouping source

/-- The lines of a kind can be told from their words. -/
theorem filterMap_wordsSaying {source : String} {lines : List Line}
    (h : List.Forall₂ (fun text line => Line.read text = .ok line) (Text.lines source.toList)
      lines) (kind : Line → Bool) :
    (wordsSaying kind source).filterMap (fun words => (Line.ofWords words).toOption) =
      lines.filter kind := by
  have hlines : lines = ((Text.lines source.toList).map Line.wordsOf).filterMap
      fun words => (Line.ofWords words).toOption := by
    rw [List.filterMap_map]
    have hread := filterMap_eq_of_forall₂ (f := fun text => (Line.read text).toOption) (g := some)
      (h.imp fun text line hread => by rw [hread]; rfl)
    rw [List.filterMap_some] at hread
    exact hread.symm
  rw [hlines, List.filter_filterMap, wordsSaying, List.filterMap_filter]
  refine List.filterMap_congr fun words _ => ?_
  cases (Line.ofWords words).toOption with
  | none => rfl
  | some line => cases kind line <;> rfl

theorem SameDeclarations.lineless_eq {source source' : String} {R R' : RuleSet}
    (h : SameDeclarations source source') (hR : RuleSet.parse source = .ok R)
    (hR' : RuleSet.parse source' = .ok R') : R'.lineless = R.lineless := by
  obtain ⟨lines, hlines, rfl⟩ := RuleSet.parse_eq_ok_iff.mp hR
  obtain ⟨lines', hlines', rfl⟩ := RuleSet.parse_eq_ok_iff.mp hR'
  apply RuleSet.lineless_ofLines_congr
  · rw [← filterMap_wordsSaying hlines', h.tokens_eq, filterMap_wordsSaying hlines]
  · rw [← filterMap_wordsSaying hlines', h.starts_eq, filterMap_wordsSaying hlines]
  · rw [← filterMap_wordsSaying hlines', h.rules_eq, filterMap_wordsSaying hlines]

def Finding.right? : Finding → Option String
  | missingStart => none
  | undeclaredRight _ _ rhs _ _ => some rhs

namespace RuleSet

variable {source : String} {R : RuleSet}

/-- A token counts wherever its line stands. -/
theorem mem_tokens_of_read (h : RuleSet.parse source = .ok R) {text : List Char} {name : String}
    (htext : text ∈ Text.lines source.toList) (hread : Line.read text = .ok (.token name)) :
    name ∈ R.tokens := by
  rw [tokens_of_parse h, List.mem_eraseDups, List.mem_filterMap]
  exact ⟨text, htext, (Line.token?_of_read hread).symm⟩

/-- A missing start is about no right side. -/
theorem right?_of_mem_startFindings {f : Finding} (hf : f ∈ R.startFindings) :
    f.right? = none := by
  unfold startFindings at hf
  split at hf
  · obtain rfl := List.mem_singleton.mp hf
    rfl
  · cases hf

/-- No finding is about a token. -/
theorem right?_ne_of_mem_findings {v : Visit} {f : Finding} (hf : f ∈ R.findings v)
    {name : String} (hname : name ∈ R.tokens) : f.right? ≠ some name := by
  rw [findings_eq, List.mem_filterMap] at hf
  obtain ⟨⟨rule, i⟩, he, hfinding⟩ := hf
  dsimp only [findingAt] at hfinding
  split at hfinding
  · next lhs verdict rhs hclause =>
      obtain ⟨hit, hlookup, rfl⟩ := Option.map_eq_some_iff.mp hfinding
      -- a rule that was hit is a stray, so its right side is no token
      have hstray := isStray_of_lookup hlookup (List.mem_zipIdx_iff_getElem?.mp he)
      intro hright
      obtain rfl : rhs.text = name := Option.some.inj hright
      cases rhs with
      | any => simp [isStray, hclause, Side.name?] at hstray
      | name n =>
          have hnot : n ∉ R.tokens := by
            simpa [isStray, hclause, Side.name?, declares] using hstray
          exact hnot hname
  · cases hfinding

/-- No scan takes a token for undeclared. -/
theorem not_mem_undeclared_of_mem_tokens {i : Nat} {rule : Rule} {lhs : Side} {verdict : Verdict}
    {name : String} (hrule : R.rules[i]? = some rule)
    (hclause : rule.clause = .decision lhs verdict (.name name)) (hname : name ∈ R.tokens)
    (state token : String) : i ∉ (R.scan state token).undeclared R.strays := by
  intro hhit
  obtain ⟨verdict', name', hdecision, hnot⟩ := mem_undeclared_iff.mp hhit
  obtain ⟨rule', lhs', hrule', hclause'⟩ := exists_rule_of_decisionAt? hdecision
  obtain rfl := Option.some.inj (hrule.symm.trans hrule')
  cases hclause.symm.trans hclause'
  exact hnot hname

end RuleSet

/-- Under the default options, rules that differ in lines only compile to the same, or fail
in the same way. -/
theorem compile_default_congr {source source' : String} {R R' : RuleSet}
    (hR : RuleSet.parse source = .ok R) (hR' : RuleSet.parse source' = .ok R')
    (h : R'.lineless = R.lineless) :
    (compile source' {}).map Compilation.lineless =
      (compile source {}).map Compilation.lineless := by
  have halike := RuleSet.alike_of_lineless_eq h
  have hfindings : ∀ v, (R'.findings v).map Finding.lineless =
      (R.findings v).map Finding.lineless := by
    intro v
    rw [← RuleSet.findings_lineless, h, RuleSet.findings_lineless]
  have hstart : R'.startFindings = R.startFindings := by
    rw [RuleSet.startFindings, RuleSet.startFindings, halike.start_eq]
  rw [compile_default, compile_default, hR, hR']
  simp only [halike.tokens_eq, halike.startLabel_eq, halike.explore_eq]
  split
  · rfl
  · cases (R.explore R.startLabel).stuck with
    | some u => rfl
    | none =>
        simp only [Except.map, Compilation.lineless, RuleSet.compilation, halike.startLabel_eq,
          halike.explore_eq, halike.machine_eq, List.map_append, hstart, hfindings, h]

/-- An accepted text fails for want of tokens or of a verdict only. -/
theorem eq_noTokens_or_undecided {source : String} {R : RuleSet}
    (hR : RuleSet.parse source = .ok R) {e : CompileError} (h : compile source {} = .error e) :
    e = .noTokens ∨ ∃ u, e = .undecided u := by
  rw [compile_default, hR] at h
  dsimp only at h
  split at h
  · cases h
    exact .inl rfl
  · split at h
    · cases h
      exact .inr ⟨_, rfl⟩
    · cases h

/-- Two accepted texts with the same token lines, the same start lines, and the same labels
and rules declare the same, however these are interleaved and whatever stands between
them. They compile to the same machine with the same findings, or fail in the same way;
only lines have other numbers. A name counts as a token wherever its line stands: no rule
with that right side is taken for undeclared, and no finding is about it. -/
theorem compile_interleaved {source source' : String} {R R' : RuleSet}
    (hR : RuleSet.parse source = .ok R) (hR' : RuleSet.parse source' = .ok R')
    (h : SameDeclarations source source') :
    R'.tokens = R.tokens ∧ R'.start = R.start ∧
    R'.rules.map Rule.lineless = R.rules.map Rule.lineless ∧
    (compile source' {}).map Compilation.lineless =
      (compile source {}).map Compilation.lineless ∧
    (∀ e, compile source {} = .error e → e = .noTokens ∨ ∃ u, e = .undecided u) ∧
    ∀ text ∈ Text.lines source.toList, ∀ name, Line.read text = .ok (.token name) →
      (∀ i rule lhs verdict, R.rules[i]? = some rule →
        rule.clause = .decision lhs verdict (.name name) →
        ∀ state token, i ∉ (R.scan state token).undeclared R.strays) ∧
      ∀ c, compile source {} = .ok c → ∀ f ∈ c.findings, f.right? ≠ some name := by
  have heq := h.lineless_eq hR hR'
  have halike := RuleSet.alike_of_lineless_eq heq
  refine ⟨halike.tokens_eq, halike.start_eq, congrArg RuleSet.rules heq,
    compile_default_congr hR hR' heq, fun e => eq_noTokens_or_undecided hR, ?_⟩
  intro text htext name hread
  have hname := RuleSet.mem_tokens_of_read hR htext hread
  refine ⟨fun i rule lhs verdict hrule hclause =>
    RuleSet.not_mem_undeclared_of_mem_tokens hrule hclause hname, fun c hc f hf => ?_⟩
  obtain ⟨Q, early, late, hparse, -, hearly, -, hlate, rfl⟩ := compile_eq_ok_iff.mp hc
  obtain rfl := Except.ok.inj (hR.symm.trans hparse)
  rw [Options.judge_default] at hearly hlate
  cases hearly
  cases hlate
  rcases List.mem_append.mp hf with hf | hf
  · rw [RuleSet.right?_of_mem_startFindings hf]
    exact nofun
  · exact RuleSet.right?_ne_of_mem_findings hf hname

/-- Declarations first, then the rules. -/
def earlyText : String :=
  "A\nB\n-> A\nlate:\n- B\nA -> GHOST\nx GHOST\nx\n"

/-- The declarations of `earlyText` between and behind the rules. -/
def lateText : String :=
  "late:\n  - B -- not yet\n\nA\nA -> GHOST\nx GHOST\n-> A\nx\n\tB"

/-- The rule set of `earlyText` and of `lateText`, with the lines that its rules have
there. -/
def lateRules (first second third fourth : Nat) : RuleSet where
  tokens := ["A", "B"]
  rules :=
    [⟨.decision .any .split (.name "B"), some "late", first⟩,
      ⟨.rename "A" "GHOST", some "late", second⟩,
      ⟨.decision .any .join (.name "GHOST"), some "late", third⟩,
      ⟨.decision .any .join .any, some "late", fourth⟩]
  start := some "A"

theorem parse_earlyText : RuleSet.parse earlyText = .ok (lateRules 5 6 7 8) := by
  have hdraft : Draft.ofText earlyText =
      ({ group := some "late", tokens := #["A", "B"],
         rules := (lateRules 5 6 7 8).rules.toArray, start := some "A" }, none) := by
    decide +kernel
  rw [RuleSet.parse, hdraft]
  simp [Draft.ruleSet, distinct_cons, lateRules]

theorem parse_lateText : RuleSet.parse lateText = .ok (lateRules 2 5 6 8) := by
  have hdraft : Draft.ofText lateText =
      ({ group := some "late", tokens := #["A", "B"],
         rules := (lateRules 2 5 6 8).rules.toArray, start := some "A" }, none) := by
    decide +kernel
  rw [RuleSet.parse, hdraft]
  simp [Draft.ruleSet, distinct_cons, lateRules]

theorem sameDeclarations_lateText : SameDeclarations lateText earlyText :=
  ⟨by decide +kernel, by decide +kernel, by decide +kernel⟩

/-- The first rule of `lateText` uses a token that its last line declares. -/
theorem compile_interleaved_lateText :
    SameDeclarations lateText earlyText ∧
      (∃ c c', compile lateText {} = .ok c ∧ compile earlyText {} = .ok c' ∧
        c'.machine = c.machine ∧ ∀ f ∈ c.findings, f.right? ≠ some "B") ∧
      ∀ state token, 0 ∉ ((lateRules 2 5 6 8).scan state token).undeclared
        (lateRules 2 5 6 8).strays := by
  obtain ⟨c, hc⟩ : ∃ c, compile lateText {} = .ok c :=
    ⟨_, compile_default_of_decides parse_lateText (by simp [lateRules])
      fun label _ token _ =>
        @RuleSet.decides_of_decisionAt? _ label token 3 (.join, .any) rfl⟩
  obtain ⟨-, -, -, hsame, -, htoken⟩ :=
    compile_interleaved parse_lateText parse_earlyText sameDeclarations_lateText
  obtain ⟨hscan, hfindings⟩ := htoken "\tB".toList (by decide +kernel) "B" (by decide +kernel)
  refine ⟨sameDeclarations_lateText, ?_, hscan 0 _ _ _ rfl rfl⟩
  cases hearly : compile earlyText {} with
  | error e =>
      rw [hc, hearly] at hsame
      cases hsame
  | ok c' =>
      rw [hc, hearly] at hsame
      have hlineless : c'.lineless = c.lineless := Except.ok.inj hsame
      have hmachine : c'.lineless.machine = c.lineless.machine := by rw [hlineless]
      exact ⟨c, c', hc, rfl, hmachine, hfindings c hc⟩

end BreakRules
