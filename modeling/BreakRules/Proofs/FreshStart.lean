import BreakRules.Proofs.Building
import BreakRules.Proofs.Names
import BreakRules.Proofs.Pieces
import BreakRules.Proofs.Rename
import BreakRules.Proofs.Reports

/-!
# A missing start

Without a start line a machine is built from the empty label. No name of a text is
empty, so no rule asks for this label by its name and no token leads to it. A name that
the text does not use is just as unknown to the rules. The two can change places without
any other name being touched, and the rules stay as they are: `RuleSet.mapNames_eq_self`.
So declaring an unused name as the start comes to what declaring no start comes to, with
the name in the place of the empty label, and only the finding of the missing start is
gone: `compile_unused_start`.
-/

namespace BreakRules

/-! ### The words of a rule set -/

/-- The words that the tokens and the rules of a rule set are written with. -/
def RuleSet.words (R : RuleSet) : List String :=
  R.tokens ++ R.rules.flatMap (·.clause.words)

theorem Side.mapNames_eq_self {f : String → String} {side : Side} (h : f side.text = side.text) :
    side.mapNames f = side := by
  cases side with
  | any => rfl
  | name n => exact congrArg Side.name h

theorem Clause.mapNames_eq_self {f : String → String} {clause : Clause}
    (h : ∀ w ∈ clause.words, f w = w) : clause.mapNames f = clause := by
  cases clause with
  | rename source target =>
      rw [mapNames, h source (by simp [words]), h target (by simp [words])]
  | transition lhs token next =>
      rw [mapNames, Side.mapNames_eq_self (h lhs.text (by simp [words])),
        Side.mapNames_eq_self (h token.text (by simp [words])), h next (by simp [words])]
  | decision lhs verdict rhs =>
      rw [mapNames, Side.mapNames_eq_self (h lhs.text (by simp [words])),
        Side.mapNames_eq_self (h rhs.text (by simp [words]))]

namespace RuleSet

variable {R : RuleSet}

theorem token_mem_words {token : String} (h : token ∈ R.tokens) : token ∈ R.words :=
  List.mem_append_left _ h

theorem mem_words_of_mem_clause {rule : Rule} (hrule : rule ∈ R.rules) {w : String}
    (hw : w ∈ rule.clause.words) : w ∈ R.words :=
  List.mem_append_right _ (List.mem_flatMap.mpr ⟨rule, hrule, hw⟩)

/-- New names for other words than those of a rule set change nothing. -/
theorem mapNames_eq_self {f : String → String} (hstart : R.start = none)
    (h : ∀ w ∈ R.words, f w = w) : R.mapNames f = R := by
  have htokens : R.tokens.map f = R.tokens := by
    calc R.tokens.map f
        = R.tokens.map id := List.map_congr_left fun token htoken => h token (token_mem_words htoken)
      _ = R.tokens := List.map_id _
  have hrules : R.rules.map (·.mapNames f) = R.rules := by
    calc R.rules.map (·.mapNames f)
        = R.rules.map id := by
          refine List.map_congr_left fun rule hrule => ?_
          rw [Rule.mapNames,
            Clause.mapNames_eq_self fun w hw => h w (mem_words_of_mem_clause hrule hw), id_eq]
      _ = R.rules := List.map_id _
  rw [mapNames, htokens, hrules, hstart, Option.map_none, ← hstart]

theorem target_mem_words {target : String} (h : target ∈ R.rules.filterMap target?) :
    target ∈ R.words := by
  obtain ⟨rule, hrule, htarget⟩ := List.mem_filterMap.mp h
  refine mem_words_of_mem_clause hrule ?_
  unfold target? at htarget
  split at htarget
  · next hclause =>
      cases htarget
      simp [hclause, Clause.words]
  · cases htarget

theorem scan_next_mem_words (state : String) {token : String} (h : token ∈ R.tokens) :
    (R.scan state token).next ∈ R.words := by
  rcases R.scan_next state token with hnext | hnext
  · rw [hnext]
    exact token_mem_words h
  · exact target_mem_words hnext

/-- Every label but the start is a word of the rule set. -/
theorem mem_words_of_reaches {start label : String} (h : R.Reaches start label)
    (hne : label ≠ start) : label ∈ R.words := by
  cases h with
  | refl => exact absurd rfl hne
  | step _ htoken => exact scan_next_mem_words _ htoken

/-- A finding names a word of the rules, a label with a row and a token. -/
theorem names_of_mem_findings {v : Visit} {finding : Finding} (h : finding ∈ R.findings v) :
    ∃ line group rhs state token, finding = .undeclaredRight line group rhs state token ∧
      rhs ∈ R.words ∧ state ∈ v.labels ∧ token ∈ R.tokens := by
  rw [findings_eq] at h
  obtain ⟨⟨rule, i⟩, hrule, hfinding⟩ := List.mem_filterMap.mp h
  dsimp only [findingAt] at hfinding
  split at hfinding
  · next lhs verdict rhs hclause =>
      obtain ⟨⟨state, token⟩, hlookup, rfl⟩ := Option.map_eq_some_iff.mp hfinding
      obtain ⟨before, after, hhits, -⟩ := List.lookup_eq_some_iff.mp hlookup
      have hhit : (i, state, token) ∈ R.undeclaredHits v := by simp [hhits]
      obtain ⟨hstate, htoken, -, -⟩ := mem_undeclaredHits_iff.mp hhit
      have hword : rhs.text ∈ R.words :=
        mem_words_of_mem_clause (List.mem_of_getElem? (List.mem_zipIdx_iff_getElem?.mp hrule))
          (by simp [hclause, Clause.words])
      exact ⟨_, _, _, state, token, rfl, hword, hstate, htoken⟩
  · cases hfinding

/-- A missing start is not found by exploring. -/
theorem missingStart_not_mem_findings (v : Visit) : .missingStart ∉ R.findings v := by
  intro h
  obtain ⟨line, group, rhs, state, token, heq, -⟩ := names_of_mem_findings h
  cases heq

end RuleSet

theorem Line.IsWord.ne_empty {w : String} (h : IsWord w) : w ≠ "" := by
  rintro rfl
  exact h.ne_nil rfl

theorem RuleSet.Legal.ne_empty_of_mem_words {R : RuleSet} (hR : R.Legal) {w : String}
    (h : w ∈ R.words) : w ≠ "" := by
  rcases List.mem_append.mp h with htoken | hclause
  · exact (hR.token w htoken).toIsWord.ne_empty
  · obtain ⟨rule, hrule, hw⟩ := List.mem_flatMap.mp hclause
    exact ((hR.clause rule hrule).isWord w hw).ne_empty

/-! ### Successors -/

namespace RuleSet

variable {R : RuleSet}

/-- The first state of a table is that of the start. -/
theorem find?_start_of_build {start : String} {t : RawTable} (h : R.build start = .ok t) :
    t.find? start = some t.start := by
  obtain ⟨-, rfl⟩ := build_eq_ok_iff.mp h
  have harena : (R.explore start).arena start =
      start :: (distinct ((R.explore start).rows.flatMap (·.row.map (·.next)))).filter
        (· != start) := distinct_cons _ _
  have hstart : ((R.explore start).table start).start = 0 := by
    rw [Visit.table, harena]
    exact List.idxOf_cons_self
  rw [hstart, RawTable.find?, Visit.table_states, harena, List.map_cons, List.findIdx?_cons,
    if_pos BEq.rfl]

/-- No cell of a table leads to the state of the empty label. -/
theorem Legal.next_ne_start (hR : R.Legal) {t : RawTable} (h : R.build "" = .ok t)
    {state : RawState} (hstate : state ∈ t.states) {c : Cell Nat} (hc : c ∈ state.row) :
    c.next ≠ t.start := by
  obtain ⟨hstuck, rfl⟩ := build_eq_ok_iff.mp h
  have hcovers := covers_table hstuck
  obtain ⟨i, hi⟩ := List.getElem?_of_mem hc
  obtain ⟨token, htoken, -, hnext⟩ :=
    exists_getElem?_of_forall₂ (hcovers.answers_row state hstate).flip hi
  have hword := scan_next_mem_words state.label (List.mem_of_getElem? htoken)
  rw [hnext] at hword
  intro heq
  apply hR.ne_empty_of_mem_words hword
  rw [Cell.map, heq, hcovers.label_start]

end RuleSet

/-! ### The empty label under a name -/

def RuleSet.startingAt (R : RuleSet) (name : String) : RuleSet :=
  { R with start := some name }

/-- Where the other name does not occur, changing two names with each other is replacing
one of them. -/
theorem swap_eq_renamed {source target name : String} (h : name ≠ target) :
    Equiv.swap source target name = renamed source target name := by
  unfold renamed
  split
  · next heq => rw [heq, Equiv.swap_apply_left]
  · next hne => exact Equiv.swap_apply_of_ne_of_ne hne h

theorem Machine.mapNames_congr {f g : String → String} {M : Machine}
    (htokens : ∀ token ∈ M.tokens, f token = g token)
    (hlabels : ∀ label ∈ M.states.flatMap (·.labels), f label = g label) :
    M.mapNames f = M.mapNames g := by
  have hstates : ∀ s ∈ M.states, s.labels.map f = s.labels.map g := by
    intro s hs
    exact List.map_congr_left fun label hlabel =>
      hlabels label (List.mem_flatMap.mpr ⟨s, hs, hlabel⟩)
  rw [mapNames, mapNames, List.map_congr_left htokens]
  congr 1
  exact List.map_congr_left fun s hs => by rw [hstates s hs]

/-- A rule set that was read without a start, and a word that it does not use. -/
structure RuleSet.Lacks (R : RuleSet) (name : String) : Prop where
  legal : R.Legal
  start_eq : R.start = none
  isWord : Line.IsWord name
  unused : name ∉ R.words

namespace RuleSet.Lacks

variable {R : RuleSet} {name : String} (h : R.Lacks name)
include h

theorem ne_of_mem_words {w : String} (hw : w ∈ R.words) : w ≠ name := by
  rintro rfl
  exact h.unused hw

theorem ne_of_reaches {label : String} (hreach : R.Reaches "" label) : label ≠ name := by
  by_cases hempty : label = ""
  · rw [hempty]
    exact h.isWord.ne_empty.symm
  · exact h.ne_of_mem_words (mem_words_of_reaches hreach hempty)

theorem ne_of_mem_labels {label : String} (hlabel : label ∈ (R.explore "").labels) :
    label ≠ name := by
  obtain ⟨s, hs, hreach⟩ := reaches_of_mem_labels hlabel
  rw [List.mem_singleton.mp hs] at hreach
  exact h.ne_of_reaches hreach

theorem mapNames_swap_eq_self : R.mapNames (Equiv.swap "" name) = R :=
  mapNames_eq_self h.start_eq fun _ hw =>
    Equiv.swap_apply_of_ne_of_ne (h.legal.ne_empty_of_mem_words hw) (h.ne_of_mem_words hw)

theorem mirrors : R.Mirrors (R.startingAt name) (Equiv.swap "" name) "" := by
  have hmirrors := R.mirrors_mapNames (Equiv.swap "" name).injective ""
  rw [h.mapNames_swap_eq_self] at hmirrors
  -- the start has no part in a scan
  exact ⟨hmirrors.injective, hmirrors.tokens_eq, hmirrors.verdict_eq, hmirrors.next_eq⟩

theorem explore_startingAt :
    (R.startingAt name).explore name = (R.explore "").mapNames (Equiv.swap "" name) := by
  have hexplore := h.mirrors.explore_eq
  rwa [Equiv.swap_apply_left] at hexplore

theorem stuck_startingAt :
    ((R.startingAt name).explore name).stuck =
      (R.explore "").stuck.map (·.mapNames (renamed "" name)) := by
  rw [h.explore_startingAt, Visit.mapNames]
  refine Option.map_congr fun u hu => ?_
  obtain ⟨⟨s, hs, hreach⟩, hrow⟩ := reaches_of_stuck hu
  obtain ⟨before, after, htokens, -⟩ := exists_of_row_eq_error hrow
  rw [List.mem_singleton.mp hs] at hreach
  have htoken : u.token ∈ R.words := token_mem_words (by simp [htokens])
  rw [Undecided.mapNames, Undecided.mapNames, swap_eq_renamed (h.ne_of_reaches hreach),
    swap_eq_renamed (h.ne_of_mem_words htoken)]

theorem machine_startingAt (hstuck : (R.explore "").stuck = none) :
    (R.startingAt name).machine name = (R.machine "").mapNames (renamed "" name) := by
  have htable := (R.explore "").table_mapNames (Equiv.swap "" name).injective ""
  rw [Equiv.swap_apply_left] at htable
  calc (R.startingAt name).machine name
      = (R.machine "").mapNames (Equiv.swap "" name) := by
        rw [machine, h.explore_startingAt, h.mirrors.tokens_eq, htable, machine]
        exact RawTable.merge_mapNames _ _ _
          fun handle => (closed_explore hstuck).lt_length_of_mem_order
    _ = (R.machine "").mapNames (renamed "" name) := by
        refine Machine.mapNames_congr (fun token htoken => ?_) fun label hlabel => ?_
        · exact swap_eq_renamed (h.ne_of_mem_words (token_mem_words htoken))
        · rw [(flatMap_labels_machine_perm hstuck).mem_iff] at hlabel
          exact swap_eq_renamed (h.ne_of_mem_labels hlabel)

theorem findings_startingAt :
    (R.startingAt name).findings ((R.startingAt name).explore name) =
      (R.findings (R.explore "")).map (·.mapNames (renamed "" name)) := by
  have hfindings := R.findings_mapNames (Equiv.swap "" name).injective (R.explore "")
  rw [h.mapNames_swap_eq_self, ← h.explore_startingAt] at hfindings
  refine hfindings.trans (List.map_congr_left fun finding hfinding => ?_)
  obtain ⟨line, group, rhs, state, token, rfl, hrhs, hstate, htoken⟩ :=
    names_of_mem_findings hfinding
  simp only [Finding.mapNames, swap_eq_renamed (h.ne_of_mem_words hrhs),
    swap_eq_renamed (h.ne_of_mem_labels hstate),
    swap_eq_renamed (h.ne_of_mem_words (token_mem_words htoken))]

end RuleSet.Lacks

/-! ### One more line -/

/-- The text with one more line at its end. A last line that is still open is closed
first. -/
def withLine (source line : String) : String :=
  if Text.Closed source.toList then source ++ line else source ++ "\n" ++ line

namespace Draft

/-- The pieces of one more line come behind those of the text. -/
theorem exists_ofText_withLine (source : String) :
    ∃ front, ofText source = ({} : Draft).addLines 1 front ∧
      ∀ line, ofText (withLine source line) =
        ({} : Draft).addLines 1 (front ++ line.toList.splitOn '\n') := by
  by_cases hclosed : Text.Closed source.toList
  · simp only [ofText_eq_pieces, withLine, hclosed, if_true, String.toList_append]
    rcases hclosed.eq_nil_or_exists with hnil | ⟨front, hfront⟩
    · refine ⟨[], ?_, fun line => ?_⟩
      · rw [hnil]
        exact addLines_concat_nil {} 1 []
      · rw [hnil, List.nil_append, List.nil_append]
    · refine ⟨front.splitOn '\n', ?_, fun line => ?_⟩
      · rw [hfront, List.splitOn_append_cons_self]
        exact addLines_concat_nil {} 1 _
      · rw [hfront, List.append_assoc, List.singleton_append, List.splitOn_append_cons_self]
  · refine ⟨source.toList.splitOn '\n', ofText_eq_pieces source, fun line => ?_⟩
    have htext : (withLine source line).toList = source.toList ++ '\n' :: line.toList := by
      simp [withLine, hclosed]
    rw [ofText_eq_pieces, htext, List.splitOn_append_cons_self]

/-- A start line, closed or not, declares the start. -/
theorem addLines_start {name : String} (hname : Line.IsLastName name) {ending : String}
    (hending : ending = "" ∨ ending = "\n") (d : Draft) (n : Nat) :
    d.addLines n ((arrow ++ " " ++ name ++ ending).toList.splitOn '\n') =
      (d.add n (.start name), none) := by
  have hline : '\n' ∉ (arrow ++ " " ++ name).toList := by
    have hword : '\n' ∉ name.toList := hname.toIsWord.not_mem_of_isBlank rfl
    simpa [arrow] using hword
  have hread : d.addLines n [(arrow ++ " " ++ name).toList] = (d.add n (.start name), none) := by
    simp only [addLines, Line.read_start hname]
  rw [String.toList_append]
  rcases hending with rfl | rfl
  · rw [String.toList_empty, List.append_nil, List.splitOn_eq_singleton hline, hread]
  · have hnewline : "\n".toList = '\n' :: [] := rfl
    rw [hnewline, List.splitOn_append_cons_self_of_not_mem hline, ← hread]
    exact addLines_concat_nil d n [_]

end Draft

theorem RuleSet.parse_withLine_start {source : String} {R : RuleSet}
    (h : RuleSet.parse source = .ok R) {name : String} (hname : Line.IsLastName name)
    {ending : String} (hending : ending = "" ∨ ending = "\n") :
    RuleSet.parse (withLine source (arrow ++ " " ++ name ++ ending)) =
      .ok (R.startingAt name) := by
  obtain ⟨front, hfront, hline⟩ := Draft.exists_ofText_withLine source
  rw [RuleSet.parse, hfront] at h
  rw [RuleSet.parse, hline, Draft.addLines_append]
  rcases hd : ({} : Draft).addLines 1 front with ⟨d, _ | e⟩
  · rw [hd] at h
    cases h
    simp only [Draft.addLines_start hname hending]
    rfl
  · rw [hd] at h
    cases h

/-! ### Compiling -/

/-- An error under new names. What could not be read stays. -/
def CompileError.mapNames (f : String → String) : CompileError → CompileError
  | parse e => parse e
  | noTokens => noTokens
  | undecided u => undecided (u.mapNames f)
  | denied finding => denied (finding.mapNames f)

/-- The compilation with a name in the place of the empty label, and without a missing
start. -/
def Compilation.startingAt (c : Compilation) (name : String) : Compilation where
  rules := c.rules.startingAt name
  machine := c.machine.mapNames (renamed "" name)
  rawStates := c.rawStates
  findings := (c.findings.filter (· ≠ .missingStart)).map (·.mapNames (renamed "" name))

theorem RuleSet.startLabel_of_start_eq {R : RuleSet} (h : R.start = none) : R.startLabel = "" := by
  rw [startLabel, h]
  rfl

theorem RuleSet.startFindings_of_start_eq {R : RuleSet} (h : R.start = none) :
    R.startFindings = [.missingStart] := by
  rw [startFindings, h]
  rfl

theorem RuleSet.Lacks.compilation_startingAt {R : RuleSet} {name : String} (h : R.Lacks name)
    (hstuck : (R.explore "").stuck = none) :
    (R.startingAt name).compilation ((R.startingAt name).startFindings ++
        (R.startingAt name).findings ((R.startingAt name).explore name)) =
      (R.compilation (.missingStart :: R.findings (R.explore ""))).startingAt name := by
  have hempty := startLabel_of_start_eq h.start_eq
  have hlabel : (R.startingAt name).startLabel = name := rfl
  have hrows : ((R.startingAt name).explore name).rows.length = (R.explore "").rows.length := by
    rw [h.explore_startingAt, Visit.mapNames, List.length_map]
  have hkept : (Finding.missingStart :: R.findings (R.explore "")).filter (· ≠ .missingStart) =
      R.findings (R.explore "") := by
    rw [List.filter_cons_of_neg (by simp), List.filter_eq_self]
    intro finding hfinding
    simpa using ne_of_mem_of_not_mem hfinding (missingStart_not_mem_findings _)
  simp only [compilation, Compilation.startingAt, hlabel, hempty, hrows, hkept,
    h.machine_startingAt hstuck, h.findings_startingAt]
  rfl

/-- Rules that start at a word they do not use compile to what they compile to without a
start, with the word in the place of the empty label. -/
theorem RuleSet.Lacks.compile_eq {R : RuleSet} {name : String} (h : R.Lacks name)
    {source source' : String} (hR : RuleSet.parse source = .ok R)
    (hR' : RuleSet.parse source' = .ok (R.startingAt name)) :
    compile source' {} =
      ((compile source {}).map (·.startingAt name)).mapError (·.mapNames (renamed "" name)) := by
  have hempty := startLabel_of_start_eq h.start_eq
  have hlabel : (R.startingAt name).startLabel = name := rfl
  have htokens : (R.startingAt name).tokens = R.tokens := rfl
  have hfindings := startFindings_of_start_eq h.start_eq
  rw [compile_default source, compile_default source', hR, hR']
  simp only [hempty, hlabel, htokens, hfindings, h.stuck_startingAt]
  split
  · rfl
  · cases hstuck : (R.explore "").stuck with
    | some u => rfl
    | none => exact congrArg Except.ok (h.compilation_startingAt hstuck)

/-- A missing start is found once. -/
theorem count_missingStart_of_compile {source : String} {R : RuleSet} {c : Compilation}
    (hR : RuleSet.parse source = .ok R) (hstart : R.start = none)
    (hc : compile source {} = .ok c) : c.findings.count .missingStart = 1 := by
  obtain ⟨Q, early, late, hparse, -, hearly, -, hlate, rfl⟩ := compile_eq_ok_iff.mp hc
  obtain rfl := Except.ok.inj (hR.symm.trans hparse)
  rw [Options.judge_default] at hearly hlate
  cases hearly
  cases hlate
  rw [RuleSet.compilation, RuleSet.startFindings_of_start_eq hstart, List.singleton_append, List.count_cons_self,
    List.count_eq_zero_of_not_mem (RuleSet.missingStart_not_mem_findings _)]

/-- A missing start is as good as a start of its own. If a text without a start line gets
one at its end, with a name that none of its tokens and rules uses, then it compiles to
the same machine with the same findings, or fails in the same way, but with this name in
the place of the empty label and without the finding of a missing start. In the table
that is built from the empty label no cell leads back to it. -/
theorem compile_unused_start {source : String} {R : RuleSet}
    (hR : RuleSet.parse source = .ok R) (hstart : R.start = none) :
    (∀ name ending, Line.IsLastName name → name ∉ R.words → ending = "" ∨ ending = "\n" →
      compile (withLine source (arrow ++ " " ++ name ++ ending)) {} =
        ((compile source {}).map (·.startingAt name)).mapError (·.mapNames (renamed "" name))) ∧
    (∀ c, compile source {} = .ok c → c.findings.count .missingStart = 1) ∧
    ∀ t, R.build "" = .ok t → t.find? "" = some t.start ∧
      ∀ state ∈ t.states, ∀ c ∈ state.row, c.next ≠ t.start := by
  have hlegal := RuleSet.legal_of_parse hR
  refine ⟨fun name ending hname hunused hending => ?_,
    fun c => count_missingStart_of_compile hR hstart, fun t ht => ?_⟩
  · have hlacks : R.Lacks name := ⟨hlegal, hstart, hname.toIsWord, hunused⟩
    exact hlacks.compile_eq hR (RuleSet.parse_withLine_start hR hname hending)
  · exact ⟨RuleSet.find?_start_of_build ht,
      fun state hstate c hc => hlegal.next_ne_start ht hstate hc⟩

/-- A text without a start, whose last line is open and in which a renaming leads to a
right side that is no token. -/
def unstartedText : String :=
  "A\nB\nB -> GHOST\nx GHOST\n-"

def unstartedRules : RuleSet where
  tokens := ["A", "B"]
  rules :=
    [⟨.rename "B" "GHOST", none, 3⟩, ⟨.decision .any .join (.name "GHOST"), none, 4⟩,
      ⟨.decision .any .split .any, none, 5⟩]
  start := none

theorem parse_unstartedText : RuleSet.parse unstartedText = .ok unstartedRules := by
  have hdraft : Draft.ofText unstartedText =
      ({ tokens := #["A", "B"], rules := unstartedRules.rules.toArray }, none) := by
    decide +kernel
  rw [RuleSet.parse, hdraft]
  simp [Draft.ruleSet, distinct_cons, unstartedRules]

theorem compile_unstartedText :
    compile unstartedText {} =
      .ok (unstartedRules.compilation
        [.missingStart, .undeclaredRight 4 none "GHOST" "" "B"]) := by
  have hdecides : ∀ label token, unstartedRules.Decides label token := by
    intro label token
    have hlast : unstartedRules.decisionAt? label token 2 = some (.split, .any) := rfl
    exact RuleSet.decides_of_decisionAt? hlast
  have hstuck : (unstartedRules.explore "").stuck = none :=
    RuleSet.explore_stuck_eq_none_iff.mpr fun label _ token _ => hdecides label token
  have hlabels : (unstartedRules.explore "").labels = ["", "B", "A"] := by
    rw [RuleSet.labels_explore_eq_preorder hstuck]
    cbv
  have hhits : unstartedRules.undeclaredHits (unstartedRules.explore "") =
      [(1, "", "B"), (1, "B", "B"), (1, "A", "B")] := by
    rw [RuleSet.undeclaredHits_eq_product, hlabels]
    simp only [Reading.undeclared, RuleSet.strays, Std.HashSet.contains_ofList]
    cbv
  have hfindings : unstartedRules.findings (unstartedRules.explore "") =
      [.undeclaredRight 4 none "GHOST" "" "B"] := by
    rw [RuleSet.findings_eq]
    simp only [RuleSet.findingAt, hhits]
    cbv
  have hempty : unstartedRules.startLabel = "" := rfl
  rw [compile_default_of_decides parse_unstartedText (by simp [unstartedRules])
    fun label _ token _ => hdecides label token, hempty, hfindings]
  rfl

theorem isLastName_S : Line.IsLastName "S" :=
  ⟨⟨⟨by decide, by simp [Text.isBlank], by decide⟩, by decide⟩, by decide⟩

theorem compile_unused_start_unstartedText :
    "S" ∉ unstartedRules.words ∧
      withLine unstartedText (arrow ++ " " ++ "S" ++ "\n") =
        "A\nB\nB -> GHOST\nx GHOST\n-\n-> S\n" ∧
      (∃ c, compile "A\nB\nB -> GHOST\nx GHOST\n-\n-> S\n" {} = .ok c ∧
        c.rules = { unstartedRules with start := some "S" } ∧
        c.machine = (unstartedRules.machine "").mapNames (renamed "" "S") ∧
        c.findings = [.undeclaredRight 4 none "GHOST" "S" "B"]) ∧
      ∃ t, unstartedRules.build "" = .ok t ∧
        ∀ state ∈ t.states, ∀ c ∈ state.row, c.next ≠ t.start := by
  have hunused : "S" ∉ unstartedRules.words := by decide
  have htext : withLine unstartedText (arrow ++ " " ++ "S" ++ "\n") =
      "A\nB\nB -> GHOST\nx GHOST\n-\n-> S\n" := by decide +kernel
  obtain ⟨hstarted, -, hbuilt⟩ := compile_unused_start parse_unstartedText rfl
  have hcompile := hstarted "S" "\n" isLastName_S hunused (.inr rfl)
  rw [htext, compile_unstartedText] at hcompile
  obtain ⟨-, -, hstuck, -⟩ := compile_spec compile_unstartedText
  have hbuild := RuleSet.build_eq_ok hstuck
  exact ⟨hunused, htext, ⟨_, hcompile, rfl, rfl, rfl⟩, _, hbuild, (hbuilt _ hbuild).2⟩

end BreakRules
