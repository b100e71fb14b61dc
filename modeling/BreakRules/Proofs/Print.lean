import BreakRules.Proofs.Compile
import BreakRules.Proofs.Names

/-!
# Printing a rule set

`RuleSet.print` writes a rule set as a rule text: the tokens, the start, the
clauses, each on a line of its own. What was read once can be printed and read
again, and only the groups and the lines of the rules change: `RuleSet.parse_print`.

Rule sets that differ in no more than groups and lines are `Alike`. The scan
sees clauses only, so their explorations are the same and so are their machines.
-/

namespace BreakRules

namespace Draft

/-- The draft with lines that have been read, numbered from `n`. -/
def addAll (d : Draft) (n : Nat) : List Line → Draft
  | [] => d
  | line :: rest => (d.add n line).addAll (n + 1) rest

theorem addLines_of_read {texts : List (List Char)} {lines : List Line}
    (h : List.Forall₂ (fun text line => Line.read text = .ok line) texts lines) (d : Draft)
    (n : Nat) : d.addLines n texts = (d.addAll n lines, none) := by
  induction h generalizing d n with
  | nil => rfl
  | cons hread _ ih =>
      simp only [addLines, addAll, hread]
      exact ih _ _

theorem addAll_append (d : Draft) (n : Nat) (lines lines' : List Line) :
    d.addAll n (lines ++ lines') = (d.addAll n lines).addAll (n + lines.length) lines' := by
  induction lines generalizing d n with
  | nil => rfl
  | cons line lines ih =>
      have hn : n + (lines.length + 1) = n + 1 + lines.length := by omega
      simp only [List.cons_append, addAll, List.length_cons, hn]
      exact ih _ _

theorem addAll_token (d : Draft) (n : Nat) (names : List String) :
    d.addAll n (names.map .token) = { d with tokens := d.tokens ++ names.toArray } := by
  induction names generalizing d n with
  | nil => simp [addAll]
  | cons name names ih =>
      simp only [List.map_cons, addAll, add]
      rw [ih]
      simp

theorem addAll_rule (d : Draft) (n : Nat) (clauses : List Clause) :
    d.addAll n (clauses.map .rule) =
      { d with
        rules := d.rules ++ ((clauses.zipIdx n).map fun (c, i) => ⟨c, d.group, i⟩).toArray } := by
  induction clauses generalizing d n with
  | nil => simp [addAll]
  | cons clause clauses ih =>
      simp only [List.map_cons, addAll, add]
      rw [ih]
      simp [List.zipIdx_cons]

end Draft

theorem distinct_of_nodup {α : Type} [BEq α] [Hashable α] [LawfulBEq α] {l : List α}
    (h : l.Nodup) : distinct l = l := by
  induction l with
  | nil => rfl
  | cons a l ih =>
      obtain ⟨ha, hl⟩ := List.nodup_cons.mp h
      rw [distinct_cons, ih hl, List.filter_eq_self.mpr]
      intro b hb
      rw [bne_iff_ne]
      rintro rfl
      exact ha hb

namespace RuleSet

/-! ### Printing -/

def printedLines (R : RuleSet) : List String :=
  R.tokens ++ R.start.toList.map (fun name => arrow ++ " " ++ name) ++
    R.rules.map (·.clause.text)

def print (R : RuleSet) : String :=
  "".intercalate (R.printedLines.map (· ++ "\n"))

/-- What the printed lines say. -/
def statements (R : RuleSet) : List Line :=
  R.tokens.map .token ++ R.start.toList.map .start ++ (R.rules.map (·.clause)).map .rule

/-- The rule set with the places that its rules have in print. -/
def reprinted (R : RuleSet) : RuleSet :=
  { R with
    rules :=
      ((R.rules.map (·.clause)).zipIdx (1 + R.tokens.length + R.start.toList.length)).map
        fun (c, i) => ⟨c, none, i⟩ }

section Print

variable {R : RuleSet} (hR : R.Legal)
include hR

theorem read_printedLines :
    List.Forall₂ (fun text line => Line.read text = .ok line)
      (R.printedLines.map String.toList) R.statements := by
  simp only [printedLines, statements, List.map_append, List.map_map]
  refine List.rel_append (List.rel_append ?_ ?_) ?_
  · rw [List.forall₂_map_left_iff, List.forall₂_map_right_iff, List.forall₂_same]
    exact fun name hname => Line.read_token (hR.token name hname)
  · rw [List.forall₂_map_left_iff, List.forall₂_map_right_iff, List.forall₂_same]
    exact fun name hname => Line.read_start (hR.start name (by simpa using hname))
  · rw [List.forall₂_map_left_iff, List.forall₂_map_right_iff, List.forall₂_same]
    exact fun rule hrule => Line.read_clause (hR.clause rule hrule)

/-- A printed line is made of words. -/
theorem exists_words_of_mem_printedLines {text : String} (h : text ∈ R.printedLines) :
    ∃ ws, text = " ".intercalate ws ∧ ∀ w ∈ ws, Line.IsWord w := by
  simp only [printedLines, List.mem_append, List.mem_map] at h
  rcases h with (hname | ⟨name, hname, rfl⟩) | ⟨rule, hrule, rfl⟩
  · exact ⟨[text], by simp, by simpa using (hR.token text hname).toIsWord⟩
  · refine ⟨[arrow, name], by simp [String.intercalate_cons_cons], ?_⟩
    simpa using ⟨Line.isWord_arrow, (hR.start name (by simpa using hname)).toIsWord⟩
  · exact ⟨_, rule.clause.text_eq_intercalate, (hR.clause rule hrule).isWord⟩

theorem lines_print : Text.lines R.print.toList = R.printedLines.map String.toList := by
  have hblank : ∀ c, Text.isBlank c = true → c ≠ ' ' →
      ∀ l ∈ R.printedLines.map String.toList, c ∉ l := by
    intro c hc hne l hl
    obtain ⟨text, htext, rfl⟩ := List.mem_map.mp hl
    obtain ⟨ws, rfl, hws⟩ := exists_words_of_mem_printedLines hR htext
    exact Text.not_mem_intercalate (fun w hw => (hws w hw).not_mem_of_isBlank hc) hne
  rw [print, Text.toList_intercalate_lines, Text.lines_unlines]
  · exact hblank '\n' rfl (by decide)
  · intro l hl hlast
    exact hblank '\r' rfl (by decide) l hl (List.mem_of_getLast? hlast)

theorem parse_print : RuleSet.parse R.print = .ok R.reprinted := by
  have hdraft : Draft.ofText R.print = (({} : Draft).addAll 1 R.statements, none) := by
    rw [Draft.ofText, lines_print hR]
    exact Draft.addLines_of_read (read_printedLines hR) _ _
  rw [RuleSet.parse, hdraft]
  simp only [statements, Draft.addAll_append, Draft.addAll_token, Draft.addAll_rule]
  cases hstart : R.start with
  | none => simp [Draft.addAll, Draft.ruleSet, reprinted, hstart, distinct_of_nodup hR.nodup_tokens]
  | some name =>
      simp [Draft.addAll, Draft.add, Draft.ruleSet, reprinted, hstart, Nat.add_assoc,
        distinct_of_nodup hR.nodup_tokens]

end Print

/-! ### Rule sets that differ in places only -/

/-- Rule sets with the same tokens, start and clauses. -/
structure Alike (R R' : RuleSet) : Prop where
  tokens_eq : R'.tokens = R.tokens
  start_eq : R'.start = R.start
  clauses_eq : R'.rules.map (·.clause) = R.rules.map (·.clause)

theorem alike_reprinted (R : RuleSet) : R.Alike R.reprinted :=
  ⟨rfl, rfl, by simp [reprinted, List.map_map, Function.comp_def]⟩

end RuleSet

theorem tokenClauses_congr {rules rules' : List Rule}
    (h : rules'.map (·.clause) = rules.map (·.clause)) (state : String) (i : Nat) :
    tokenClauses state i rules' = tokenClauses state i rules := by
  induction rules generalizing rules' state i with
  | nil => rw [List.map_eq_nil_iff.mp h]
  | cons rule rules ih =>
      obtain ⟨rule', rules', rfl, hrule, hrules⟩ := List.map_eq_cons_iff.mp h
      simp only [tokenClauses, hrule, ih hrules]

namespace RuleSet

/-- The exploration sees rules through the rows that it builds. -/
theorem visit_congr {R R' : RuleSet} (hrow : ∀ label, R'.row label = R.row label)
    (remaining : Std.HashSet String) (stack : List String) :
    R'.visit remaining stack = R.visit remaining stack := by
  fun_induction R.visit remaining stack with
  | case1 remaining => rw [visit]
  | case2 remaining label rest hmem token herror =>
      rw [visit, dif_pos hmem, hrow, herror]
  | case3 remaining label rest hmem cells hcells v ih =>
      rw [visit, dif_pos hmem, hrow, hcells]
      simp only [ih, v]
  | case4 remaining label rest hmem ih => rw [visit, dif_neg hmem, ih]

section Alike

variable {R R' : RuleSet} (h : R.Alike R')
include h

theorem Alike.row_eq (label : String) : R'.row label = R.row label := by
  simp only [row, facing, h.tokens_eq, tokenClauses_congr h.clauses_eq]

theorem Alike.labels_eq (start : String) : R'.labels start = R.labels start := by
  have htarget : ∀ rules : List Rule, rules.filterMap target? =
      (rules.map (·.clause)).filterMap fun clause => target? ⟨clause, none, 0⟩ := by
    intro rules
    rw [List.filterMap_map]
    rfl
  rw [labels, labels, htarget, htarget, h.clauses_eq, h.tokens_eq]

theorem Alike.startLabel_eq : R'.startLabel = R.startLabel := by
  rw [startLabel, startLabel, h.start_eq]

theorem Alike.explore_eq (start : String) : R'.explore start = R.explore start := by
  rw [explore, explore, h.labels_eq, visit_congr h.row_eq]

theorem Alike.machine_eq (start : String) : R'.machine start = R.machine start := by
  rw [machine, machine, h.explore_eq, h.tokens_eq]

end Alike

end RuleSet

/-- Under the default options nothing but reading, a missing alphabet and an
undecided cell can make a compilation fail. -/
theorem compile_default (source : String) :
    compile source {} =
      match RuleSet.parse source with
      | .error e => .error (.parse e)
      | .ok R =>
          if R.tokens = [] then .error .noTokens
          else
            match (R.explore R.startLabel).stuck with
            | some u => .error (.undecided u)
            | none =>
                .ok (R.compilation (R.startFindings ++ R.findings (R.explore R.startLabel))) := by
  rw [compile_eq]
  cases RuleSet.parse source with
  | error e => rfl
  | ok R =>
      by_cases htokens : R.tokens = []
      · simp [RuleSet.compileNoted_snd, htokens]
      · cases hstuck : (R.explore R.startLabel).stuck with
        | some u => simp [RuleSet.compileNoted_snd, htokens, hstuck]
        | none => simp [RuleSet.compileNoted_snd, htokens, hstuck]

/-- A rule set that was read is printed as a text that is read to the same
tokens, the same start and the same clauses, and that compiles to the same
machine or fails in the same way. -/
theorem parse_print_alike {source : String} {R : RuleSet} (h : RuleSet.parse source = .ok R) :
    (∃ R', RuleSet.parse R.print = .ok R' ∧ R'.tokens = R.tokens ∧ R'.start = R.start ∧
      R'.rules.map (·.clause) = R.rules.map (·.clause) ∧ (∀ rule ∈ R'.rules, rule.group = none) ∧
      R'.rules.map (·.line) =
        List.range' (1 + R.tokens.length + R.start.toList.length) R.rules.length) ∧
    (∀ c, compile source {} = .ok c →
      ∃ c', compile R.print {} = .ok c' ∧ c'.machine = c.machine ∧ c'.rawStates = c.rawStates) ∧
    (∀ e, compile source {} = .error e →
      compile R.print {} = .error e ∧ (e = .noTokens ∨ ∃ u, e = .undecided u)) := by
  have hprint := RuleSet.parse_print (RuleSet.legal_of_parse h)
  have halike := R.alike_reprinted
  rw [compile_default source, compile_default R.print, h, hprint]
  simp only [halike.startLabel_eq, halike.explore_eq, halike.tokens_eq]
  refine ⟨⟨R.reprinted, rfl, rfl, rfl, halike.clauses_eq, ?_, ?_⟩, ?_⟩
  · intro rule hrule
    obtain ⟨place, -, rfl⟩ := List.mem_map.mp hrule
    rfl
  · simp [RuleSet.reprinted, List.map_map, Function.comp_def, List.zipIdx_map_snd]
  · by_cases htokens : R.tokens = []
    · simp [htokens]
    · cases hstuck : (R.explore R.startLabel).stuck with
      | some u => simp [htokens]
      | none =>
          simp only [htokens, if_false]
          refine ⟨?_, by simp⟩
          intro c hc
          cases hc
          refine ⟨_, rfl, ?_, ?_⟩
          · simp only [RuleSet.compilation, halike.startLabel_eq, halike.machine_eq]
          · simp only [RuleSet.compilation, halike.startLabel_eq, halike.explore_eq]

theorem parse_print_alike_sampleText :
    sampleRules.print = "A\nB\n-> S0\nS0 - A\nS0 x B\n. x .\n" ∧
      (∃ R', RuleSet.parse sampleRules.print = .ok R' ∧ R'.start = some "S0" ∧
        R'.rules.map (·.line) = [4, 5, 6]) ∧
      ∃ c c', compile sampleText {} = .ok c ∧ compile sampleRules.print {} = .ok c' ∧
        c'.machine = c.machine := by
  obtain ⟨⟨R', hparse, -, hstart, -, -, hlines⟩, hok, -⟩ := parse_print_alike parse_sampleText
  obtain ⟨c, hc, -⟩ := compile_sampleText
  obtain ⟨c', hc', hmachine, -⟩ := hok c hc
  exact ⟨by decide +kernel, ⟨R', hparse, hstart, hlines⟩, c, c', hc, hc', hmachine⟩

end BreakRules
