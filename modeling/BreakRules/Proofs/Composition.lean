import BreakRules.Proofs.Faults

/-!
# Texts behind each other

A text behind a closed one is read as it is read alone, but for what the first text
leaves to it: its lines are counted on, its rules stand in the group that the first text
left open until they open one of their own, its tokens count where they are new, and its
start replaces the first one. `RuleSet.followedBy` puts two rule sets together in this
way. For lines that can be read this is `RuleSet.ofLines_append`; `RuleSet.parse_append`
adds how texts fail.
-/

namespace BreakRules

/-- The rule behind so many lines, the last of which leave a group open. -/
def Rule.behind (count : Nat) (group : Option String) (rule : Rule) : Rule :=
  { rule with group := rule.group.or group, line := count + rule.line }

/-- What two texts declare, the first of which has so many lines and leaves a group
open. -/
def RuleSet.followedBy (R : RuleSet) (count : Nat) (group : Option String) (R' : RuleSet) :
    RuleSet where
  tokens := R.tokens ++ R'.tokens.filter (· ∉ R.tokens)
  rules := R.rules ++ R'.rules.map (Rule.behind count group)
  start := R'.start.or R.start

/-- The group that is open at the end of a text: the one of its last label. -/
def groupAtEnd (source : String) : Option String :=
  ((Text.lines source.toList).filterMap fun text =>
    (Line.read text).toOption.bind Line.group?).getLast?

/-! ### Lines that can be read -/

theorem groupBehind_append (lines lines' : List Line) :
    groupBehind (lines ++ lines') = (groupBehind lines').or (groupBehind lines) := by
  rw [groupBehind, List.filterMap_append, List.getLast?_append]
  rfl

theorem rulesOf_append (lines lines' : List Line) :
    rulesOf (lines ++ lines') =
      rulesOf lines ++ (rulesOf lines').map (Rule.behind lines.length (groupBehind lines)) := by
  induction lines' using List.reverseRecOn with
  | nil => simp [rulesOf]
  | append_singleton lines' line ih =>
      rw [← List.append_assoc, rulesOf_concat, ih, rulesOf_concat lines' line, List.map_append,
        List.append_assoc]
      congr 2
      cases line.clause? with
      | none => rfl
      | some clause =>
          simp [Rule.behind, groupBehind_append, List.length_append, Nat.add_assoc]

/-- What stands behind other entries adds those that are new. -/
theorem eraseDups_append_eq (l l' : List String) :
    (l ++ l').eraseDups = l.eraseDups ++ l'.eraseDups.filter (· ∉ l.eraseDups) := by
  rw [← distinct_eq_eraseDups, distinct_append, distinct_eq_eraseDups, distinct_eq_eraseDups]
  congr 1
  refine List.filter_congr fun a _ => ?_
  simp [List.mem_eraseDups]

theorem RuleSet.ofLines_append (lines lines' : List Line) :
    RuleSet.ofLines (lines ++ lines') =
      (RuleSet.ofLines lines).followedBy lines.length (groupBehind lines)
        (RuleSet.ofLines lines') := by
  simp only [RuleSet.ofLines, RuleSet.followedBy, rulesOf_append, List.filterMap_append,
    eraseDups_append_eq, List.getLast?_append]
  rfl

theorem groupAtEnd_eq {source : String} {lines : List Line}
    (h : List.Forall₂ (fun text line => Line.read text = .ok line) (Text.lines source.toList)
      lines) : groupAtEnd source = groupBehind lines := by
  rw [groupAtEnd, groupBehind]
  refine congrArg List.getLast? (filterMap_eq_of_forall₂ (h.imp fun text line hread => ?_))
  rw [hread]
  rfl

/-! ### Lines that cannot be read -/

/-- Where lines fail depends on nothing in front of them but the number of the first. -/
theorem Draft.addLines_snd_add (d d' : Draft) (n count : Nat) (texts : List (List Char)) :
    (d'.addLines (count + n) texts).2 =
      (d.addLines n texts).2.map fun e => { e with line := count + e.line } := by
  induction texts generalizing d d' n with
  | nil => rfl
  | cons text texts ih =>
      unfold addLines
      cases Line.read text with
      | error fault => rfl
      | ok line => exact ih _ _ (n + 1)

namespace RuleSet

/-- A text behind a closed one is read as it is read alone. If one of the two cannot be
read then both together cannot, by an error of the first one as it is, or else by an
error of the second one further down. If both can be read, so can both together, to what
they declare behind each other. -/
theorem parse_append {a b : String} (ha : Text.Closed a.toList) :
    (∀ e, RuleSet.parse a = .error e → RuleSet.parse (a ++ b) = .error e) ∧
    (∀ R e, RuleSet.parse a = .ok R → RuleSet.parse b = .error e →
      RuleSet.parse (a ++ b) =
        .error { e with line := (Text.lines a.toList).length + e.line }) ∧
    ∀ R R', RuleSet.parse a = .ok R → RuleSet.parse b = .ok R' →
      RuleSet.parse (a ++ b) =
        .ok (R.followedBy (Text.lines a.toList).length (groupAtEnd a) R') := by
  have hlines : Text.lines (a ++ b).toList = Text.lines a.toList ++ Text.lines b.toList := by
    rw [String.toList_append, ha.lines_append]
  refine ⟨?first, ?second, ?both⟩
  case first =>
    intro e h
    rw [parse_eq_error_iff, Draft.ofText] at h ⊢
    rw [hlines, Draft.addLines_append]
    rcases hd : ({} : Draft).addLines 1 (Text.lines a.toList) with ⟨d, _ | e'⟩
    · rw [hd] at h
      cases h
    · rwa [hd] at h
  case second =>
    intro R e h h'
    have hnone := exists_parse_eq_ok_iff.mp ⟨R, h⟩
    rw [parse_eq_error_iff, Draft.ofText] at h' ⊢
    rw [hlines, Draft.addLines_append]
    rw [Draft.ofText] at hnone
    rcases hd : ({} : Draft).addLines 1 (Text.lines a.toList) with ⟨d, _ | e'⟩
    · simp only
      rw [Nat.add_comm 1, Draft.addLines_snd_add {} d, h']
      rfl
    · rw [hd] at hnone
      cases hnone
  case both =>
    intro R R' h h'
    obtain ⟨la, hla, rfl⟩ := parse_eq_ok_iff.mp h
    obtain ⟨lb, hlb, rfl⟩ := parse_eq_ok_iff.mp h'
    refine parse_eq_ok_iff.mpr ⟨la ++ lb, ?_, ?_⟩
    · rw [hlines]
      exact List.rel_append hla hlb
    · rw [ofLines_append, groupAtEnd_eq hla, hla.length_eq]

end RuleSet

/-- A text that leaves a group open. -/
def openText : String :=
  "A\nx\nlate:\n"

/-- A text that declares a token again and opens a group behind its first rule. -/
def nextText : String :=
  "B\nA\nA - B\nlast:\nB -\n-> B\n"

theorem parse_openText :
    RuleSet.parse openText = .ok ⟨["A"], [⟨.decision .any .join .any, none, 2⟩], none⟩ := by
  have hdraft : Draft.ofText openText =
      ({ group := some "late", tokens := #["A"],
         rules := #[⟨.decision .any .join .any, none, 2⟩] }, none) := by
    decide +kernel
  rw [RuleSet.parse, hdraft]
  simp [Draft.ruleSet, distinct_cons]

theorem parse_nextText :
    RuleSet.parse nextText =
      .ok ⟨["B", "A"], [⟨.decision (.name "A") .split (.name "B"), none, 3⟩,
        ⟨.decision (.name "B") .split .any, some "last", 5⟩], some "B"⟩ := by
  have hdraft : Draft.ofText nextText =
      ({ group := some "last", tokens := #["B", "A"],
         rules := #[⟨.decision (.name "A") .split (.name "B"), none, 3⟩,
           ⟨.decision (.name "B") .split .any, some "last", 5⟩],
         start := some "B" }, none) := by
    decide +kernel
  rw [RuleSet.parse, hdraft]
  simp [Draft.ruleSet, distinct_cons]

theorem parse_append_openText :
    Text.Closed openText.toList ∧
      RuleSet.parse (openText ++ nextText) =
        .ok ⟨["A", "B"], [⟨.decision .any .join .any, none, 2⟩,
          ⟨.decision (.name "A") .split (.name "B"), some "late", 6⟩,
          ⟨.decision (.name "B") .split .any, some "last", 8⟩], some "B"⟩ ∧
      RuleSet.parse (openText ++ badText) =
        .error ⟨7, " A  B -- no verdict", .invalidAction "B"⟩ := by
  have hclosed : Text.Closed openText.toList := by decide +kernel
  have hcount : (Text.lines openText.toList).length = 3 := by decide +kernel
  have hgroup : groupAtEnd openText = some "late" := by decide +kernel
  obtain ⟨-, hsecond, -⟩ := @RuleSet.parse_append openText badText hclosed
  obtain ⟨-, -, hboth⟩ := @RuleSet.parse_append openText nextText hclosed
  refine ⟨hclosed, ?_, ?_⟩
  · rw [hboth _ _ parse_openText parse_nextText, hcount, hgroup]
    rfl
  · rw [hsecond _ _ parse_openText parse_badText, hcount]
    rfl

end BreakRules
