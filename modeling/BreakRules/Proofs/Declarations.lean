import BreakRules.Proofs.Print

/-!
# What the lines of a rule text declare

A draft grows line by line. What it holds can also be read off the lines as a
whole (`Draft.Holds`): the tokens are those of the token lines, the start is that of
the last start line, and a rule has the group of the last label in front of it and
the number of its own line. One more line keeps to this, whatever it says
(`Draft.Holds.add`), so it is so for all lines (`Draft.holds_addAll`).

`RuleSet.ofLines` is the rule set that lines declare, and a text is read to exactly
that: `RuleSet.parse_eq_ok_iff`. Its rules stand in the order of their lines, and the
tokens are the words that stand alone on a line.
-/

namespace BreakRules

namespace Line

def group? : Line → Option String
  | label group => some group
  | _ => none

def start? : Line → Option String
  | start name => some name
  | _ => none

def token? : Line → Option String
  | token name => some name
  | _ => none

def clause? : Line → Option Clause
  | rule clause => some clause
  | _ => none

end Line

/-- The group of a rule behind lines: the one that was opened last. -/
def groupBehind (lines : List Line) : Option String :=
  (lines.filterMap Line.group?).getLast?

/-- The rules that lines declare, each with the group that is open in front of it and
with the number of its line. -/
def rulesOf (lines : List Line) : List Rule :=
  lines.zipIdx.filterMap fun (line, i) =>
    line.clause?.map fun clause => ⟨clause, groupBehind (lines.take i), i + 1⟩

/-- The rule set that lines declare. A token counts where it is first declared, and a
start replaces those before it. -/
def RuleSet.ofLines (lines : List Line) : RuleSet where
  tokens := (lines.filterMap Line.token?).eraseDups
  rules := rulesOf lines
  start := (lines.filterMap Line.start?).getLast?

/-! ### One line after the other -/

theorem rulesOf_concat (lines : List Line) (line : Line) :
    rulesOf (lines ++ [line]) =
      rulesOf lines ++
        (line.clause?.map fun clause => ⟨clause, groupBehind lines, lines.length + 1⟩).toList := by
  rw [rulesOf, List.zipIdx_append, List.filterMap_append]
  congr 1
  · refine List.filterMap_congr fun e he => ?_
    have hle : e.2 ≤ lines.length := (List.snd_lt_of_mem_zipIdx he).le
    simp only [List.take_append_of_le_length hle]
  · cases hclause : line.clause? with
    | none => simp [hclause]
    | some clause => simp [hclause]

namespace Draft

/-- A draft holds what lines declare. -/
structure Holds (d : Draft) (lines : List Line) : Prop where
  group_eq : d.group = groupBehind lines
  tokens_eq : d.tokens.toList = lines.filterMap Line.token?
  rules_eq : d.rules.toList = rulesOf lines
  start_eq : d.start = (lines.filterMap Line.start?).getLast?

theorem holds_nil : ({} : Draft).Holds [] :=
  ⟨rfl, rfl, rfl, rfl⟩

/-- A line adds to a draft what it declares. -/
theorem Holds.add {d : Draft} {lines : List Line} (h : d.Holds lines) (line : Line) :
    (d.add (lines.length + 1) line).Holds (lines ++ [line]) := by
  obtain ⟨hgroup, htokens, hrules, hstart⟩ := h
  constructor
  case group_eq =>
    cases line <;> simp [Draft.add, groupBehind, Line.group?, hgroup]
  case tokens_eq =>
    cases line <;> simp [Draft.add, Line.token?, htokens]
  case rules_eq =>
    rw [rulesOf_concat, ← hrules, ← hgroup]
    cases line <;> simp [Draft.add, Line.clause?]
  case start_eq =>
    cases line <;> simp [Draft.add, Line.start?, hstart]

theorem holds_addAll (lines : List Line) : (({} : Draft).addAll 1 lines).Holds lines := by
  induction lines using List.reverseRecOn with
  | nil => exact holds_nil
  | append_singleton lines line ih =>
      rw [addAll_append, Nat.add_comm]
      exact ih.add line

theorem Holds.ruleSet_eq {d : Draft} {lines : List Line} (h : d.Holds lines) :
    d.ruleSet = RuleSet.ofLines lines := by
  rw [ruleSet, RuleSet.ofLines, h.tokens_eq, h.rules_eq, h.start_eq, distinct_eq_eraseDups]

/-- A text whose draft is complete has been read line by line. -/
theorem exists_read_of_addLines {d d' : Draft} {n : Nat} {texts : List (List Char)}
    (h : d.addLines n texts = (d', none)) :
    ∃ lines, List.Forall₂ (fun text line => Line.read text = .ok line) texts lines := by
  induction texts generalizing d n with
  | nil => exact ⟨[], .nil⟩
  | cons text texts ih =>
      unfold addLines at h
      cases hread : Line.read text with
      | error fault =>
          rw [hread] at h
          cases h
      | ok line =>
          rw [hread] at h
          obtain ⟨lines, hlines⟩ := ih h
          exact ⟨line :: lines, .cons hread hlines⟩

end Draft

/-- A text is read to what its lines declare, if all of them can be read. -/
theorem RuleSet.parse_eq_ok_iff {source : String} {R : RuleSet} :
    RuleSet.parse source = .ok R ↔
      ∃ lines, List.Forall₂ (fun text line => Line.read text = .ok line)
        (Text.lines source.toList) lines ∧ R = RuleSet.ofLines lines := by
  have hparse : ∀ {lines}, List.Forall₂ (fun text line => Line.read text = .ok line)
      (Text.lines source.toList) lines → RuleSet.parse source = .ok (RuleSet.ofLines lines) := by
    intro lines hlines
    rw [RuleSet.parse, Draft.ofText, Draft.addLines_of_read hlines,
      ← (Draft.holds_addAll lines).ruleSet_eq]
  constructor
  · intro h
    cases hdraft : Draft.ofText source with
    | mk draft error =>
        cases error with
        | some e =>
            rw [RuleSet.parse, hdraft] at h
            cases h
        | none =>
            obtain ⟨lines, hlines⟩ := Draft.exists_read_of_addLines hdraft
            exact ⟨lines, hlines, Except.ok.inj (h.symm.trans (hparse hlines))⟩
  · rintro ⟨lines, hlines, rfl⟩
    exact hparse hlines

/-! ### The lines of the rules -/

theorem map_line_rulesOf_sublist (lines : List Line) :
    ((rulesOf lines).map (·.line)).Sublist (List.range' 1 lines.length) := by
  induction lines using List.reverseRecOn with
  | nil => exact .slnil
  | append_singleton lines line ih =>
      rw [rulesOf_concat, List.map_append, List.length_append, List.length_singleton,
        List.range'_1_concat]
      refine ih.append ?_
      cases line.clause? with
      | none => exact List.nil_sublist _
      | some clause => simp [Nat.add_comm]

namespace RuleSet

variable {source : String} {R : RuleSet}

theorem map_line_sublist_of_parse (h : RuleSet.parse source = .ok R) :
    (R.rules.map (·.line)).Sublist (List.range' 1 (Text.lines source.toList).length) := by
  obtain ⟨lines, hlines, rfl⟩ := parse_eq_ok_iff.mp h
  rw [hlines.length_eq]
  exact map_line_rulesOf_sublist lines

/-- The rules of a text stand in the order of their lines. -/
theorem pairwise_line_of_parse (h : RuleSet.parse source = .ok R) :
    R.rules.Pairwise (·.line < ·.line) :=
  List.pairwise_map.mp
    (List.Pairwise.sublist (map_line_sublist_of_parse h) List.pairwise_lt_range')

theorem line_mem_of_parse (h : RuleSet.parse source = .ok R) {rule : Rule} (hrule : rule ∈ R.rules) :
    1 ≤ rule.line ∧ rule.line ≤ (Text.lines source.toList).length := by
  have hmem := (map_line_sublist_of_parse h).subset (List.mem_map_of_mem hrule)
  rw [List.mem_range'_1] at hmem
  omega

end RuleSet

/-! ### The tokens -/

/-- The word that stands alone on a line, if it is no verdict and no label. -/
def soleName? : List String → Option String
  | [word] =>
      if (Verdict.ofSymbol? word).isSome || Line.endsWithColon word then none else some word
  | _ => none

theorem soleName?_of_endsWithColon {words : List String}
    (h : words.getLast?.any Line.endsWithColon = true) : soleName? words = none := by
  unfold soleName?
  split
  · next word =>
      have hword : Line.endsWithColon word = true := by simpa using h
      rw [hword, Bool.or_true, if_pos rfl]
  · rfl

theorem Line.Shape.token?_eq {words : List String} {line : Line} (h : Shape words line)
    (hcolon : words.getLast?.any endsWithColon = false) : line.token? = soleName? words := by
  cases h with
  | empty => rfl
  | start hname => rfl
  | @token name hname =>
      have hlast : endsWithColon name = false := by simpa using hcolon
      simp [token?, soleName?, hname.ofSymbol?_eq_none, hlast]
  | rename hsource htarget => rfl
  | transition hlhs htoken hnext => rfl
  | @decision lhs rhs verdict hlhs hrhs =>
      cases lhs <;> cases rhs <;> simp [token?, soleName?]

theorem Line.token?_of_read {text : List Char} {line : Line} (h : read text = .ok line) :
    line.token? = soleName? (wordsOf text) := by
  cases hcolon : (wordsOf text).getLast?.any endsWithColon with
  | false => exact ((ofWords_eq_ok_iff hcolon).mp h).token?_eq hcolon
  | true =>
      rw [read, ofWords_of_endsWithColon hcolon] at h
      obtain ⟨-, rfl⟩ := readLabel_eq_ok_iff.mp h
      rw [soleName?_of_endsWithColon hcolon]
      rfl

theorem filterMap_eq_of_forall₂ {α β γ : Type} {f : α → Option γ} {g : β → Option γ} {l : List α}
    {l' : List β} (h : List.Forall₂ (fun a b => f a = g b) l l') :
    l.filterMap f = l'.filterMap g := by
  induction h with
  | nil => rfl
  | cons hab _ ih => rw [List.filterMap_cons, List.filterMap_cons, hab, ih]

/-- The tokens are the words that stand alone on a line, each at its first place. -/
theorem RuleSet.tokens_of_parse {source : String} {R : RuleSet}
    (h : RuleSet.parse source = .ok R) :
    R.tokens =
      ((Text.lines source.toList).filterMap fun text => soleName? (Line.wordsOf text)).eraseDups := by
  obtain ⟨lines, hlines, rfl⟩ := parse_eq_ok_iff.mp h
  have htokens : (Text.lines source.toList).filterMap (fun text => soleName? (Line.wordsOf text)) =
      lines.filterMap Line.token? :=
    filterMap_eq_of_forall₂ (hlines.imp fun _ _ hread => (Line.token?_of_read hread).symm)
  rw [htokens]
  rfl

/-! ### What a text that was read guarantees -/

/-- The names of a text that was read are words and no symbols of the language, and those
at the end of a line do not look like labels. The tokens are the words that stand alone
on a line, in the order of their first declarations. The rules are in the order of their
lines, which are lines of the text. -/
theorem RuleSet.parse_names_in_place {source : String} {R : RuleSet}
    (h : RuleSet.parse source = .ok R) :
    R.Legal ∧
    (∀ name, Line.IsName name → name ∉ ["-", "x", "->", ":", "."]) ∧
    R.tokens =
      ((Text.lines source.toList).filterMap fun text => soleName? (Line.wordsOf text)).eraseDups ∧
    (∀ name, R.declares name = true ↔ name ∈ R.tokens) ∧
    R.rules.Pairwise (·.line < ·.line) ∧
    ∀ rule ∈ R.rules, 1 ≤ rule.line ∧ rule.line ≤ (Text.lines source.toList).length := by
  refine ⟨legal_of_parse h, fun name hname => Line.allowed_iff.mp hname.allowed,
    tokens_of_parse h, fun name => ?_, pairwise_line_of_parse h, fun rule => line_mem_of_parse h⟩
  rw [declares, List.contains_iff_mem]

/-- A text with a line of every kind, in which a renaming leads to right sides that are
no tokens. -/
def strayText : String :=
  "A\nB -- a token\nA\n-> S\nS A -> A\nB -> GHOST\nlate:\nA x GHOST\nearly :\n- GHOST\nx\n"

def strayRules : RuleSet where
  tokens := ["A", "B"]
  rules :=
    [⟨.transition (.name "S") (.name "A") "A", none, 5⟩, ⟨.rename "B" "GHOST", none, 6⟩,
      ⟨.decision (.name "A") .join (.name "GHOST"), some "late", 8⟩,
      ⟨.decision .any .split (.name "GHOST"), some "early", 10⟩,
      ⟨.decision .any .join .any, some "early", 11⟩]
  start := some "S"

theorem parse_strayText : RuleSet.parse strayText = .ok strayRules := by
  have hdraft : Draft.ofText strayText =
      ({ group := some "early", tokens := #["A", "B", "A"],
         rules := strayRules.rules.toArray, start := some "S" }, none) := by
    decide +kernel
  rw [RuleSet.parse, hdraft]
  simp [Draft.ruleSet, distinct_cons, strayRules]

theorem parse_names_in_place_strayText :
    RuleSet.parse strayText = .ok strayRules ∧ strayRules.Legal ∧
      (Text.lines strayText.toList).filterMap (fun text => soleName? (Line.wordsOf text)) =
        ["A", "B", "A"] ∧
      strayRules.rules.Pairwise (·.line < ·.line) := by
  obtain ⟨hlegal, -, -, -, hlines, -⟩ := RuleSet.parse_names_in_place parse_strayText
  exact ⟨parse_strayText, hlegal, by decide +kernel, hlines⟩

end BreakRules
