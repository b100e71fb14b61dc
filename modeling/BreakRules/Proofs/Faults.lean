import BreakRules.Proofs.Pieces

/-!
# The line that a text fails at

A text that cannot be read fails at its first bad line, and what is said about that line
is said by the line alone. The lines in front of it can be read, and neither they nor
what follows has a part in the error: `RuleSet.parse_fails_at_first_bad_line`.

`Line.Faulty` says for each fault what is true of the words of a line that has it. A
fault that names a word names one of the line, and the word in the place of a verdict is
the second one: a line of one word is a token before anybody asks for its verdict.
-/

namespace BreakRules

theorem map_eq_error_iff {ε α β : Type} {x : Except ε α} {f : α → β} {e : ε} :
    f <$> x = .error e ↔ x = .error e := by
  cases x <;> simp [Functor.map, Except.map]

theorem bind_eq_error_iff {ε α β : Type} {x : Except ε α} {f : α → Except ε β} {e : ε} :
    x >>= f = .error e ↔ x = .error e ∨ ∃ a, x = .ok a ∧ f a = .error e := by
  cases x <;> simp [bind, Except.bind]

namespace Line

/-! ### What faults say of the words -/

/-- What is true of the words of a line with a fault. -/
inductive Faulty (words : List String) : LineFault → Prop where
  | malformedArrow : arrow ∈ words → Faulty words .malformedArrow
  | invalidAction {word : String} : words[1]? = some word → Verdict.ofSymbol? word = none →
      Faulty words (.invalidAction word)
  | tooManyWords : 2 < words.length → Faulty words .tooManyWords
  | reservedSymbol {word : String} : word ∈ words → word ∈ reserved →
      Faulty words (.reservedSymbol word)
  | misplacedWildcard : wildcard ∈ words → Faulty words .misplacedWildcard
  | emptyLabel : words.getLast?.any endsWithColon = true → labelName words = "" →
      Faulty words .emptyLabel

section Faulty

variable {words : List String} {word : String} {fault : LineFault}

theorem faulty_of_readName (h : readName word = .error fault) (hword : word ∈ words) :
    Faulty words fault := by
  unfold readName at h
  split at h
  · next hreserved =>
      cases h
      exact .reservedSymbol hword hreserved
  · split at h
    · next hwildcard =>
        cases h
        exact .misplacedWildcard (hwildcard ▸ hword)
    · cases h

theorem faulty_of_readSide (h : readSide word = .error fault) (hword : word ∈ words) :
    Faulty words fault := by
  unfold readSide at h
  split at h
  · cases h
  · exact faulty_of_readName (map_eq_error_iff.mp h) hword

theorem faulty_of_readArrow (harrow : arrow ∈ words) (h : readArrow words = .error fault) :
    Faulty words fault := by
  unfold readArrow at h
  split at h
  · split at h
    · rcases bind_eq_error_iff.mp h with hsource | ⟨source, -, h⟩
      · exact faulty_of_readName hsource (by simp)
      · rcases bind_eq_error_iff.mp h with htarget | ⟨target, -, h⟩
        · exact faulty_of_readName htarget (by simp)
        · cases h
    · cases h
      exact .malformedArrow harrow
  · split at h
    · rcases bind_eq_error_iff.mp h with hlhs | ⟨lhs, -, h⟩
      · exact faulty_of_readSide hlhs (by simp)
      · rcases bind_eq_error_iff.mp h with htoken | ⟨token, -, h⟩
        · exact faulty_of_readSide htoken (by simp)
        · rcases bind_eq_error_iff.mp h with hnext | ⟨next, -, h⟩
          · exact faulty_of_readName hnext (by simp)
          · cases h
    · cases h
      exact .malformedArrow harrow
  · cases h
    exact .malformedArrow harrow

/-- The right side of a decision stands behind at least one word. -/
theorem faulty_of_readRight {front rest : List String} (hfront : front ≠ [])
    (h : readRight rest = .error fault) : Faulty (front ++ rest) fault := by
  unfold readRight at h
  split at h
  · cases h
  · exact faulty_of_readSide h (by simp)
  · next hnil hsingle =>
      cases h
      refine .tooManyWords ?_
      have hfront : 0 < front.length := List.length_pos_iff.mpr hfront
      have hrest : 1 < rest.length := by
        rcases rest with _ | ⟨w, _ | ⟨w', rest⟩⟩
        · exact absurd rfl hnil
        · exact absurd rfl (hsingle w)
        · simp
      rw [List.length_append]
      omega

/-- A verdict is missed only behind a left side. -/
theorem faulty_of_readDecision {first : String} {rest : List String}
    (hsingle : rest = [] → (Verdict.ofSymbol? first).isSome)
    (h : readDecision (first :: rest) = .error fault) : Faulty (first :: rest) fault := by
  cases hfirst : Verdict.ofSymbol? first with
  | some verdict =>
      simp only [readDecision, readVerdict, hfirst, map_eq_error_iff] at h
      exact faulty_of_readRight (List.cons_ne_nil first []) h
  | none =>
      simp only [readDecision, hfirst] at h
      rcases bind_eq_error_iff.mp h with hlhs | ⟨lhs, -, h⟩
      · exact faulty_of_readSide hlhs List.mem_cons_self
      · cases rest with
        | nil => simp [hfirst] at hsingle
        | cons word rest =>
            cases hword : Verdict.ofSymbol? word with
            | some verdict =>
                simp only [readVerdict, hword, map_eq_error_iff] at h
                exact faulty_of_readRight (List.cons_ne_nil first [word]) h
            | none =>
                simp only [readVerdict, hword] at h
                cases h
                exact .invalidAction rfl hword

theorem faulty_of_ofWords (h : ofWords words = .error fault) : Faulty words fault := by
  cases hcolon : words.getLast?.any endsWithColon with
  | true =>
      rw [ofWords_of_endsWithColon hcolon, readLabel] at h
      split at h
      · next hname =>
          cases h
          exact .emptyLabel hcolon hname
      · cases h
  | false =>
      unfold ofWords at h
      split at h
      · cases h
      · next first rest =>
          rw [hcolon] at h
          simp only [Bool.false_eq_true, if_false] at h
          split at h
          · next hfirst =>
              split at h
              · exact faulty_of_readName (map_eq_error_iff.mp h) (by simp)
              · cases h
                exact .malformedArrow (by simp [hfirst])
          · split at h
            · exact faulty_of_readName (map_eq_error_iff.mp h) List.mem_cons_self
            · next hsingle =>
                split at h
                · next harrow =>
                    exact faulty_of_readArrow (List.contains_iff_mem.mp harrow)
                      (map_eq_error_iff.mp h)
                · refine faulty_of_readDecision ?_ (map_eq_error_iff.mp h)
                  rintro rfl
                  simpa [Option.isSome_iff_ne_none] using hsingle

theorem faulty_of_read {text : List Char} (h : read text = .error fault) :
    Faulty (wordsOf text) fault :=
  faulty_of_ofWords h

/-- The word in the place of a verdict is the second one, and it is no verdict. -/
theorem Faulty.invalidAction_spec (h : Faulty words (.invalidAction word)) :
    words[1]? = some word ∧ word ≠ "-" ∧ word ≠ "x" := by
  cases h with
  | invalidAction hword hverdict =>
      refine ⟨hword, ?_, ?_⟩
      · rintro rfl
        cases hverdict
      · rintro rfl
        cases hverdict

theorem Faulty.reservedSymbol_spec (h : Faulty words (.reservedSymbol word)) :
    word ∈ words ∧ word ∈ ["-", "x", "->", ":"] := by
  cases h with
  | reservedSymbol hword hreserved => exact ⟨hword, hreserved⟩

end Faulty

end Line

/-! ### The first bad line -/

/-- Reading fails at the first line that cannot be read. -/
theorem Draft.addLines_snd_eq_some_iff {d : Draft} {n : Nat} {texts : List (List Char)}
    {e : ParseError} :
    (d.addLines n texts).2 = some e ↔
      ∃ front text back fault, texts = front ++ text :: back ∧ (d.addLines n front).2 = none ∧
        Line.read text = .error fault ∧
        e = ⟨n + front.length, .ofList (Text.trimEnd text), fault⟩ := by
  constructor
  · intro h
    induction texts generalizing d n with
    | nil => cases h
    | cons text texts ih =>
        unfold addLines at h
        cases hread : Line.read text with
        | error fault =>
            rw [hread] at h
            cases h
            exact ⟨[], text, texts, fault, rfl, rfl, hread, rfl⟩
        | ok line =>
            rw [hread] at h
            obtain ⟨front, bad, back, fault, rfl, hfront, hbad, rfl⟩ := ih h
            have hn : n + (front.length + 1) = n + 1 + front.length := by omega
            refine ⟨text :: front, bad, back, fault, rfl, ?_, hbad, ?_⟩
            · rw [addLines, hread]
              exact hfront
            · rw [List.length_cons, hn]
  · rintro ⟨front, text, back, fault, rfl, hfront, hread, rfl⟩
    rw [addLines_append]
    rcases hd : d.addLines n front with ⟨d', _ | e⟩
    · simp only [addLines, hread]
    · rw [hd] at hfront
      cases hfront

namespace RuleSet

/-- A text that goes on with a bad line behind lines that can be read fails at it. -/
theorem parse_eq_error_of_read {front : List (List Char)} {line back : List Char}
    {fault : LineFault} (hfree : ∀ l ∈ line :: front, '\n' ∉ l)
    (hfront : (({} : Draft).addLines 1 front).2 = none) (hread : Line.read line = .error fault)
    (hback : Text.EndsLine back) :
    RuleSet.parse (.ofList (Text.unlines front ++ (line ++ back))) =
      .error ⟨1 + front.length, .ofList (Text.trimEnd line), fault⟩ := by
  obtain ⟨hline, hlines⟩ := List.forall_mem_cons.mp hfree
  rw [parse_eq_error_iff, Draft.ofText_eq_pieces, String.toList_ofList,
    Text.splitOn_unlines_append hlines, Draft.addLines_snd_eq_some_iff]
  obtain ⟨rest, hrest | hrest⟩ := Text.splitOn_append_of_endsLine hline hback
  · exact ⟨front, line, rest, fault, by rw [hrest], hfront, hread, rfl⟩
  · refine ⟨front, line ++ ['\r'], rest, fault, by rw [hrest], hfront, ?_, ?_⟩
    · rw [Line.read_append_blank line rfl, hread]
    · rw [Text.trimEnd_append_blank line rfl]

/-- A text that cannot be read fails at a line of its own. What stands in front of that
line can be read; the line alone fails in the same way, at line 1; and what stands behind
it may be replaced by anything else. The error shows the line without the blanks at its
end, and a word that it names is a word of the line: the second one if it stands in the
place of a verdict, and one of the symbols if it is reserved. -/
theorem parse_fails_at_first_bad_line {source : String} {e : ParseError}
    (h : RuleSet.parse source = .error e) :
    ∃ front line back : String, source = front ++ line ++ back ∧
      Text.Closed front.toList ∧ '\n' ∉ line.toList ∧ Text.EndsLine back.toList ∧
      e.line = (Text.lines front.toList).length + 1 ∧
      (∃ R, RuleSet.parse front = .ok R) ∧
      RuleSet.parse line = .error { e with line := 1 } ∧
      e.text = String.ofList (Text.trimEnd line.toList) ∧
      (∀ back' : String, Text.EndsLine back'.toList →
        RuleSet.parse (front ++ line ++ back') = .error e) ∧
      (∀ word, e.fault = .invalidAction word →
        (Line.wordsOf line.toList)[1]? = some word ∧ word ∉ ["-", "x", ""]) ∧
      ∀ word, e.fault = .reservedSymbol word →
        word ∈ Line.wordsOf line.toList ∧ word ∈ ["-", "x", "->", ":"] := by
  rw [parse_eq_error_iff, Draft.ofText_eq_pieces] at h
  obtain ⟨front, line, back, fault, hpieces, hfront, hread, rfl⟩ :=
    Draft.addLines_snd_eq_some_iff.mp h
  obtain ⟨rest, hsource, hrest⟩ := Text.exists_eq_of_splitOn hpieces
  have hfree : ∀ l ∈ front ++ line :: back, '\n' ∉ l := fun l hl =>
    Text.newline_not_mem_of_mem_splitOn (hpieces ▸ hl)
  obtain ⟨hlines, hfree⟩ := List.forall_mem_append.mp hfree
  have hline : '\n' ∉ line := hfree line List.mem_cons_self
  have hfails : ∀ back : String, Text.EndsLine back.toList →
      RuleSet.parse (.ofList (Text.unlines front) ++ .ofList line ++ back) =
        .error ⟨1 + front.length, .ofList (Text.trimEnd line), fault⟩ := by
    intro back hback
    rw [← parse_eq_error_of_read (List.forall_mem_cons.mpr ⟨hline, hlines⟩) hfront hread hback]
    simp [String.append_assoc]
  have hfaulty := Line.faulty_of_read hread
  refine ⟨.ofList (Text.unlines front), .ofList line, .ofList rest, ?source, ?closed, ?line, ?rest,
    ?number, ?front, ?alone, ?shown, hfails, ?action, ?reserved⟩
  case source =>
    rw [← String.ofList_append, ← String.ofList_append, List.append_assoc, ← hsource,
      String.ofList_toList]
  case closed =>
    rw [String.toList_ofList]
    exact Text.closed_unlines front
  case line => rwa [String.toList_ofList]
  case rest => rwa [String.toList_ofList]
  case number =>
    rw [String.toList_ofList, Text.lines_unlines_eq_map hlines, List.length_map, Nat.add_comm]
  case front =>
    rw [exists_parse_eq_ok_iff, Draft.ofText_eq_pieces, String.toList_ofList,
      Text.splitOn_unlines hlines, Draft.addLines_concat_nil]
    exact hfront
  case alone =>
    have halone := @parse_eq_error_of_read [] line [] fault (List.forall_mem_singleton.mpr hline)
      rfl hread (.inl rfl)
    simpa using halone
  case shown => rw [String.toList_ofList]
  case action =>
    rintro word rfl
    obtain ⟨hsecond, hsplit, hjoin⟩ := hfaulty.invalidAction_spec
    have hne : word ≠ "" := by
      simpa using (Line.isWord_of_mem_wordsOf (List.mem_of_getElem? hsecond)).ne_nil
    rw [String.toList_ofList]
    exact ⟨hsecond, by simp [hsplit, hjoin, hne]⟩
  case reserved =>
    rintro word rfl
    rw [String.toList_ofList]
    exact hfaulty.reservedSymbol_spec

end RuleSet

/-- A text with a bad line between good ones, which a carriage return and a comment end. -/
def badText : String :=
  "A\nS:\nx\n A  B -- no verdict \r\n-> x\n"

theorem parse_badText :
    RuleSet.parse badText = .error ⟨4, " A  B -- no verdict", .invalidAction "B"⟩ := by
  have hdraft : (Draft.ofText badText).2 =
      some ⟨4, " A  B -- no verdict", .invalidAction "B"⟩ := by
    decide +kernel
  exact RuleSet.parse_eq_error_iff.mpr hdraft

theorem parse_fails_at_first_bad_line_badText :
    RuleSet.parse badText = .error ⟨4, " A  B -- no verdict", .invalidAction "B"⟩ ∧
      ∃ front line back : String, badText = front ++ line ++ back ∧
        (∃ R, RuleSet.parse front = .ok R) ∧
        RuleSet.parse line = .error ⟨1, " A  B -- no verdict", .invalidAction "B"⟩ ∧
        RuleSet.parse (front ++ line) =
          .error ⟨4, " A  B -- no verdict", .invalidAction "B"⟩ ∧
        (Line.wordsOf line.toList)[1]? = some "B" := by
  obtain ⟨front, line, back, hsource, -, -, -, -, hfront, hline, -, hback, haction, -⟩ :=
    RuleSet.parse_fails_at_first_bad_line parse_badText
  refine ⟨parse_badText, front, line, back, hsource, hfront, hline, ?_, (haction "B" rfl).1⟩
  simpa using hback "" (by decide)

end BreakRules
