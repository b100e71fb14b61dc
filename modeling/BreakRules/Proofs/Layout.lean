import BreakRules.Proofs.Pieces

/-!
# Layout

What a line says depends on its words only. So a line may be written anew with its words
and single blanks between them, which leaves out comments and all other blanks
(`Line.tidied`): it reads as before. `tidied` does so with every line of a text, and the
line feeds stay where they are. Only the text that an error shows can change by this.

`withReturns` puts a carriage return in front of every line feed. Such a return ends a
line if the line was not ended by one before, and is one more blank at the end of the
line otherwise, so it changes nothing at all.
-/

namespace BreakRules

/-- The words of a line in front of its comment, with single blanks between them. -/
def Line.tidied (line : List Char) : List Char :=
  (" ".intercalate (wordsOf line)).toList

/-- A text with every line written anew. -/
def tidied (source : String) : String :=
  .ofList (['\n'].intercalate ((source.toList.splitOn '\n').map Line.tidied))

/-- A text with a carriage return in front of every line feed. -/
def withReturns (source : String) : String :=
  .ofList (source.toList.flatMap fun c => if c = '\n' then ['\r', '\n'] else [c])

/-! ### Lines -/

namespace Line

theorem wordsOf_tidied (line : List Char) : wordsOf (tidied line) = wordsOf line :=
  wordsOf_intercalate fun _ => isWord_of_mem_wordsOf

theorem newline_not_mem_tidied (line : List Char) : '\n' ∉ tidied line :=
  Text.not_mem_intercalate (fun _ hw => (isWord_of_mem_wordsOf hw).not_mem_of_isBlank rfl)
    (by decide)

/-- A line that is written anew says the same. -/
theorem agree_tidied (line : List Char) :
    Agree (fun e => (e.line, e.fault)) line (tidied line) :=
  ⟨by rw [read, wordsOf_tidied, read], fun _ _ => rfl⟩

end Line

/-! ### Texts -/

theorem splitOn_tidied (source : String) :
    (tidied source).toList.splitOn '\n' = (source.toList.splitOn '\n').map Line.tidied := by
  rw [tidied, String.toList_ofList]
  refine List.splitOn_intercalate '\n' ?_ ?_
  · intro l hl
    obtain ⟨line, -, rfl⟩ := List.mem_map.mp hl
    exact Line.newline_not_mem_tidied line
  · exact mt List.map_eq_nil_iff.mp (List.splitOn_ne_nil _ _)

/-- The pieces get carriage returns at their ends. -/
theorem splitOn_withReturns (text : List Char) :
    List.Forall₂ (fun piece piece' => piece' = piece ∨ piece' = piece ++ ['\r'])
      (text.splitOn '\n')
      ((text.flatMap fun c => if c = '\n' then ['\r', '\n'] else [c]).splitOn '\n') := by
  induction text with
  | nil => exact .cons (.inl rfl) .nil
  | cons c text ih =>
      rw [List.flatMap_cons, List.splitOn_cons_eq_if_modifyHead]
      by_cases hc : c = '\n'
      · simp only [hc, beq_self_eq_true, if_true]
        exact .cons (.inr rfl) ih
      · simp only [hc, beq_false_of_ne hc, Bool.false_eq_true, if_false, List.singleton_append]
        rw [List.splitOn_cons_eq_if_modifyHead, beq_false_of_ne hc]
        -- the character goes in front of both first pieces
        generalize text.splitOn '\n' = pieces at ih
        generalize (text.flatMap fun c => if c = '\n' then ['\r', '\n'] else [c]).splitOn '\n' =
          pieces' at ih
        cases ih with
        | nil => exact .nil
        | cons hpiece hrest =>
            refine .cons (hpiece.imp ?_ ?_) hrest
            · rintro rfl
              rfl
            · rintro rfl
              rfl

theorem agree_withReturns (text : List Char) :
    List.Forall₂ (Line.Agree id) (text.splitOn '\n')
      ((text.flatMap fun c => if c = '\n' then ['\r', '\n'] else [c]).splitOn '\n') := by
  refine (splitOn_withReturns text).imp fun piece piece' hpiece => ?_
  rcases hpiece with rfl | rfl
  · exact Line.agree_refl id _
  · exact Line.agree_return id piece

/-- Layout has no part in what a text says. -/
theorem parse_ignores_layout (source : String) :
    (RuleSet.parse (tidied source)).mapError (fun e => (e.line, e.fault)) =
        (RuleSet.parse source).mapError (fun e => (e.line, e.fault)) ∧
      RuleSet.parse (withReturns source) = RuleSet.parse source := by
  constructor
  · refine RuleSet.mapError_parse_congr ?_
    rw [Draft.ofText_eq_pieces, Draft.ofText_eq_pieces, splitOn_tidied]
    refine Draft.addLines_congr ?_ {} 1
    rw [List.forall₂_map_right_iff, List.forall₂_same]
    exact fun line _ => Line.agree_tidied line
  · have hview : ∀ x : Except ParseError RuleSet, x.mapError id = x := by
      intro x
      cases x <;> rfl
    rw [← hview (RuleSet.parse (withReturns source)), ← hview (RuleSet.parse source)]
    refine RuleSet.mapError_parse_congr ?_
    rw [Draft.ofText_eq_pieces, Draft.ofText_eq_pieces, withReturns, String.toList_ofList]
    exact Draft.addLines_congr (agree_withReturns source.toList) {} 1

example : tidied "\tA -- a token\n\n S0  x A\r\n->" = "A\n\nS0 x A\n->" := by
  decide +kernel

end BreakRules
