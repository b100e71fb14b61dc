import BreakRules.Proofs.Acceptance

/-!
# The pieces of a text between its line feeds

The lines of a text are its pieces between line feeds, without a carriage return at the
end of a closed piece and without the last piece if that is empty. Reading does not see
this difference: a carriage return is a blank, and an empty line says nothing. So a text
can be read piece by piece (`Draft.ofText_eq_pieces`), and pieces are what a text is made
of when texts are joined or cut at the end of a line.

`Text.Closed` texts are empty or end with a line feed. In front of another text they keep
their lines: `Text.Closed.lines_append`.
-/

namespace BreakRules

namespace Text

/-! ### Texts that end with a line -/

/-- A text that is empty or ends with a line feed. -/
def Closed (text : List Char) : Prop :=
  text = [] ∨ text.getLast? = some '\n'

instance (text : List Char) : Decidable (Closed text) :=
  inferInstanceAs (Decidable (_ ∨ _))

@[simp] theorem lines_nil : lines [] = [] := rfl

/-- What stands in front of a line feed is cut into lines on its own. -/
theorem lines_append_newline (text text' : List Char) :
    lines (text ++ '\n' :: text') = (text.splitOn '\n').map dropReturn ++ lines text' := by
  have hne : text'.splitOn '\n' ≠ [] := List.splitOn_ne_nil _ _
  simp only [lines, List.splitOn_append_cons_self, List.dropLast_append_of_ne_nil hne,
    List.getLast?_append_of_ne_nil _ hne, List.map_append, List.append_assoc]

theorem Closed.eq_nil_or_exists {text : List Char} (h : Closed text) :
    text = [] ∨ ∃ front, text = front ++ ['\n'] :=
  h.imp_right List.getLast?_eq_some_iff.mp

/-- A closed text keeps its lines in front of another text, which keeps its own. -/
theorem Closed.lines_append {text : List Char} (h : Closed text) (text' : List Char) :
    lines (text ++ text') = lines text ++ lines text' := by
  rcases h.eq_nil_or_exists with rfl | ⟨front, rfl⟩
  · rfl
  · rw [List.append_assoc, List.singleton_append, lines_append_newline, lines_append_newline,
      lines_nil, List.append_nil]

theorem closed_unlines (ls : List (List Char)) : Closed (unlines ls) := by
  cases ls using List.reverseRecOn with
  | nil => exact .inl rfl
  | append_singleton ls l => exact .inr (by simp [unlines])

/-! ### Pieces -/

theorem newline_not_mem_of_mem_splitOn {text piece : List Char}
    (h : piece ∈ text.splitOn '\n') : '\n' ∉ piece := by
  obtain ⟨first, rest, heq, -, -, hfree⟩ := exists_splitOnP_eq_cons (· == '\n') text
  intro hmem
  rw [List.splitOn, heq] at h
  simpa using hfree piece h '\n' hmem

theorem splitOn_unlines_append {ls : List (List Char)} (h : ∀ l ∈ ls, '\n' ∉ l)
    (text : List Char) : (unlines ls ++ text).splitOn '\n' = ls ++ text.splitOn '\n' := by
  induction ls with
  | nil => rfl
  | cons l ls ih =>
      obtain ⟨hl, hls⟩ := List.forall_mem_cons.mp h
      rw [unlines_cons, List.append_assoc, List.cons_append,
        List.splitOn_append_cons_self_of_not_mem hl, ih hls, List.cons_append]

theorem lines_unlines_eq_map {ls : List (List Char)} (h : ∀ l ∈ ls, '\n' ∉ l) :
    lines (unlines ls) = ls.map dropReturn := by
  simp [lines, splitOn_unlines h]

/-- What can follow a line: nothing, or a line feed, with a carriage return or without. -/
def EndsLine (rest : List Char) : Prop :=
  rest = [] ∨ ['\n'] <+: rest ∨ ['\r', '\n'] <+: rest

instance (rest : List Char) : Decidable (EndsLine rest) :=
  inferInstanceAs (Decidable (_ ∨ _ ∨ _))

/-- A text can be cut around one of its pieces. -/
theorem exists_eq_of_splitOn {text : List Char} {front : List (List Char)} {piece : List Char}
    {back : List (List Char)} (h : text.splitOn '\n' = front ++ piece :: back) :
    ∃ rest, text = unlines front ++ (piece ++ rest) ∧ EndsLine rest := by
  have htext : text = ['\n'].intercalate (front ++ piece :: back) := by
    rw [← h, List.intercalate_splitOn]
  clear h
  induction front generalizing text with
  | nil =>
      cases back with
      | nil => exact ⟨[], by simp [htext], .inl rfl⟩
      | cons next back =>
          refine ⟨'\n' :: ['\n'].intercalate (next :: back), ?_, .inr (.inl ?_)⟩
          · simp [htext, List.intercalate_cons_cons]
          · exact List.prefix_append ['\n'] _
  | cons l front ih =>
      obtain ⟨rest, hrest, hends⟩ := ih rfl
      refine ⟨rest, ?_, hends⟩
      rw [htext, List.cons_append, List.intercalate_cons_of_ne_nil (by simp), hrest, unlines_cons]
      simp

/-- The first piece of a line and of what follows it is the line, but for a carriage return
that follows. -/
theorem splitOn_append_of_endsLine {line rest : List Char} (hline : '\n' ∉ line)
    (hrest : EndsLine rest) :
    ∃ back, (line ++ rest).splitOn '\n' = line :: back ∨
      (line ++ rest).splitOn '\n' = (line ++ ['\r']) :: back := by
  rcases hrest with rfl | ⟨more, rfl⟩ | ⟨more, rfl⟩
  · exact ⟨[], .inl (by rw [List.append_nil, List.splitOn_eq_singleton hline])⟩
  · exact ⟨more.splitOn '\n', .inl (List.splitOn_append_cons_self_of_not_mem hline more)⟩
  · have hreturn : '\n' ∉ line ++ ['\r'] := by simpa using hline
    have hassoc : line ++ (['\r', '\n'] ++ more) = (line ++ ['\r']) ++ '\n' :: more := by simp
    exact ⟨more.splitOn '\n',
      .inr (by rw [hassoc, List.splitOn_append_cons_self_of_not_mem hreturn])⟩

end Text

/-! ### Blanks at the end of a line -/

namespace Line

theorem content_append_of_ne (line : List Char) {c : Char} (hc : c ≠ '-') :
    content (line ++ [c]) = content line ∨ content (line ++ [c]) = content line ++ [c] := by
  fun_induction content line with
  | case1 => exact .inr (content_eq_self (by simp [commentMark, List.infix_cons_iff]))
  | case2 rest => exact .inl rfl
  | case3 a rest hne ih =>
      -- a mark cannot end with the new character
      have hhead : ¬ commentMark <+: a :: (rest ++ [c]) := by
        intro hmark
        obtain ⟨ha, htail⟩ := List.cons_prefix_cons.mp hmark
        cases rest with
        | nil => exact hc (List.cons_prefix_cons.mp htail).1.symm
        | cons b rest =>
            obtain ⟨rfl, -⟩ := List.cons_prefix_cons.mp htail
            exact hne rest ha.symm rfl
      rw [List.cons_append, content_cons hhead]
      simpa using ih

/-- A blank at its end adds no word to a line. -/
theorem wordsOf_append_blank (line : List Char) {c : Char} (hc : Text.isBlank c = true) :
    wordsOf (line ++ [c]) = wordsOf line := by
  have hdash : c ≠ '-' := by
    rintro rfl
    exact absurd hc (by decide)
  rcases content_append_of_ne line hdash with heq | heq
  · rw [wordsOf, heq, wordsOf]
  · rw [wordsOf, heq, Text.words_append_blank hc, wordsOf]
    exact congrArg _ (List.append_nil _)

theorem read_append_blank (line : List Char) {c : Char} (hc : Text.isBlank c = true) :
    read (line ++ [c]) = read line := by
  rw [read, wordsOf_append_blank line hc, read]

end Line

theorem Text.trimEnd_append_blank (line : List Char) {c : Char} (hc : isBlank c = true) :
    trimEnd (line ++ [c]) = trimEnd line :=
  dropEndWhile_append_of_forall line (by simpa using hc)

/-! ### Reading lines that agree -/

/-- Two lines say the same, and errors that show them are the same for `view`. -/
structure Line.Agree {β : Type} (view : ParseError → β) (text text' : List Char) : Prop where
  read_eq : read text' = read text
  view_eq : ∀ n fault,
    view ⟨n, .ofList (Text.trimEnd text'), fault⟩ = view ⟨n, .ofList (Text.trimEnd text), fault⟩

/-- A carriage return at its end changes nothing about a line. -/
theorem Line.agree_return {β : Type} (view : ParseError → β) (text : List Char) :
    Agree view text (text ++ ['\r']) :=
  ⟨read_append_blank text rfl, fun _ _ => by rw [Text.trimEnd_append_blank text rfl]⟩

theorem Line.agree_refl {β : Type} (view : ParseError → β) (text : List Char) :
    Agree view text text :=
  ⟨rfl, fun _ _ => rfl⟩

theorem Line.agree_dropReturn (text : List Char) : Agree id (Text.dropReturn text) text := by
  unfold Text.dropReturn
  split
  · next hlast =>
      obtain ⟨front, rfl⟩ := List.getLast?_eq_some_iff.mp hlast
      rw [List.dropLast_concat]
      exact agree_return id front
  · exact agree_refl id text

namespace Draft

/-- Lines that agree are read to the same draft and to errors that look the same. -/
theorem addLines_congr {β : Type} {view : ParseError → β} {texts texts' : List (List Char)}
    (h : List.Forall₂ (Line.Agree view) texts texts') (d : Draft) (n : Nat) :
    Prod.map id (Option.map view) (d.addLines n texts') =
      Prod.map id (Option.map view) (d.addLines n texts) := by
  induction h generalizing d n with
  | nil => rfl
  | @cons text text' texts texts' hagree _ ih =>
      unfold addLines
      rw [hagree.read_eq]
      cases Line.read text with
      | ok line => exact ih _ _
      | error fault => exact congrArg (fun e => (d, some e)) (hagree.view_eq n fault)

/-- Lines behind others go on with the draft and the number that these leave. -/
theorem addLines_append (d : Draft) (n : Nat) (texts texts' : List (List Char)) :
    d.addLines n (texts ++ texts') =
      match d.addLines n texts with
      | (d', none) => d'.addLines (n + texts.length) texts'
      | (d', some e) => (d', some e) := by
  induction texts generalizing d n with
  | nil => rfl
  | cons text texts ih =>
      rw [List.cons_append, addLines, addLines]
      cases Line.read text with
      | error fault => rfl
      | ok line =>
          have hn : n + (texts.length + 1) = n + 1 + texts.length := by omega
          simp only [ih, List.length_cons, hn]

/-- An empty line at the end says nothing. -/
theorem addLines_concat_nil (d : Draft) (n : Nat) (texts : List (List Char)) :
    d.addLines n (texts ++ [[]]) = d.addLines n texts := by
  rw [addLines_append]
  rcases d.addLines n texts with ⟨d', _ | e⟩
  · rfl
  · rfl

/-- A text can be read piece by piece. -/
theorem ofText_eq_pieces (source : String) :
    ofText source = ({} : Draft).addLines 1 (source.toList.splitOn '\n') := by
  have hne : source.toList.splitOn '\n' ≠ [] := List.splitOn_ne_nil _ _
  rw [ofText, Text.lines]
  generalize source.toList.splitOn '\n' = pieces at hne
  obtain ⟨front, last, rfl⟩ := List.eq_nil_or_concat pieces |>.resolve_left hne
  have hlast : ({} : Draft).addLines 1 (front.map Text.dropReturn ++ [last].filter (!·.isEmpty)) =
      ({} : Draft).addLines 1 (front.map Text.dropReturn ++ [last]) := by
    cases last with
    | nil => rw [addLines_concat_nil]; simp
    | cons c last => rfl
  have hagree : List.Forall₂ (Line.Agree id) (front.map Text.dropReturn ++ [last])
      (front ++ [last]) := by
    refine List.rel_append ?_ (.cons (Line.agree_refl id last) .nil)
    rw [List.forall₂_map_left_iff, List.forall₂_same]
    exact fun text _ => Line.agree_dropReturn text
  have hcongr := addLines_congr hagree {} 1
  simp only [Option.map_id, Prod.map_id, id_eq] at hcongr
  simpa [hcongr] using hlast

end Draft

theorem RuleSet.parse_eq_error_iff {source : String} {e : ParseError} :
    RuleSet.parse source = .error e ↔ (Draft.ofText source).2 = some e := by
  unfold RuleSet.parse
  rcases Draft.ofText source with ⟨draft, _ | e'⟩
  · simp
  · simp

theorem RuleSet.exists_parse_eq_ok_iff {source : String} :
    (∃ R, RuleSet.parse source = .ok R) ↔ (Draft.ofText source).2 = none := by
  unfold RuleSet.parse
  rcases Draft.ofText source with ⟨draft, _ | e⟩
  · simp
  · simp

/-- Texts with drafts and errors that look the same come to rule sets and errors that do. -/
theorem RuleSet.mapError_parse_congr {β : Type} {view : ParseError → β} {source source' : String}
    (h : Prod.map id (Option.map view) (Draft.ofText source') =
      Prod.map id (Option.map view) (Draft.ofText source)) :
    (RuleSet.parse source').mapError view = (RuleSet.parse source).mapError view := by
  have hparse : ∀ text, (RuleSet.parse text).mapError view =
      match Prod.map id (Option.map view) (Draft.ofText text) with
      | (draft, none) => .ok draft.ruleSet
      | (_, some b) => .error b := by
    intro text
    unfold RuleSet.parse
    rcases Draft.ofText text with ⟨draft, _ | e⟩
    · rfl
    · rfl
  rw [hparse, hparse, h]

end BreakRules
