import BreakRules.Proofs.Lines

/-!
# How a line is cut into words

`Line.content` and `Text.words` go over a line character by character. Here the same is
said without an order of reading: `Line.InFront` is the part of a line in front of the
first `--`, and `Text.Splits` cuts a text into longest pieces without blanks. Both give
exactly one result, the one that is computed, so `Line.HasWords` is a description of
`Line.wordsOf`: `Line.hasWords_iff`.
-/

namespace BreakRules

namespace Text

/-- A text and its words: pieces without blanks that end where the text ends or a blank
follows. -/
inductive Splits : List Char → List (List Char) → Prop where
  | nil : Splits [] []
  | blank {c : Char} {text : List Char} {ws : List (List Char)} : isBlank c = true →
      Splits text ws → Splits (c :: text) ws
  | word {w rest : List Char} {ws : List (List Char)} : w ≠ [] → (∀ c ∈ w, isBlank c = false) →
      (∀ c ∈ rest.head?, isBlank c = true) → Splits rest ws → Splits (w ++ rest) (w :: ws)

theorem words_append_blank {c : Char} (hc : isBlank c = true) (text text' : List Char) :
    words (text ++ c :: text') = words text ++ words text' := by
  rw [words, List.splitOnP_append_cons _ _ hc, List.filter_append]
  rfl

theorem words_eq_singleton {w : List Char} (hne : w ≠ []) (h : ∀ c ∈ w, isBlank c = false) :
    words w = [w] := by
  rw [words, List.splitOnP_eq_singleton h, List.filter_eq_self]
  simpa using hne

theorem Splits.words_eq {text : List Char} {ws : List (List Char)} (h : Splits text ws) :
    words text = ws := by
  induction h with
  | nil => rfl
  | @blank c text ws hc _ ih =>
      rw [← ih]
      exact words_append_blank hc [] text
  | @word w rest ws hne hw hrest _ ih =>
      rw [← ih]
      cases rest with
      | nil =>
          rw [List.append_nil, words_eq_singleton hne hw]
          rfl
      | cons c rest =>
          have hc : isBlank c = true := hrest c rfl
          rw [words_append_blank hc, words_eq_singleton hne hw]
          exact congrArg (w :: ·) (words_append_blank hc [] rest).symm

/-- A character in front of a text is a blank, a word of its own or the beginning of the
first word. -/
theorem Splits.exists_cons {text : List Char} {ws : List (List Char)} (h : Splits text ws)
    (c : Char) : ∃ ws', Splits (c :: text) ws' := by
  cases hc : isBlank c with
  | true => exact ⟨ws, .blank hc h⟩
  | false =>
      have hsingle : ∀ a ∈ [c], isBlank a = false := by simpa using hc
      cases h with
      | nil => exact ⟨_, .word (List.cons_ne_nil c []) hsingle (by simp) .nil⟩
      | blank hblank htext =>
          exact ⟨_, .word (List.cons_ne_nil c []) hsingle (by simpa using hblank)
            (.blank hblank htext)⟩
      | @word w rest ws hne hw hrest htext =>
          exact ⟨_, .word (List.cons_ne_nil c w) (List.forall_mem_cons.mpr ⟨hc, hw⟩) hrest htext⟩

theorem exists_splits (text : List Char) : ∃ ws, Splits text ws := by
  induction text with
  | nil => exact ⟨[], .nil⟩
  | cons c text ih =>
      obtain ⟨ws, hws⟩ := ih
      exact hws.exists_cons c

theorem splits_iff {text : List Char} {ws : List (List Char)} :
    Splits text ws ↔ words text = ws := by
  constructor
  · exact Splits.words_eq
  · rintro rfl
    obtain ⟨ws, hws⟩ := exists_splits text
    rwa [hws.words_eq]

end Text

namespace Line

/-- A line and the part of it in front of its comment. The comment is opened by the first
mark, so none stands in front of it, not even across its first character. -/
inductive InFront : List Char → List Char → Prop where
  | whole {line : List Char} : ¬ commentMark <:+: line → InFront line line
  | comment {front rest : List Char} : ¬ commentMark <:+: front ++ ['-'] →
      InFront (front ++ commentMark ++ rest) front

/-- Whether a line begins with a mark does not depend on what follows the first half of a
later one. -/
theorem commentMark_prefix_iff {c : Char} {front rest : List Char} :
    commentMark <+: c :: (front ++ commentMark ++ rest) ↔ commentMark <+: c :: (front ++ ['-']) := by
  have hstart : c :: (front ++ ['-']) <+: c :: (front ++ commentMark ++ rest) :=
    ⟨'-' :: rest, by simp [commentMark]⟩
  constructor
  · intro hmark
    exact List.prefix_of_prefix_length_le hmark hstart (by simp [commentMark])
  · exact fun hmark => hmark.trans hstart

theorem content_cons {c : Char} {rest : List Char} (h : ¬ commentMark <+: c :: rest) :
    content (c :: rest) = c :: content rest := by
  rw [content]
  rintro tail rfl rfl
  exact h (List.prefix_append commentMark tail)

theorem InFront.content_eq {line front : List Char} (h : InFront line front) :
    content line = front := by
  cases h with
  | whole hmark => exact content_eq_self hmark
  | @comment front rest hmark =>
      induction front with
      | nil => rfl
      | cons c front ih =>
          rw [List.cons_append, List.infix_cons_iff, not_or] at hmark
          rw [List.cons_append, List.cons_append,
            content_cons (mt commentMark_prefix_iff.mp hmark.1), ih hmark.2]

theorem inFront_content (line : List Char) : InFront line (content line) := by
  fun_induction content line with
  | case1 => exact .whole (by simp [commentMark])
  | case2 rest => exact @InFront.comment [] rest (by decide)
  | case3 c rest hne ih =>
      have hhead : ¬ commentMark <+: c :: rest := by
        intro hmark
        obtain ⟨hc, hrest⟩ := List.cons_prefix_cons.mp hmark
        obtain ⟨tail, rfl⟩ := hrest
        exact hne tail hc.symm rfl
      generalize content rest = front at ih
      cases ih with
      | whole hmark =>
          refine .whole ?_
          rw [List.infix_cons_iff, not_or]
          exact ⟨hhead, hmark⟩
      | @comment front rest hmark =>
          refine @InFront.comment (c :: front) rest ?_
          rw [List.cons_append, List.infix_cons_iff, not_or]
          exact ⟨mt commentMark_prefix_iff.mpr hhead, hmark⟩

/-- A line and its words: those of the part in front of its comment. -/
def HasWords (line : List Char) (words : List String) : Prop :=
  ∃ front, InFront line front ∧ Text.Splits front (words.map String.toList)

theorem hasWords_iff {line : List Char} {words : List String} :
    HasWords line words ↔ wordsOf line = words := by
  have hofList : (words.map String.toList).map String.ofList = words := by simp
  constructor
  · rintro ⟨front, hfront, hwords⟩
    rw [wordsOf, hfront.content_eq, hwords.words_eq, hofList]
  · rintro rfl
    refine ⟨content line, inFront_content line, Text.splits_iff.mpr ?_⟩
    simp [wordsOf]

end Line

end BreakRules
