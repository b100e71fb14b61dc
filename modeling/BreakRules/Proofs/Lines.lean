import BreakRules.Rule.Line
import BreakRules.Text.Basic
import Mathlib.Data.List.Infix

/-!
# Texts put together from lines and words

`Text.unlines` closes every line of a list by a line feed, and `Text.lines`
takes such a text apart again. In the same way a line that is put together from
words by single blanks has these words, if none of them holds what opens a
comment: `Line.wordsOf_intercalate`. Conversely, the words of any line are
words in this sense: `Line.isWord_of_mem_wordsOf`.
-/

namespace BreakRules

namespace Text

/-! ### Lines -/

/-- Lines, each closed by a line feed. -/
def unlines (ls : List (List Char)) : List Char :=
  ls.flatMap (· ++ ['\n'])

@[simp] theorem unlines_nil : unlines [] = [] := rfl

theorem unlines_cons (l : List Char) (ls : List (List Char)) :
    unlines (l :: ls) = l ++ '\n' :: unlines ls := by
  simp [unlines]

theorem unlines_append (ls ls' : List (List Char)) :
    unlines (ls ++ ls') = unlines ls ++ unlines ls' := by
  simp [unlines]

theorem toList_intercalate_lines (ls : List String) :
    ("".intercalate (ls.map (· ++ "\n"))).toList = unlines (ls.map String.toList) := by
  rw [String.toList_intercalate]
  induction ls with
  | nil => rfl
  | cons l ls ih =>
      have hnl : "\n".toList = ['\n'] := rfl
      cases ls with
      | nil => simp [unlines_cons, hnl]
      | cons l' ls =>
          simp only [List.map_cons, List.intercalate_cons_cons] at ih ⊢
          rw [ih, unlines_cons l.toList, String.toList_append, hnl]
          simp

theorem splitOn_unlines {ls : List (List Char)} (h : ∀ l ∈ ls, '\n' ∉ l) :
    (unlines ls).splitOn '\n' = ls ++ [[]] := by
  induction ls with
  | nil => rfl
  | cons l ls ih =>
      obtain ⟨hl, hls⟩ := List.forall_mem_cons.mp h
      rw [unlines_cons, List.splitOn_append_cons_self_of_not_mem hl, ih hls, List.cons_append]

/-- Lines without line feeds can be told from their text. -/
theorem unlines_inj {ls ls' : List (List Char)} (h : ∀ l ∈ ls, '\n' ∉ l)
    (h' : ∀ l ∈ ls', '\n' ∉ l) (heq : unlines ls = unlines ls') : ls = ls' := by
  have hsplit := splitOn_unlines h
  rw [heq, splitOn_unlines h'] at hsplit
  exact (List.append_cancel_right hsplit).symm

theorem lines_unlines {ls : List (List Char)} (h : ∀ l ∈ ls, '\n' ∉ l)
    (hr : ∀ l ∈ ls, l.getLast? ≠ some '\r') : lines (unlines ls) = ls := by
  have hdrop : ls.map dropReturn = ls := by
    rw [List.map_congr_left (g := id) fun l hl => by simp [dropReturn, hr l hl], List.map_id]
  simp [lines, splitOn_unlines h, hdrop]

/-! ### Words -/

/-- The pieces of a list are free of separators; the first one begins the list
and every other one stands inside of it. -/
theorem exists_splitOnP_eq_cons {α : Type} (p : α → Bool) (l : List α) :
    ∃ first rest, l.splitOnP p = first :: rest ∧ first <+: l ∧
      (∀ piece ∈ rest, piece <:+: l) ∧ ∀ piece ∈ first :: rest, ∀ a ∈ piece, p a = false := by
  induction l with
  | nil => exact ⟨[], [], by simp⟩
  | cons a l ih =>
      obtain ⟨first, rest, heq, hfirst, hrest, hfree⟩ := ih
      rw [List.splitOnP_cons_eq_if_modifyHead, heq]
      by_cases ha : p a = true
      · refine ⟨[], first :: rest, by simp [ha], List.nil_prefix, ?_, by simpa using hfree⟩
        intro piece hpiece
        rcases List.mem_cons.mp hpiece with rfl | hpiece
        · exact List.infix_cons hfirst.isInfix
        · exact List.infix_cons (hrest piece hpiece)
      · rw [Bool.not_eq_true] at ha
        refine ⟨a :: first, rest, by simp [ha], List.cons_prefix_cons.mpr ⟨rfl, hfirst⟩, ?_, ?_⟩
        · exact fun piece hpiece => List.infix_cons (hrest piece hpiece)
        · simpa [ha] using hfree

theorem infix_of_mem_words {text word : List Char} (h : word ∈ words text) : word <:+: text := by
  obtain ⟨first, rest, heq, hfirst, hrest, -⟩ := exists_splitOnP_eq_cons isBlank text
  rw [words, heq] at h
  rcases List.mem_cons.mp (List.mem_of_mem_filter h) with rfl | hword
  · exact hfirst.isInfix
  · exact hrest word hword

theorem ne_nil_of_mem_words {text word : List Char} (h : word ∈ words text) : word ≠ [] := by
  simpa using (List.mem_filter.mp h).2

theorem isBlank_of_mem_words {text word : List Char} (h : word ∈ words text) :
    ∀ c ∈ word, isBlank c = false := by
  obtain ⟨first, rest, heq, -, -, hfree⟩ := exists_splitOnP_eq_cons isBlank text
  rw [words, heq] at h
  exact hfree word (List.mem_of_mem_filter h)

theorem splitOnP_intercalate {ws : List (List Char)} (hne : ws ≠ [])
    (h : ∀ w ∈ ws, ∀ c ∈ w, isBlank c = false) :
    ([' '].intercalate ws).splitOnP isBlank = ws := by
  induction ws with
  | nil => exact absurd rfl hne
  | cons w ws ih =>
      obtain ⟨hw, hws⟩ := List.forall_mem_cons.mp h
      cases ws with
      | nil => rw [List.intercalate_singleton, List.splitOnP_eq_singleton hw]
      | cons w' ws =>
          rw [List.intercalate_cons_cons, List.append_assoc, List.singleton_append,
            List.splitOnP_append_cons_of_forall_mem hw ' ' rfl, ih (by simp) hws]

theorem words_intercalate {ws : List (List Char)} (hne : ∀ w ∈ ws, w ≠ [])
    (h : ∀ w ∈ ws, ∀ c ∈ w, isBlank c = false) : words ([' '].intercalate ws) = ws := by
  cases ws with
  | nil => rfl
  | cons w ws =>
      rw [words, splitOnP_intercalate (by simp) h, List.filter_eq_self]
      simpa using hne

theorem not_mem_intercalate {ws : List String} {c : Char} (h : ∀ w ∈ ws, c ∉ w.toList)
    (hne : c ≠ ' ') : c ∉ (" ".intercalate ws).toList := by
  induction ws with
  | nil => simp
  | cons w ws ih =>
      obtain ⟨hw, hws⟩ := List.forall_mem_cons.mp h
      cases ws with
      | nil => simpa using hw
      | cons w' ws =>
          have hrest := ih hws
          simp only [String.intercalate_cons_cons, String.toList_append, List.mem_append, not_or]
          exact ⟨⟨hw, by simpa using hne⟩, hrest⟩

end Text

/-! ### Lines of a rule text -/

namespace Line

def commentMark : List Char := ['-', '-']

theorem content_eq_self {line : List Char} (h : ¬ commentMark <:+: line) : content line = line := by
  fun_induction content line with
  | case1 => rfl
  | case2 rest => exact absurd (List.infix_append [] commentMark rest) h
  | case3 c rest _ ih => rw [ih fun hrest => h (List.infix_cons hrest)]

theorem content_prefix_self (line : List Char) : content line <+: line := by
  fun_induction content line with
  | case1 => exact List.nil_prefix
  | case2 rest => exact List.nil_prefix
  | case3 c rest _ ih => exact List.cons_prefix_cons.mpr ⟨rfl, ih⟩

theorem commentMark_not_infix_content (line : List Char) : ¬ commentMark <:+: content line := by
  fun_induction content line with
  | case1 => simp [commentMark]
  | case2 rest => simp [commentMark]
  | case3 c rest hne ih =>
      rw [List.infix_cons_iff]
      rintro (hhead | hinside)
      · obtain ⟨hc, hrest⟩ := List.cons_prefix_cons.mp hhead
        obtain ⟨tail, rfl⟩ := hrest.trans (content_prefix_self rest)
        exact hne tail hc.symm rfl
      · exact ih hinside

/-- No comment opens across a blank. -/
theorem commentMark_not_infix_intercalate {ws : List (List Char)}
    (h : ∀ w ∈ ws, ¬ commentMark <:+: w) : ¬ commentMark <:+: [' '].intercalate ws := by
  induction ws with
  | nil => simp [commentMark]
  | cons w ws ih =>
      obtain ⟨hw, hws⟩ := List.forall_mem_cons.mp h
      cases ws with
      | nil => rwa [List.intercalate_singleton]
      | cons w' ws =>
          rw [List.intercalate_cons_cons, List.append_assoc, List.singleton_append,
            List.infix_append_iff_ne_nil]
          rintro (hinside | hinside | ⟨l₁, l₂, hne₁, hne₂, hmark, -, hhead⟩)
          · exact hw hinside
          · rcases List.infix_cons_iff.mp hinside with hhead | hinside
            · simp [commentMark] at hhead
            · exact ih hws hinside
          · -- the second half would begin with the blank
            obtain ⟨c, l₂, rfl⟩ := List.exists_cons_of_ne_nil hne₂
            obtain ⟨rfl, -⟩ := List.cons_prefix_cons.mp hhead
            have hblank : ' ' ∈ commentMark := by rw [hmark]; simp
            exact absurd hblank (by decide)

/-- A word of a line in front of its comment. -/
structure IsWord (w : String) : Prop where
  ne_nil : w.toList ≠ []
  isBlank_eq_false : ∀ c ∈ w.toList, Text.isBlank c = false
  no_comment : ¬ commentMark <:+: w.toList

theorem isWord_of_mem_wordsOf {line : List Char} {w : String} (h : w ∈ wordsOf line) :
    IsWord w := by
  obtain ⟨chars, hchars, rfl⟩ := List.mem_map.mp h
  refine ⟨?_, ?_, ?_⟩ <;> rw [String.toList_ofList]
  · exact Text.ne_nil_of_mem_words hchars
  · exact Text.isBlank_of_mem_words hchars
  · intro hinside
    exact commentMark_not_infix_content line (hinside.trans (Text.infix_of_mem_words hchars))

theorem wordsOf_intercalate {ws : List String} (h : ∀ w ∈ ws, IsWord w) :
    wordsOf (" ".intercalate ws).toList = ws := by
  have hblank : " ".toList = [' '] := rfl
  rw [wordsOf, String.toList_intercalate, hblank, content_eq_self, Text.words_intercalate]
  · simp
  · simpa using fun w hw => (h w hw).ne_nil
  · simpa using fun w hw => (h w hw).isBlank_eq_false
  · apply commentMark_not_infix_intercalate
    simpa using fun w hw => (h w hw).no_comment

theorem IsWord.not_mem_of_isBlank {w : String} (hw : IsWord w) {c : Char}
    (hc : Text.isBlank c = true) : c ∉ w.toList := by
  intro hmem
  rw [hw.isBlank_eq_false c hmem] at hc
  cases hc

end Line

end BreakRules
