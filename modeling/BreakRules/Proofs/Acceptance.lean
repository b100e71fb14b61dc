import BreakRules.Proofs.Declarations
import BreakRules.Proofs.Words
import Mathlib.Data.List.DropRight

/-!
# Which texts are accepted

A line is a label if its last word ends with a colon, and has one of the shapes of
`Line.Shape` otherwise. `Line.Label` says which labels there are and which groups they
open: the colons at the end of the last word are dropped, and with them the word if
nothing else is left of it. `Line.Says` puts labels and shapes together. The words of a
line say at most one thing, and a line is read exactly if they say something
(`Line.read_eq_ok_iff`), so a text is accepted exactly if all its lines are well formed.
-/

namespace BreakRules

namespace Text

/-! ### Ends of a text -/

theorem dropEndWhile_append_of_forall {p : Char → Bool} (text : List Char) {tail : List Char}
    (h : ∀ c ∈ tail, p c = true) : dropEndWhile p (text ++ tail) = dropEndWhile p text := by
  induction tail using List.reverseRecOn with
  | nil => rw [List.append_nil]
  | append_singleton tail c ih =>
      obtain ⟨htail, hc⟩ := List.forall_mem_append.mp h
      rw [← List.append_assoc, ← ih htail]
      exact List.rdropWhile_concat_pos p _ c (hc c List.mem_cons_self)

theorem dropEndWhile_eq_self {p : Char → Bool} {text : List Char}
    (h : ∀ c ∈ text.getLast?, p c = false) : dropEndWhile p text = text := by
  cases text using List.reverseRecOn with
  | nil => rfl
  | append_singleton text c =>
      have hc : ¬ p c = true := by simpa using h c
      exact List.rdropWhile_concat_neg p text c hc

/-- Only blanks at the ends are trimmed. -/
theorem trim_append {text blanks : List Char} (hhead : ∀ c ∈ text.head?, isBlank c = false)
    (hlast : ∀ c ∈ text.getLast?, isBlank c = false) (hblanks : ∀ c ∈ blanks, isBlank c = true) :
    trim (text ++ blanks) = text := by
  cases text with
  | nil =>
      have hdrop : blanks.dropWhile isBlank = [] := List.dropWhile_eq_nil_iff.mpr hblanks
      rw [List.nil_append, trim, hdrop]
      rfl
  | cons c text =>
      have hc : ¬ isBlank c = true := by simpa using hhead c rfl
      rw [trim, List.cons_append, List.dropWhile_cons_of_neg hc, ← List.cons_append, trimEnd,
        dropEndWhile_append_of_forall _ hblanks, dropEndWhile_eq_self hlast]

/-! ### Words with blanks between them -/

theorem intercalate_concat (ws : List (List Char)) (w : List Char) :
    [' '].intercalate (ws ++ [w]) = ws.flatMap (· ++ [' ']) ++ w := by
  induction ws with
  | nil => simp
  | cons w' ws ih =>
      rw [List.cons_append, List.intercalate_cons_of_ne_nil (by simp), ih]
      simp

/-- Blanks behind all words are the blanks between them and one more. -/
theorem flatMap_blank_eq {ws : List (List Char)} (h : ws ≠ []) :
    ws.flatMap (· ++ [' ']) = [' '].intercalate ws ++ [' '] := by
  cases ws using List.reverseRecOn with
  | nil => exact absurd rfl h
  | append_singleton ws w => simp [intercalate_concat]

section Words

variable {ws : List (List Char)} (hne : ∀ w ∈ ws, w ≠ [])
  (hblank : ∀ w ∈ ws, ∀ c ∈ w, isBlank c = false)
include hne

theorem intercalate_eq_nil_iff : [' '].intercalate ws = [] ↔ ws = [] := by
  cases ws using List.reverseRecOn with
  | nil => simp
  | append_singleton ws w => simp [intercalate_concat, hne w (by simp)]

include hblank

theorem isBlank_of_head?_intercalate :
    ∀ c ∈ ([' '].intercalate ws).head?, isBlank c = false := by
  cases ws with
  | nil => simp
  | cons w ws =>
      obtain ⟨c, w, rfl⟩ := List.exists_cons_of_ne_nil (hne w List.mem_cons_self)
      have hc : isBlank c = false := hblank _ List.mem_cons_self c List.mem_cons_self
      cases ws with
      | nil => simpa using hc
      | cons w' ws => simpa [List.intercalate_cons_cons] using hc

theorem isBlank_of_getLast?_intercalate :
    ∀ c ∈ ([' '].intercalate ws).getLast?, isBlank c = false := by
  cases ws using List.reverseRecOn with
  | nil => simp
  | append_singleton ws w =>
      intro c hc
      rw [intercalate_concat, List.getLast?_append_of_ne_nil _ (hne w (by simp))] at hc
      exact hblank w (by simp) c (List.mem_of_getLast? hc)

end Words

end Text

namespace Line

/-! ### Labels -/

/-- Colons, as they stand at the end of a label. -/
def colons (n : Nat) : String :=
  .ofList (List.replicate n ':')

/-- The words of a label and the group that it opens. -/
inductive Label : List String → String → Prop where
  /-- Colons at the end of the last word. -/
  | word {words : List String} {stem : String} {n : Nat} : stem ≠ "" →
      endsWithColon stem = false →
      Label (words ++ [stem ++ colons (n + 1)]) (" ".intercalate (words ++ [stem]))
  /-- Colons for a word of their own, behind others. -/
  | marker {words : List String} {n : Nat} : words ≠ [] →
      Label (words ++ [colons (n + 1)]) (" ".intercalate words)

theorem exists_eq_append_colons (word : String) :
    ∃ stem n, word = stem ++ colons n ∧ endsWithColon stem = false := by
  have hcolon : ∀ c ∈ word.toList.rtakeWhile (· == ':'), c = ':' := by
    intro c hc
    simpa using List.mem_rtakeWhile_imp hc
  refine ⟨.ofList (word.toList.rdropWhile (· == ':')),
    (word.toList.rtakeWhile (· == ':')).length, ?_, ?_⟩
  · rw [colons, ← List.eq_replicate_of_mem hcolon, ← String.ofList_append,
      List.rdropWhile_append_rtakeWhile, String.ofList_toList]
  · rw [endsWithColon, String.toList_ofList]
    by_cases hnil : word.toList.rdropWhile (· == ':') = []
    · rw [hnil]
      rfl
    · have hlast := List.rdropWhile_last_not _ _ hnil
      rw [List.getLast?_eq_some_getLast hnil]
      simpa using hlast

theorem exists_stem_of_endsWithColon {words : List String}
    (h : words.getLast?.any endsWithColon = true) :
    ∃ front stem n, words = front ++ [stem ++ colons (n + 1)] ∧ endsWithColon stem = false := by
  cases words using List.reverseRecOn with
  | nil => cases h
  | append_singleton front last =>
      have hlast : endsWithColon last = true := by simpa using h
      obtain ⟨stem, n, rfl, hstem⟩ := exists_eq_append_colons last
      cases n with
      | zero =>
          have hempty : stem ++ colons 0 = stem := by simp [colons]
          rw [hempty, hstem] at hlast
          cases hlast
      | succ n => exact ⟨front, stem, n, rfl, hstem⟩

theorem Label.endsWithColon {words : List String} {group : String} (h : Label words group) :
    words.getLast?.any endsWithColon = true := by
  cases h <;> simp [Line.endsWithColon, colons, List.getLast?_append, List.getLast?_replicate]

/-- Nothing but the colons at its end is dropped from a label before it is trimmed. -/
theorem labelName_concat_colons (front : List String) {stem : String} (n : Nat)
    (hstem : endsWithColon stem = false) :
    labelName (front ++ [stem ++ colons n]) =
      .ofList (Text.trim ((front.map String.toList).flatMap (· ++ [' ']) ++ stem.toList)) := by
  have hblank : " ".toList = [' '] := rfl
  have hcolons : (colons n).toList = List.replicate n ':' := by simp [colons]
  have hlast : ∀ c ∈ ((front.map String.toList).flatMap (· ++ [' ']) ++ stem.toList).getLast?,
      (c == ':') = false := by
    intro c hc
    by_cases hnil : stem.toList = []
    · by_cases hfront : front.map String.toList = []
      · simp [hnil, hfront] at hc
      · rw [hnil, List.append_nil, Text.flatMap_blank_eq hfront, List.getLast?_concat] at hc
        obtain rfl : ' ' = c := Option.some.inj hc
        rfl
    · rw [List.getLast?_append_of_ne_nil _ hnil] at hc
      rw [endsWithColon, Option.mem_def.mp hc] at hstem
      simpa using hstem
  simp only [labelName, String.toList_intercalate, hblank, List.map_append, List.map_singleton,
    Text.intercalate_concat, String.toList_append, hcolons]
  rw [← List.append_assoc, Text.dropEndWhile_append_of_forall _ (by simp),
    Text.dropEndWhile_eq_self hlast]

/-- Words with blanks between them begin and end with a word. -/
theorem trim_intercalate {words : List String} (hwords : ∀ w ∈ words, IsWord w)
    (blanks : List Char) (hblanks : ∀ c ∈ blanks, Text.isBlank c = true) :
    String.ofList (Text.trim ([' '].intercalate (words.map String.toList) ++ blanks)) =
      " ".intercalate words := by
  have hne : ∀ w ∈ words.map String.toList, w ≠ [] := by
    simpa using fun w hw => (hwords w hw).ne_nil
  have hblank : ∀ w ∈ words.map String.toList, ∀ c ∈ w, Text.isBlank c = false := by
    simpa using fun w hw => (hwords w hw).isBlank_eq_false
  have hspace : [' '] = " ".toList := rfl
  rw [Text.trim_append (Text.isBlank_of_head?_intercalate hne hblank)
    (Text.isBlank_of_getLast?_intercalate hne hblank) hblanks, hspace,
    ← String.toList_intercalate, String.ofList_toList]

theorem intercalate_ne_empty {words : List String} (hwords : ∀ w ∈ words, IsWord w)
    (hne : words ≠ []) : " ".intercalate words ≠ "" := by
  have hspace : " ".toList = [' '] := rfl
  intro hempty
  have hlist := congrArg String.toList hempty
  rw [String.toList_intercalate, hspace] at hlist
  have hnil := (Text.intercalate_eq_nil_iff
    (by simpa using fun w hw => (hwords w hw).ne_nil)).mp hlist
  exact hne (List.map_eq_nil_iff.mp hnil)

theorem IsWord.of_append {stem tail : String} (h : IsWord (stem ++ tail)) (hne : stem ≠ "") :
    IsWord stem := by
  refine ⟨by simpa using hne, fun c hc => h.isBlank_eq_false c (by simp [hc]), fun hmark => ?_⟩
  refine h.no_comment (hmark.trans ?_)
  rw [String.toList_append]
  exact (List.prefix_append _ _).isInfix

/-- A label opens the group that it is read to, which has a name. -/
theorem Label.labelName_eq {words : List String} {group : String} (h : Label words group)
    (hwords : ∀ w ∈ words, IsWord w) : labelName words = group ∧ group ≠ "" := by
  cases h with
  | @word front stem n hne hstem =>
      obtain ⟨hfront, hlast⟩ := List.forall_mem_append.mp hwords
      have hparts : ∀ w ∈ front ++ [stem], IsWord w :=
        List.forall_mem_append.mpr
          ⟨hfront, List.forall_mem_singleton.mpr ((hlast _ List.mem_cons_self).of_append hne)⟩
      refine ⟨?_, intercalate_ne_empty hparts (by simp)⟩
      rw [labelName_concat_colons front (n + 1) hstem, ← trim_intercalate hparts [] (by simp),
        List.append_nil, List.map_append, List.map_singleton, Text.intercalate_concat]
  | @marker front n hne =>
      obtain ⟨hfront, -⟩ := List.forall_mem_append.mp hwords
      refine ⟨?_, intercalate_ne_empty hfront hne⟩
      have hempty : colons (n + 1) = "" ++ colons (n + 1) := String.empty_append.symm
      rw [hempty, labelName_concat_colons front (n + 1) rfl,
        ← trim_intercalate hfront [' '] (by simp [Text.isBlank]),
        Text.flatMap_blank_eq (by simpa using hne), String.toList_empty, List.append_nil]

/-- A label has a name unless it is a single word of colons. -/
theorem exists_label_iff {words : List String}
    (hcolon : words.getLast?.any endsWithColon = true) :
    (∃ group, Label words group) ↔ ¬ ∃ w, words = [w] ∧ ∀ c ∈ w.toList, c = ':' := by
  constructor
  · rintro ⟨group, hlabel⟩ ⟨w, hw, hcolons⟩
    have hsingle : words = [] ++ [w] := hw
    cases hlabel with
    | @word front stem n hne hstem =>
        -- a stem of colons would end with one
        obtain ⟨-, hlast⟩ := List.append_inj' hsingle rfl
        obtain rfl : stem ++ colons (n + 1) = w := by simpa using hlast
        have hchars : stem.toList ≠ [] := by simpa using hne
        have hcolon' : stem.toList.getLast hchars = ':' := by
          refine hcolons _ ?_
          rw [String.toList_append]
          exact List.mem_append_left _ (List.getLast_mem hchars)
        rw [Line.endsWithColon, List.getLast?_eq_some_getLast hchars, hcolon'] at hstem
        cases hstem
    | marker hne => exact hne (List.append_inj' hsingle rfl).1
  · intro hnot
    obtain ⟨front, stem, n, rfl, hstem⟩ := exists_stem_of_endsWithColon hcolon
    by_cases hempty : stem = ""
    · subst hempty
      by_cases hfront : front = []
      · subst hfront
        refine absurd ⟨_, rfl, ?_⟩ hnot
        simp [colons]
      · rw [String.empty_append]
        exact ⟨_, .marker hfront⟩
    · exact ⟨_, .word hempty hstem⟩

/-- Nothing is left of a single word of colons. -/
theorem labelName_of_colons {w : String} (h : ∀ c ∈ w.toList, c = ':') : labelName [w] = "" := by
  have hdrop : Text.dropEndWhile (· == ':') w.toList = [] :=
    Text.dropEndWhile_append_of_forall [] fun c hc => beq_iff_eq.mpr (h c hc)
  rw [labelName, String.intercalate_singleton, hdrop]
  rfl

/-! ### What a line says -/

/-- What the words of a line say: a group, if the last one ends with a colon, and what
their shape says otherwise. -/
inductive Says (words : List String) : Line → Prop where
  | label {group : String} : Label words group → Says words (.label group)
  | shape {line : Line} : words.getLast?.any endsWithColon = false → Shape words line →
      Says words line

theorem ofWords_eq_ok_iff_says {words : List String} (hwords : ∀ w ∈ words, IsWord w)
    {line : Line} : ofWords words = .ok line ↔ Says words line := by
  cases hcolon : words.getLast?.any endsWithColon with
  | false =>
      rw [ofWords_eq_ok_iff hcolon]
      constructor
      · exact .shape hcolon
      · intro h
        cases h with
        | label hlabel => cases hcolon.symm.trans hlabel.endsWithColon
        | shape _ hshape => exact hshape
  | true =>
      rw [ofWords_of_endsWithColon hcolon, readLabel_eq_ok_iff]
      constructor
      · rintro ⟨hname, rfl⟩
        by_cases hlabel : ∃ group, Label words group
        · obtain ⟨group, hlabel⟩ := hlabel
          rw [(hlabel.labelName_eq hwords).1]
          exact .label hlabel
        · obtain ⟨w, rfl, hcolons⟩ := not_not.mp (mt (exists_label_iff hcolon).mpr hlabel)
          exact absurd (labelName_of_colons hcolons) hname
      · intro h
        cases h with
        | label hlabel =>
            obtain ⟨hname, hne⟩ := hlabel.labelName_eq hwords
            rw [hname]
            exact ⟨hne, rfl⟩
        | shape hshape => cases hcolon.symm.trans hshape

theorem Says.unique {words : List String} (hwords : ∀ w ∈ words, IsWord w) {line line' : Line}
    (h : Says words line) (h' : Says words line') : line = line' := by
  rw [← ofWords_eq_ok_iff_says hwords] at h h'
  exact Except.ok.inj (h.symm.trans h')

/-- A line means what its words say. -/
def Means (text : List Char) (line : Line) : Prop :=
  ∃ words, HasWords text words ∧ Says words line

theorem read_eq_ok_iff {text : List Char} {line : Line} :
    read text = .ok line ↔ Means text line := by
  simp only [Means, hasWords_iff, exists_eq_left']
  exact ofWords_eq_ok_iff_says fun _ => isWord_of_mem_wordsOf

/-- The words of a line that is accepted: a label that is more than one word of colons,
or words that have a shape. -/
def WellFormed (words : List String) : Prop :=
  if words.getLast?.any endsWithColon then ¬ ∃ w, words = [w] ∧ ∀ c ∈ w.toList, c = ':'
  else ∃ line, Shape words line

theorem wellFormed_iff {words : List String} : WellFormed words ↔ ∃ line, Says words line := by
  unfold WellFormed
  split
  · next hcolon =>
      rw [← exists_label_iff hcolon]
      constructor
      · rintro ⟨group, hlabel⟩
        exact ⟨_, .label hlabel⟩
      · rintro ⟨line, hline⟩
        cases hline with
        | label hlabel => exact ⟨_, hlabel⟩
        | shape hshape => cases hshape.symm.trans hcolon
  · next hcolon =>
      rw [Bool.not_eq_true] at hcolon
      constructor
      · rintro ⟨line, hshape⟩
        exact ⟨line, .shape hcolon hshape⟩
      · rintro ⟨line, hline⟩
        cases hline with
        | label hlabel => cases hcolon.symm.trans hlabel.endsWithColon
        | shape _ hshape => exact ⟨line, hshape⟩

end Line

/-! ### Whole texts -/

theorem exists_forall₂_iff {α β : Type} {P : α → β → Prop} {l : List α} :
    (∃ l', List.Forall₂ P l l') ↔ ∀ a ∈ l, ∃ b, P a b := by
  induction l with
  | nil => simp
  | cons a l ih =>
      rw [List.forall_mem_cons, ← ih]
      constructor
      · rintro ⟨l', h⟩
        cases h with
        | cons hab htail => exact ⟨⟨_, hab⟩, _, htail⟩
      · rintro ⟨⟨b, hab⟩, l', htail⟩
        exact ⟨b :: l', .cons hab htail⟩

namespace RuleSet

theorem parse_eq_ok_iff_means {source : String} {R : RuleSet} :
    RuleSet.parse source = .ok R ↔
      ∃ lines, List.Forall₂ Line.Means (Text.lines source.toList) lines ∧
        R = RuleSet.ofLines lines := by
  rw [RuleSet.parse_eq_ok_iff]
  simp only [Line.read_eq_ok_iff]

/-- A text is accepted exactly if the words of all its lines are well formed. A line has
words, and only these; well-formed words say one thing only; and an accepted text is
read to what its lines mean. -/
theorem parse_accepts_well_formed (source : String) :
    ((∃ R, RuleSet.parse source = .ok R) ↔
      ∀ text ∈ Text.lines source.toList,
        ∃ words, Line.HasWords text words ∧ Line.WellFormed words) ∧
    (∀ word, Line.Allowed word ↔ word ∉ ["-", "x", "->", ":", "."]) ∧
    (∀ text, ∃! words, Line.HasWords text words) ∧
    (∀ text words, Line.HasWords text words → Line.WellFormed words →
      ∃! line, Line.Says words line) ∧
    ∀ R, RuleSet.parse source = .ok R ↔
      ∃ lines, List.Forall₂ Line.Means (Text.lines source.toList) lines ∧
        R = RuleSet.ofLines lines := by
  refine ⟨?accepted, fun word => Line.allowed_iff, fun text => ?words,
    fun text words htext hwords => ?once, fun R => parse_eq_ok_iff_means⟩
  case accepted =>
    have hmeans : ∀ text, (∃ words, Line.HasWords text words ∧ Line.WellFormed words) ↔
        ∃ line, Line.Means text line := by
      simp [Line.Means, Line.wellFormed_iff, Line.hasWords_iff]
    simp only [hmeans, parse_eq_ok_iff_means, ← exists_forall₂_iff]
    constructor
    · rintro ⟨R, lines, hlines, -⟩
      exact ⟨lines, hlines⟩
    · rintro ⟨lines, hlines⟩
      exact ⟨_, lines, hlines, rfl⟩
  case words =>
    simp only [Line.hasWords_iff]
    exact ⟨_, rfl, fun _ => Eq.symm⟩
  case once =>
    obtain rfl := Line.hasWords_iff.mp htext
    obtain ⟨line, hline⟩ := Line.wellFormed_iff.mp hwords
    exact ⟨line, hline, fun _ hother => hother.unique (fun _ => Line.isWord_of_mem_wordsOf) hline⟩

end RuleSet

/-- A group may be named for what stands in front of a colon, but not for colons alone. -/
theorem parse_accepts_well_formed_colons :
    (∀ text ∈ Text.lines strayText.toList,
        ∃ words, Line.HasWords text words ∧ Line.WellFormed words) ∧
      ¬ ∃ R, RuleSet.parse "A\n:: -- no name\n" = .ok R := by
  refine ⟨(RuleSet.parse_accepts_well_formed strayText).1.mp ⟨_, parse_strayText⟩, fun h => ?_⟩
  have hline : ":: -- no name".toList ∈ Text.lines "A\n:: -- no name\n".toList := by
    decide +kernel
  have hcolons : Line.wordsOf ":: -- no name".toList = ["::"] := by decide +kernel
  obtain ⟨words, hwords, hformed⟩ := (RuleSet.parse_accepts_well_formed _).1.mp h _ hline
  obtain rfl := hcolons.symm.trans (Line.hasWords_iff.mp hwords)
  rw [Line.WellFormed, if_pos (by decide)] at hformed
  exact hformed ⟨"::", rfl, by simp⟩

end BreakRules
