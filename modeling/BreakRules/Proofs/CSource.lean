import BreakRules.Header
import BreakRules.Proofs.Lines
import Mathlib.Tactic.Tauto

/-!
# Reading C source

`CSource.tokens` reads a text as a C compiler does up to comments: a backslash
and the line feed behind it are deleted, then every comment from two slashes up
to the end of its line is dropped, and what remains is cut into words and marks.

A line that ends with a backslash therefore goes on in the next one, and if the
backslash stands in a comment, the next line is part of the comment. `shown`
says this line by line, and `tokens_intercalate_lines` that it is what is read. No token
is lost exactly if no line is continued: `length_shown_lt`.
-/

namespace BreakRules.CSource

/-- The text without the backslashes in front of line feeds and these line feeds. -/
def splice : List Char → List Char
  | [] => []
  | '\\' :: '\n' :: rest => splice rest
  | c :: rest => c :: splice rest

/-- The text without its comments. `inside` says whether it begins in one. -/
def uncomment : Bool → List Char → List Char
  | _, [] => []
  | true, '\n' :: rest => '\n' :: uncomment false rest
  | true, _ :: rest => uncomment true rest
  | false, '/' :: '/' :: rest => uncomment true rest
  | false, c :: rest => c :: uncomment false rest

/-- An identifier, a keyword or a number, or a single other character. -/
inductive Token where
  | word (w : String)
  | mark (c : Char)
deriving DecidableEq, Repr

def isSpace (c : Char) : Bool :=
  c ∈ [' ', '\t', '\n', '\x0b', '\x0c', '\r']

/-- The token of a word that has ended, if it has begun. -/
def flush (word : List Char) : List Token :=
  if word = [] then [] else [.word (.ofList word)]

/-- The tokens of a text behind the characters of a word. -/
def tokensFrom (word : List Char) : List Char → List Token
  | [] => flush word
  | c :: rest =>
      if Header.isIdentifierChar c then tokensFrom (word ++ [c]) rest
      else flush word ++ ((if isSpace c then [] else [.mark c]) ++ tokensFrom [] rest)

def tokens (text : String) : List Token :=
  tokensFrom [] (uncomment false (splice text.toList))

/-! ### Characters -/

theorem splice_cons {c : Char} {rest : List Char} (h : c = '\\' → rest.head? ≠ some '\n') :
    splice (c :: rest) = c :: splice rest := by
  rw [splice.eq_def]
  split
  · next heq => cases heq
  · next heq =>
      obtain ⟨rfl, rfl⟩ := List.cons.inj heq
      exact absurd rfl (h rfl)
  · next heq =>
      obtain ⟨rfl, rfl⟩ := List.cons.inj heq
      rfl

theorem splice_append {l rest : List Char} (hl : '\n' ∉ l)
    (h : l.getLast? = some '\\' → rest.head? ≠ some '\n') :
    splice (l ++ rest) = l ++ splice rest := by
  induction l with
  | nil => rfl
  | cons c l ih =>
      have hl' : '\n' ∉ l := fun hmem => hl (List.mem_cons_of_mem _ hmem)
      cases l with
      | nil => exact splice_cons fun hc => h (by rw [hc]; rfl)
      | cons d l =>
          have hd : d ≠ '\n' := fun heq => hl' (heq ▸ List.mem_cons_self)
          have hlast : (d :: l).getLast? = some '\\' → rest.head? ≠ some '\n' := by
            rwa [List.getLast?_cons_cons] at h
          rw [List.cons_append, splice_cons (by simpa using fun _ => hd), ih hl' hlast]
          rfl

theorem uncomment_false_append {code : List Char} (h : '/' ∉ code) (rest : List Char) :
    uncomment false (code ++ rest) = code ++ uncomment false rest := by
  induction code with
  | nil => rfl
  | cons c code ih =>
      have hc : c ≠ '/' := fun heq => h (heq ▸ List.mem_cons_self)
      have hcode : '/' ∉ code := fun hmem => h (List.mem_cons_of_mem _ hmem)
      rw [List.cons_append, uncomment, ih hcode, List.cons_append]
      simp [hc]

theorem uncomment_true_append {l : List Char} (h : '\n' ∉ l) (rest : List Char) :
    uncomment true (l ++ rest) = uncomment true rest := by
  induction l with
  | nil => rfl
  | cons c l ih =>
      have hc : c ≠ '\n' := fun heq => h (heq ▸ List.mem_cons_self)
      have hl : '\n' ∉ l := fun hmem => h (List.mem_cons_of_mem _ hmem)
      rw [List.cons_append, uncomment, ih hl]
      simp [hc]

/-! ### Tokens -/

@[simp] theorem flush_nil : flush [] = [] := rfl

theorem tokensFrom_word {chars : List Char} (h : ∀ c ∈ chars, Header.isIdentifierChar c = true)
    (word rest : List Char) :
    tokensFrom word (chars ++ rest) = tokensFrom (word ++ chars) rest := by
  induction chars generalizing word with
  | nil => simp
  | cons c chars ih =>
      obtain ⟨hc, hchars⟩ := List.forall_mem_cons.mp h
      rw [List.cons_append, tokensFrom, if_pos hc, ih hchars, List.append_assoc,
        List.singleton_append]

theorem tokensFrom_space {c : Char} (h : isSpace c = true) (word rest : List Char) :
    tokensFrom word (c :: rest) = flush word ++ tokensFrom [] rest := by
  have hword : ¬ Header.isIdentifierChar c = true := by
    simp only [isSpace, decide_eq_true_eq, List.mem_cons, List.not_mem_nil, or_false] at h
    rcases h with rfl | rfl | rfl | rfl | rfl | rfl <;> decide
  rw [tokensFrom, if_neg hword, if_pos h, List.nil_append]

theorem tokensFrom_spaces {spaces : List Char} (h : ∀ c ∈ spaces, isSpace c = true)
    (rest : List Char) : tokensFrom [] (spaces ++ rest) = tokensFrom [] rest := by
  induction spaces with
  | nil => rfl
  | cons c spaces ih =>
      obtain ⟨hc, hspaces⟩ := List.forall_mem_cons.mp h
      rw [List.cons_append, tokensFrom_space hc, ih hspaces, flush_nil, List.nil_append]

/-- Tokens in front of a text that ends the word before it. -/
theorem tokensFrom_append {rest : List Char} {ts : List Token}
    (h : ∀ word, tokensFrom word rest = flush word ++ ts) (word code : List Char) :
    tokensFrom word (code ++ rest) = tokensFrom word code ++ ts := by
  induction code generalizing word with
  | nil => exact h word
  | cons c code ih =>
      rw [List.cons_append, tokensFrom, tokensFrom]
      split
      · exact ih _
      · rw [ih, List.append_assoc, List.append_assoc]

/-! ### Lines -/

/-- A text that is neither a comment nor goes on in another line. -/
def IsCode (text : List Char) : Prop :=
  '\n' ∉ text ∧ '\\' ∉ text ∧ '/' ∉ text

instance (text : List Char) : Decidable (IsCode text) :=
  inferInstanceAs (Decidable (_ ∧ _ ∧ _))

@[simp] theorem isCode_append {l l' : List Char} : IsCode (l ++ l') ↔ IsCode l ∧ IsCode l' := by
  simp only [IsCode, List.mem_append]
  tauto

/-- A line: code, and what follows the two slashes of its comment. -/
structure SourceLine where
  code : List Char
  comment : Option (List Char)

namespace SourceLine

/-- A line cut where its comment begins. -/
def ofLine : List Char → SourceLine
  | [] => ⟨[], none⟩
  | '/' :: '/' :: body => ⟨[], some body⟩
  | c :: rest => ⟨c :: (ofLine rest).code, (ofLine rest).comment⟩

def text (l : SourceLine) : List Char :=
  l.code ++ (l.comment.map fun body => '/' :: '/' :: body).getD []

def tokens (l : SourceLine) : List Token :=
  tokensFrom [] l.code

def continues (l : SourceLine) : Bool :=
  l.comment.any (·.getLast? == some '\\')

/-- The line is one line, and no slash and no backslash stands in its code. -/
structure Plain (l : SourceLine) : Prop where
  isCode : IsCode l.code
  newline_not_mem : ∀ body ∈ l.comment, '\n' ∉ body

end SourceLine

/-- The tokens of lines of which the first may be part of a comment. -/
def shown : Bool → List SourceLine → List Token
  | _, [] => []
  | inside, l :: ls => (if inside then [] else l.tokens) ++ shown l.continues ls

def unlines (ls : List SourceLine) : List Char :=
  Text.unlines (ls.map (·.text))

theorem unlines_cons (l : SourceLine) (ls : List SourceLine) :
    unlines (l :: ls) = l.text ++ '\n' :: unlines ls :=
  Text.unlines_cons _ _

namespace SourceLine

@[simp] theorem text_ofLine (line : List Char) : (ofLine line).text = line := by
  fun_induction ofLine line with
  | case1 => rfl
  | case2 body => rfl
  | case3 c rest _ ih => simpa [text] using ih

theorem ofLine_append {code : List Char} (h : '/' ∉ code) (rest : List Char) :
    ofLine (code ++ rest) = ⟨code ++ (ofLine rest).code, (ofLine rest).comment⟩ := by
  induction code with
  | nil => rfl
  | cons c code ih =>
      have hc : c ≠ '/' := fun heq => h (heq ▸ List.mem_cons_self)
      have hcode : '/' ∉ code := fun hmem => h (List.mem_cons_of_mem _ hmem)
      rw [List.cons_append, ofLine, ih hcode, List.cons_append]
      simp [hc]

/-- A line that is not continued ends with its line feed, comment or not. -/
theorem Plain.uncomment_splice {l : SourceLine} (hl : l.Plain) (hcont : l.continues = false)
    (inside : Bool) (ls : List SourceLine) :
    uncomment inside (splice (unlines (l :: ls))) =
      (if inside then [] else l.code) ++ '\n' :: uncomment false (splice (unlines ls)) := by
  obtain ⟨code, comment⟩ := l
  obtain ⟨⟨hnewline, hback, hslash⟩, hcomment⟩ := hl
  have hnl : splice ('\n' :: unlines ls) = '\n' :: splice (unlines ls) := splice_cons (by simp)
  cases comment with
  | none =>
      have hlast : code.getLast? ≠ some '\\' := fun h => hback (List.mem_of_getLast? h)
      have htext : text ⟨code, none⟩ = code := by simp [text]
      rw [unlines_cons, htext, splice_append hnewline (fun h => absurd h hlast), hnl]
      cases inside with
      | true => rw [uncomment_true_append hnewline]; rfl
      | false => rw [uncomment_false_append hslash]; rfl
  | some body =>
      have hbody : '\n' ∉ body := hcomment body rfl
      have htext : text ⟨code, some body⟩ = code ++ '/' :: '/' :: body := rfl
      have hmem : '\n' ∉ code ++ '/' :: '/' :: body := by simp [hnewline, hbody]
      have hlast : (code ++ '/' :: '/' :: body).getLast? ≠ some '\\' := by
        have hne : ¬ body.getLast? = some '\\' := by simpa [continues] using hcont
        cases body with
        | nil => simp
        | cons c body => simpa using hne
      rw [unlines_cons, htext, splice_append hmem (fun h => absurd h hlast), hnl]
      cases inside with
      | true => rw [uncomment_true_append hmem]; rfl
      | false =>
          rw [List.append_assoc, uncomment_false_append hslash]
          simp only [List.cons_append, uncomment, uncomment_true_append hbody]
          rfl

/-- A line that is continued makes the next one a part of its comment. -/
theorem Plain.uncomment_splice_continues {l : SourceLine} (hl : l.Plain)
    (hcont : l.continues = true) (inside : Bool) (ls : List SourceLine) :
    uncomment inside (splice (unlines (l :: ls))) =
      (if inside then [] else l.code) ++ uncomment true (splice (unlines ls)) := by
  obtain ⟨code, comment⟩ := l
  obtain ⟨⟨hnewline, hback, hslash⟩, hcomment⟩ := hl
  cases comment with
  | none => cases hcont
  | some body =>
      have hlast : body.getLast? = some '\\' := by simpa [continues] using hcont
      obtain ⟨body, rfl⟩ := List.getLast?_eq_some_iff.mp hlast
      have hbody : '\n' ∉ body := fun hmem => hcomment _ rfl (List.mem_append_left _ hmem)
      have hmem : '\n' ∉ code ++ '/' :: '/' :: body := by simp [hnewline, hbody]
      have htext : unlines (⟨code, some (body ++ ['\\'])⟩ :: ls) =
          (code ++ '/' :: '/' :: body) ++ '\\' :: '\n' :: unlines ls := by
        simp [unlines_cons, text]
      rw [htext, splice_append hmem (by simp), splice]
      cases inside with
      | true => rw [uncomment_true_append hmem]; rfl
      | false =>
          rw [List.append_assoc, uncomment_false_append hslash]
          simp only [List.cons_append, uncomment, uncomment_true_append hbody]
          rfl

end SourceLine

theorem tokensFrom_uncomment_splice {ls : List SourceLine} (hls : ∀ l ∈ ls, l.Plain)
    (inside : Bool) {word : List Char} (hword : inside = false → word = []) :
    tokensFrom word (uncomment inside (splice (unlines ls))) = flush word ++ shown inside ls := by
  induction ls generalizing inside word with
  | nil => simp [unlines, splice, uncomment, tokensFrom, shown]
  | cons l ls ih =>
      obtain ⟨hl, hls⟩ := List.forall_mem_cons.mp hls
      -- whatever follows the code of the line ends the word before it
      have hrest : ∃ rest, uncomment inside (splice (unlines (l :: ls))) =
            (if inside then [] else l.code) ++ rest ∧
          ∀ w, tokensFrom w rest = flush w ++ shown l.continues ls := by
        cases hcont : l.continues with
        | true =>
            refine ⟨_, hl.uncomment_splice_continues hcont inside ls, ?_⟩
            exact fun w => ih hls true (by simp)
        | false =>
            refine ⟨_, hl.uncomment_splice hcont inside ls, ?_⟩
            intro w
            rw [tokensFrom_space rfl, ih hls false (fun _ => rfl), flush_nil, List.nil_append]
      obtain ⟨rest, heq, hrest⟩ := hrest
      rw [heq, tokensFrom_append hrest, shown]
      cases inside with
      | true => rfl
      | false => rw [hword rfl]; rfl

/-- The lines of a text, each cut where its comment begins. -/
def sourceLines (lines : List String) : List SourceLine :=
  lines.map fun line => .ofLine line.toList

/-- What is read of a text of lines. -/
theorem tokens_intercalate_lines {lines : List String} (h : ∀ l ∈ sourceLines lines, l.Plain) :
    tokens ("".intercalate (lines.map (· ++ "\n"))) = shown false (sourceLines lines) := by
  have hlines : unlines (sourceLines lines) = Text.unlines (lines.map String.toList) := by
    simp [unlines, sourceLines, Function.comp_def]
  rw [tokens, Text.toList_intercalate_lines, ← hlines,
    tokensFrom_uncomment_splice h false (fun _ => rfl), flush_nil, List.nil_append]

/-! ### Lost tokens -/

theorem shown_eq_flatMap {ls : List SourceLine} (h : ∀ l ∈ ls, l.continues = false) :
    shown false ls = ls.flatMap (·.tokens) := by
  induction ls with
  | nil => rfl
  | cons l ls ih =>
      obtain ⟨hl, hls⟩ := List.forall_mem_cons.mp h
      simp [shown, hl, ih hls]

theorem length_shown_le (inside : Bool) (ls : List SourceLine) :
    (shown inside ls).length ≤ (ls.flatMap (·.tokens)).length := by
  induction ls generalizing inside with
  | nil => simp [shown]
  | cons l ls ih =>
      have hrest := ih l.continues
      cases inside <;> simp only [shown, List.flatMap_cons, List.length_append] <;> grind

/-- Behind every line that is continued there is a line with tokens. -/
def Guarded : List SourceLine → Prop
  | [] => True
  | l :: ls => (l.continues = true → ∃ m ∈ ls.head?, m.tokens ≠ []) ∧ Guarded ls

theorem Guarded.append {ls ls' : List SourceLine} (h : Guarded ls) (h' : Guarded ls') :
    Guarded (ls ++ ls') := by
  induction ls with
  | nil => exact h'
  | cons l ls ih =>
      refine ⟨?_, ih h.2⟩
      intro hcont
      obtain ⟨m, hm, htokens⟩ := h.1 hcont
      cases ls with
      | nil => cases hm
      | cons m' ls => exact ⟨m, hm, htokens⟩

/-- A continued line costs tokens. -/
theorem length_shown_lt {ls : List SourceLine} (hguard : Guarded ls)
    (h : ∃ l ∈ ls, l.continues = true) (inside : Bool) :
    (shown inside ls).length < (ls.flatMap (·.tokens)).length := by
  induction ls generalizing inside with
  | nil => simp at h
  | cons l ls ih =>
      have hrest : (shown l.continues ls).length < (ls.flatMap (·.tokens)).length := by
        cases hcont : l.continues with
        | true =>
            obtain ⟨m, hm, htokens⟩ := hguard.1 hcont
            cases ls with
            | nil => cases hm
            | cons m' ls =>
                obtain rfl : m' = m := by simpa using hm
                have hpos := List.length_pos_of_ne_nil htokens
                have hle := length_shown_le m'.continues ls
                simp only [shown, if_true, List.nil_append, List.flatMap_cons, List.length_append]
                omega
        | false =>
            obtain ⟨m, hm, hcont'⟩ := h
            rcases List.mem_cons.mp hm with rfl | hm
            · rw [hcont] at hcont'; cases hcont'
            · exact ih hguard.2 ⟨m, hm, hcont'⟩ false
      cases inside <;> simp only [shown, List.flatMap_cons, List.length_append] <;> grind

end BreakRules.CSource
