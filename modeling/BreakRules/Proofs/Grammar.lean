import BreakRules.Proofs.Lines

/-!
# The grammar of lines

`Line.Shape words line` lists the shapes of a well-formed line that is no label,
without an order in which they are tried. `Line.ofWords` reads exactly these
shapes, and labels where the last word ends with a colon:
`Line.ofWords_eq_ok_iff`.

`Line.Legal` is what a line that was read guarantees about its names. A name
that ends its line never ends with a colon, because the line would have been a
label; this is what lets a clause be written and read again: `Line.read_clause`.
-/

namespace BreakRules

theorem map_eq_ok_iff {ε α β : Type} {x : Except ε α} {f : α → β} {b : β} :
    f <$> x = .ok b ↔ ∃ a, x = .ok a ∧ f a = b := by
  cases x <;> simp [Functor.map, Except.map]

theorem bind_eq_ok_iff {ε α β : Type} {x : Except ε α} {f : α → Except ε β} {b : β} :
    x >>= f = .ok b ↔ ∃ a, x = .ok a ∧ f a = .ok b := by
  cases x <;> simp [bind, Except.bind]

namespace Line

/-- A word that can stand in the place of a name. -/
def Allowed (word : String) : Prop :=
  word ∉ reserved ∧ word ≠ wildcard

instance (word : String) : Decidable (Allowed word) :=
  inferInstanceAs (Decidable (_ ∧ _))

theorem allowed_iff {word : String} : Allowed word ↔ word ∉ ["-", "x", "->", ":", "."] := by
  simp [Allowed, reserved, arrow, wildcard, and_assoc]

theorem readName_eq_ok_iff {word name : String} :
    readName word = .ok name ↔ name = word ∧ Allowed word := by
  unfold readName Allowed
  split
  · simp_all
  · split
    · simp_all
    · simp_all [eq_comm]

theorem Allowed.readName {word : String} (h : Allowed word) : readName word = .ok word :=
  readName_eq_ok_iff.mpr ⟨rfl, h⟩

theorem Allowed.ne_arrow {word : String} (h : Allowed word) : word ≠ arrow := by
  rintro rfl
  exact h.1 (by decide)

theorem Allowed.ofSymbol?_eq_none {word : String} (h : Allowed word) :
    Verdict.ofSymbol? word = none := by
  rw [Option.eq_none_iff_forall_ne_some]
  intro v hv
  rw [Verdict.ofSymbol?_eq_some_iff] at hv
  subst hv
  exact h.1 (by cases v <;> decide)

end Line

namespace Side

/-- The wildcard, or a name that is allowed. -/
def Allowed : Side → Prop
  | any => True
  | name n => Line.Allowed n

theorem Allowed.text_ne_arrow {side : Side} (h : side.Allowed) : side.text ≠ arrow := by
  cases side with
  | any => decide
  | name n => exact Line.Allowed.ne_arrow h

theorem Allowed.ofSymbol?_text {side : Side} (h : side.Allowed) :
    Verdict.ofSymbol? side.text = none := by
  cases side with
  | any => decide
  | name n => exact Line.Allowed.ofSymbol?_eq_none h

end Side

theorem Verdict.symbol_ne_arrow (v : Verdict) : v.symbol ≠ arrow := by
  cases v <;> decide

namespace Line

theorem readSide_eq_ok_iff {word : String} {side : Side} :
    readSide word = .ok side ↔ word = side.text ∧ side.Allowed := by
  unfold readSide
  split
  · next hword =>
      subst hword
      cases side with
      | any => simp [Side.text, Side.Allowed]
      | name n =>
          have hn : ¬ (wildcard = n ∧ Allowed n) := fun h => h.2.2 h.1.symm
          simpa [Side.text, Side.Allowed] using hn
  · next hword =>
      simp only [map_eq_ok_iff, readName_eq_ok_iff]
      cases side with
      | any => simp [Side.text, hword]
      | name n =>
          constructor
          · rintro ⟨m, ⟨rfl, hm⟩, heq⟩
            cases heq
            exact ⟨rfl, hm⟩
          · rintro ⟨rfl, hn⟩
            exact ⟨_, ⟨rfl, hn⟩, rfl⟩

theorem readSide_text {side : Side} (h : side.Allowed) : readSide side.text = .ok side :=
  readSide_eq_ok_iff.mpr ⟨rfl, h⟩

/-! ### Shapes -/

/-- The shapes of a line that is no label. -/
inductive Shape : List String → Line → Prop where
  | empty : Shape [] .empty
  | start {name : String} (hname : Allowed name) : Shape [arrow, name] (.start name)
  | token {name : String} (hname : Allowed name) : Shape [name] (.token name)
  | rename {source target : String} (hsource : Allowed source) (htarget : Allowed target) :
      Shape [source, arrow, target] (.rule (.rename source target))
  | transition {lhs token : Side} {next : String} (hlhs : lhs.Allowed) (htoken : token.Allowed)
      (hnext : Allowed next) :
      Shape [lhs.text, token.text, arrow, next] (.rule (.transition lhs token next))
  /-- Both sides may be left out. -/
  | decision {lhs rhs : Option Side} {verdict : Verdict} (hlhs : ∀ side ∈ lhs, side.Allowed)
      (hrhs : ∀ side ∈ rhs, side.Allowed) :
      Shape (lhs.toList.map (·.text) ++ verdict.symbol :: rhs.toList.map (·.text))
        (.rule (.decision (lhs.getD .any) verdict (rhs.getD .any)))

theorem shape_of_readArrow {words : List String} {clause : Clause}
    (h : readArrow words = .ok clause) : Shape words (.rule clause) := by
  unfold readArrow at h
  split at h
  · split at h
    · next hmiddle =>
        obtain ⟨source, hreadSource, htail⟩ := bind_eq_ok_iff.mp h
        obtain ⟨target, hreadTarget, hclause⟩ := bind_eq_ok_iff.mp htail
        obtain ⟨rfl, hsource⟩ := readName_eq_ok_iff.mp hreadSource
        obtain ⟨rfl, htarget⟩ := readName_eq_ok_iff.mp hreadTarget
        cases hclause
        rw [hmiddle]
        exact .rename hsource htarget
    · cases h
  · split at h
    · next hmiddle =>
        obtain ⟨lhs, hreadLhs, htail⟩ := bind_eq_ok_iff.mp h
        obtain ⟨token, hreadToken, htail'⟩ := bind_eq_ok_iff.mp htail
        obtain ⟨next, hreadNext, hclause⟩ := bind_eq_ok_iff.mp htail'
        obtain ⟨rfl, hlhs⟩ := readSide_eq_ok_iff.mp hreadLhs
        obtain ⟨rfl, htoken⟩ := readSide_eq_ok_iff.mp hreadToken
        obtain ⟨rfl, hnext⟩ := readName_eq_ok_iff.mp hreadNext
        cases hclause
        rw [hmiddle]
        exact .transition hlhs htoken hnext
    · cases h
  · cases h

/-- The right side of a decision may be left out. -/
theorem exists_of_readRight {words : List String} {side : Side} (h : readRight words = .ok side) :
    ∃ rhs : Option Side, words = rhs.toList.map (·.text) ∧ (∀ side ∈ rhs, side.Allowed) ∧
      side = rhs.getD .any := by
  unfold readRight at h
  split at h
  · cases h
    exact ⟨none, rfl, by simp, rfl⟩
  · obtain ⟨rfl, hside⟩ := readSide_eq_ok_iff.mp h
    exact ⟨some side, rfl, by simpa using hside, rfl⟩
  · cases h

theorem exists_of_readVerdict {lhs : Side} {words : List String} {clause : Clause}
    (h : readVerdict lhs words = .ok clause) :
    ∃ (verdict : Verdict) (rhs : Option Side),
      words = verdict.symbol :: rhs.toList.map (·.text) ∧ (∀ side ∈ rhs, side.Allowed) ∧
        clause = .decision lhs verdict (rhs.getD .any) := by
  unfold readVerdict at h
  split at h
  · cases h
  · next word rest =>
      split at h
      · next verdict hverdict =>
          rw [Verdict.ofSymbol?_eq_some_iff] at hverdict
          obtain ⟨side, hright, rfl⟩ := map_eq_ok_iff.mp h
          obtain ⟨rhs, rfl, hrhs, rfl⟩ := exists_of_readRight hright
          exact ⟨verdict, rhs, by rw [hverdict], hrhs, rfl⟩
      · cases h

theorem shape_of_readDecision {words : List String} {clause : Clause}
    (h : readDecision words = .ok clause) : Shape words (.rule clause) := by
  unfold readDecision at h
  split at h
  · cases h
  · next first rest =>
      split at h
      · obtain ⟨verdict, rhs, hwords, hrhs, rfl⟩ := exists_of_readVerdict h
        rw [hwords]
        exact @Shape.decision none rhs verdict (by simp) hrhs
      · obtain ⟨side, hread, hverdict⟩ := bind_eq_ok_iff.mp h
        obtain ⟨rfl, hside⟩ := readSide_eq_ok_iff.mp hread
        obtain ⟨verdict, rhs, rfl, hrhs, rfl⟩ := exists_of_readVerdict hverdict
        exact @Shape.decision (some side) rhs verdict (by simpa using hside) hrhs

theorem readRight_text {rhs : Option Side} (h : ∀ side ∈ rhs, side.Allowed) :
    readRight (rhs.toList.map (·.text)) = .ok (rhs.getD .any) := by
  cases rhs with
  | none => rfl
  | some side => exact readSide_text (h side rfl)

theorem readVerdict_text (lhs : Side) (verdict : Verdict) {rhs : Option Side}
    (h : ∀ side ∈ rhs, side.Allowed) :
    readVerdict lhs (verdict.symbol :: rhs.toList.map (·.text)) =
      .ok (.decision lhs verdict (rhs.getD .any)) := by
  simp only [readVerdict, Verdict.ofSymbol?_symbol, readRight_text h]
  rfl

theorem readDecision_text {lhs rhs : Option Side} (verdict : Verdict)
    (hlhs : ∀ side ∈ lhs, side.Allowed) (hrhs : ∀ side ∈ rhs, side.Allowed) :
    readDecision (lhs.toList.map (·.text) ++ verdict.symbol :: rhs.toList.map (·.text)) =
      .ok (.decision (lhs.getD .any) verdict (rhs.getD .any)) := by
  cases lhs with
  | none =>
      simp only [Option.toList_none, List.map_nil, List.nil_append, readDecision,
        Verdict.ofSymbol?_symbol]
      exact readVerdict_text .any verdict hrhs
  | some side =>
      have hside : side.Allowed := hlhs side rfl
      simp only [Option.toList_some, List.map_cons, List.map_nil, List.cons_append,
        List.nil_append, readDecision, hside.ofSymbol?_text, readSide_text hside]
      exact readVerdict_text side verdict hrhs

theorem arrow_not_mem_decision {lhs rhs : Option Side} (verdict : Verdict)
    (hlhs : ∀ side ∈ lhs, side.Allowed) (hrhs : ∀ side ∈ rhs, side.Allowed) :
    arrow ∉ lhs.toList.map (·.text) ++ verdict.symbol :: rhs.toList.map (·.text) := by
  have hside : ∀ sides : Option Side, (∀ side ∈ sides, side.Allowed) →
      arrow ∉ sides.toList.map (·.text) := by
    intro sides hsides hmem
    obtain ⟨side, hmem, htext⟩ := List.mem_map.mp hmem
    exact (hsides side (by simpa using hmem)).text_ne_arrow htext
  simp only [List.mem_append, List.mem_cons, not_or]
  exact ⟨hside lhs hlhs, verdict.symbol_ne_arrow.symm, hside rhs hrhs⟩

theorem ofWords_decision {lhs rhs : Option Side} {verdict : Verdict}
    (hlhs : ∀ side ∈ lhs, side.Allowed) (hrhs : ∀ side ∈ rhs, side.Allowed)
    (hcolon : (lhs.toList.map (·.text) ++ verdict.symbol :: rhs.toList.map (·.text)).getLast?.any
      endsWithColon = false) :
    ofWords (lhs.toList.map (·.text) ++ verdict.symbol :: rhs.toList.map (·.text)) =
      .ok (.rule (.decision (lhs.getD .any) verdict (rhs.getD .any))) := by
  have harrow := arrow_not_mem_decision verdict hlhs hrhs
  have hread := readDecision_text verdict hlhs hrhs
  -- a single word is the symbol of the verdict, so it is not taken for a token
  have hsingle : ∀ first rest,
      lhs.toList.map (·.text) ++ verdict.symbol :: rhs.toList.map (·.text) = first :: rest →
      (rest.isEmpty && (Verdict.ofSymbol? first).isNone) = false := by
    intro first rest hwords
    cases lhs with
    | none =>
        obtain ⟨rfl, -⟩ := List.cons.inj hwords
        simp
    | some side =>
        obtain ⟨-, rfl⟩ := List.cons.inj hwords
        simp
  generalize lhs.toList.map (·.text) ++ verdict.symbol :: rhs.toList.map (·.text) = words at *
  cases words with
  | nil => cases hread
  | cons first rest =>
      have hfirst : first ≠ arrow := fun h => harrow (h ▸ List.mem_cons_self)
      simp only [ofWords, hcolon, hsingle first rest rfl, List.contains_iff_mem, harrow, hfirst,
        hread, if_false, Bool.false_eq_true]
      rfl

/-- Without a colon at the end, a line is read exactly if it has a shape. -/
theorem ofWords_eq_ok_iff {words : List String} {line : Line}
    (hcolon : words.getLast?.any endsWithColon = false) :
    ofWords words = .ok line ↔ Shape words line := by
  constructor
  · intro h
    unfold ofWords at h
    split at h
    · cases h
      exact .empty
    · next first rest =>
        rw [hcolon] at h
        simp only [Bool.false_eq_true, if_false] at h
        split at h
        · next hfirst =>
            subst hfirst
            split at h
            · obtain ⟨name, hread, rfl⟩ := map_eq_ok_iff.mp h
              obtain ⟨rfl, hname⟩ := readName_eq_ok_iff.mp hread
              exact .start hname
            · cases h
        · split at h
          · next hsingle =>
              obtain ⟨name, hread, rfl⟩ := map_eq_ok_iff.mp h
              obtain ⟨rfl, hname⟩ := readName_eq_ok_iff.mp hread
              have hrest : rest = [] := by simp_all
              rw [hrest]
              exact .token hname
          · split at h
            · obtain ⟨clause, hread, rfl⟩ := map_eq_ok_iff.mp h
              exact shape_of_readArrow hread
            · obtain ⟨clause, hread, rfl⟩ := map_eq_ok_iff.mp h
              exact shape_of_readDecision hread
  · intro h
    cases h with
    | empty => rfl
    | start hname =>
        simp only [ofWords, hcolon, hname.readName]
        rfl
    | token hname =>
        simp only [ofWords, hcolon, hname.readName, hname.ofSymbol?_eq_none]
        simp [hname.ne_arrow, Functor.map, Except.map]
    | rename hsource htarget =>
        simp only [ofWords, hcolon, readArrow, hsource.readName, htarget.readName]
        simp [hsource.ne_arrow, Functor.map, Except.map, bind, Except.bind, pure, Except.pure]
    | transition hlhs htoken hnext =>
        simp only [ofWords, hcolon, readArrow, readSide_text hlhs, readSide_text htoken,
          hnext.readName]
        simp [hlhs.text_ne_arrow, Functor.map, Except.map, bind, Except.bind, pure, Except.pure]
    | decision hlhs hrhs => exact ofWords_decision hlhs hrhs hcolon

/-- With a colon at the end, a line is read as a label. -/
theorem ofWords_of_endsWithColon {words : List String}
    (hcolon : words.getLast?.any endsWithColon = true) : ofWords words = readLabel words := by
  cases words with
  | nil => cases hcolon
  | cons first rest => exact if_pos hcolon

theorem readLabel_eq_ok_iff {words : List String} {line : Line} :
    readLabel words = .ok line ↔ labelName words ≠ "" ∧ line = .label (labelName words) := by
  by_cases hname : labelName words = ""
  · simp [readLabel, hname]
  · simp [readLabel, hname, eq_comm]

/-! ### Names in their places -/

/-- A name of a line that was read. -/
structure IsName (name : String) : Prop extends IsWord name where
  allowed : Allowed name

/-- A name at the end of a line that was read. -/
structure IsLastName (name : String) : Prop extends IsName name where
  endsWithColon_eq_false : endsWithColon name = false

end Line

def Clause.words : Clause → List String
  | rename source target => [source, arrow, target]
  | transition lhs token next => [lhs.text, token.text, arrow, next]
  | decision lhs verdict rhs => [lhs.text, verdict.symbol, rhs.text]

theorem Clause.text_eq_intercalate (clause : Clause) :
    clause.text = " ".intercalate clause.words := by
  cases clause <;>
    simp [text, words, String.intercalate_cons_cons, String.append_assoc]

/-- The names of a clause are names, and the last one can end a line. -/
def Clause.Legal : Clause → Prop
  | rename source target => Line.IsName source ∧ Line.IsLastName target
  | transition lhs token next =>
      (∀ n ∈ lhs.name?, Line.IsName n) ∧ (∀ n ∈ token.name?, Line.IsName n) ∧
        Line.IsLastName next
  | decision lhs _ rhs =>
      (∀ n ∈ lhs.name?, Line.IsName n) ∧ ∀ n ∈ rhs.name?, Line.IsLastName n

namespace Line

/-- What a line that was read guarantees about its names. -/
def Legal : Line → Prop
  | empty => True
  | label _ => True
  | start name => IsLastName name
  | token name => IsLastName name
  | rule clause => clause.Legal

theorem isName_of_mem_name? {side : Side} (hword : IsWord side.text) (hside : side.Allowed) :
    ∀ n ∈ side.name?, IsName n := by
  cases side with
  | any => simp [Side.name?]
  | name n =>
      intro m hm
      obtain rfl : n = m := by simpa [Side.name?] using hm
      exact ⟨hword, hside⟩

theorem Shape.legal {words : List String} {line : Line} (h : Shape words line)
    (hwords : ∀ w ∈ words, IsWord w) (hcolon : words.getLast?.any endsWithColon = false) :
    line.Legal := by
  cases h with
  | empty => trivial
  | start hname => exact ⟨⟨hwords _ (by simp), hname⟩, by simpa using hcolon⟩
  | token hname => exact ⟨⟨hwords _ (by simp), hname⟩, by simpa using hcolon⟩
  | rename hsource htarget =>
      exact ⟨⟨hwords _ (by simp), hsource⟩, ⟨⟨hwords _ (by simp), htarget⟩, by simpa using hcolon⟩⟩
  | transition hlhs htoken hnext =>
      exact ⟨isName_of_mem_name? (hwords _ (by simp)) hlhs,
        isName_of_mem_name? (hwords _ (by simp)) htoken,
        ⟨⟨hwords _ (by simp), hnext⟩, by simpa using hcolon⟩⟩
  | @decision lhs rhs verdict hlhs hrhs =>
      constructor
      · cases lhs with
        | none => simp [Side.name?]
        | some side => exact isName_of_mem_name? (hwords _ (by simp)) (hlhs side rfl)
      · cases rhs with
        | none => simp [Side.name?]
        | some side =>
            intro n hn
            have hlast : endsWithColon side.text = false := by simpa using hcolon
            refine ⟨isName_of_mem_name? (hwords _ (by simp)) (hrhs side rfl) n hn, ?_⟩
            cases side with
            | any => simp [Side.name?] at hn
            | name m =>
                obtain rfl : m = n := by simpa [Side.name?] using hn
                exact hlast

theorem legal_of_read {text : List Char} {line : Line} (h : read text = .ok line) :
    line.Legal := by
  cases hcolon : (wordsOf text).getLast?.any endsWithColon with
  | false =>
      have hshape := (ofWords_eq_ok_iff hcolon).mp h
      exact hshape.legal (fun w hw => isWord_of_mem_wordsOf hw) hcolon
  | true =>
      rw [read, ofWords_of_endsWithColon hcolon] at h
      obtain ⟨-, rfl⟩ := readLabel_eq_ok_iff.mp h
      trivial

/-! ### Reading a line that was written -/

theorem isWord_arrow : IsWord arrow :=
  ⟨by decide, by simp [arrow, Text.isBlank], by decide⟩

theorem isWord_symbol (v : Verdict) : IsWord v.symbol := by
  cases v <;> exact ⟨by decide, by simp [Verdict.symbol, Text.isBlank], by decide⟩

theorem isWord_text {side : Side} (h : ∀ n ∈ side.name?, IsName n) : IsWord side.text := by
  cases side with
  | any => exact ⟨by decide, by simp [Side.text, wildcard, Text.isBlank], by decide⟩
  | name n => exact (h n rfl).toIsWord

theorem allowed_of_isName {side : Side} (h : ∀ n ∈ side.name?, IsName n) : side.Allowed := by
  cases side with
  | any => trivial
  | name n => exact (h n rfl).allowed

theorem read_intercalate (words : List String) {line : Line}
    (hwords : ∀ w ∈ words, IsWord w) (hcolon : words.getLast?.any endsWithColon = false)
    (h : Shape words line) : read (" ".intercalate words).toList = .ok line := by
  rw [read, wordsOf_intercalate hwords]
  exact (ofWords_eq_ok_iff hcolon).mpr h

theorem read_token {name : String} (h : IsLastName name) :
    read name.toList = .ok (.token name) := by
  have hread := read_intercalate [name] (by simpa using h.toIsWord)
    (by simpa using h.endsWithColon_eq_false) (.token h.allowed)
  simpa using hread

theorem read_start {name : String} (h : IsLastName name) :
    read (arrow ++ " " ++ name).toList = .ok (.start name) := by
  have hread := read_intercalate [arrow, name] (by simp [isWord_arrow, h.toIsWord])
    (by simpa using h.endsWithColon_eq_false) (.start h.allowed)
  simpa [String.intercalate_cons_cons] using hread

end Line

namespace Clause

theorem Legal.isWord {clause : Clause} (h : clause.Legal) : ∀ w ∈ clause.words, Line.IsWord w := by
  cases clause with
  | rename source target =>
      obtain ⟨hsource, htarget⟩ := h
      simp [words, Line.isWord_arrow, hsource.toIsWord, htarget.toIsWord]
  | transition lhs token next =>
      obtain ⟨hlhs, htoken, hnext⟩ := h
      simp [words, Line.isWord_arrow, Line.isWord_text hlhs, Line.isWord_text htoken,
        hnext.toIsWord]
  | decision lhs verdict rhs =>
      obtain ⟨hlhs, hrhs⟩ := h
      have hname : ∀ n ∈ rhs.name?, Line.IsName n := fun n hn => (hrhs n hn).toIsName
      simp [words, Line.isWord_symbol, Line.isWord_text hlhs, Line.isWord_text hname]

theorem Legal.endsWithColon {clause : Clause} (h : clause.Legal) :
    clause.words.getLast?.any Line.endsWithColon = false := by
  cases clause with
  | rename source target => simpa [words] using h.2.endsWithColon_eq_false
  | transition lhs token next => simpa [words] using h.2.2.endsWithColon_eq_false
  | decision lhs verdict rhs =>
      have hrhs : Line.endsWithColon rhs.text = false := by
        cases rhs with
        | any => decide
        | name n => exact (h.2 n rfl).endsWithColon_eq_false
      simpa [words] using hrhs

theorem Legal.shape {clause : Clause} (h : clause.Legal) :
    Line.Shape clause.words (.rule clause) := by
  cases clause with
  | rename source target => exact .rename h.1.allowed h.2.allowed
  | transition lhs token next =>
      exact .transition (Line.allowed_of_isName h.1) (Line.allowed_of_isName h.2.1) h.2.2.allowed
  | decision lhs verdict rhs =>
      have hrhs : rhs.Allowed := Line.allowed_of_isName fun n hn => (h.2 n hn).toIsName
      exact @Line.Shape.decision (some lhs) (some rhs) verdict
        (by simpa using Line.allowed_of_isName h.1) (by simpa using hrhs)

end Clause

/-- A clause is read as it is written. -/
theorem Line.read_clause {clause : Clause} (h : clause.Legal) :
    read clause.text.toList = .ok (.rule clause) := by
  rw [clause.text_eq_intercalate]
  exact read_intercalate _ h.isWord h.endsWithColon h.shape

end BreakRules
