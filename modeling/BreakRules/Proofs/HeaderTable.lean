import BreakRules.Proofs.CSource
import BreakRules.Proofs.Enumerators
import BreakRules.Proofs.Names

/-!
# Headers as C source

A C compiler should find in a header an enumeration of the states, and a table
whose cells are those of the machine: `CSource.Table.Faithful`. It does exactly
if no comment is continued in the next line: `compile_header_faithful_iff`.
Comments are continued where a token, or the last label of a state, ends with a
backslash. The start is no such state, for its labels are followed by a mark.
-/

namespace BreakRules

namespace CSource

open Token (word mark)

/-! ### Tables -/

/-- An enumeration, and a table whose cells name its enumerators. -/
structure Table where
  enumerators : List (String × Nat)
  name : String
  columns : Nat
  rows : List (List (Cell String))

namespace Table

def enumeratorTokens (e : String × Nat) : List Token :=
  [word e.1, mark '=', word (toString e.2), mark ',']

def cellTokens (c : Cell String) : List Token :=
  [word (match c.verdict with
    | .split => "BREAK"
    | .join => "NO_BREAK"), mark '(', word c.next, mark ')', mark ',']

def rowTokens (row : List (Cell String)) : List Token :=
  mark '\x7b' :: (row.flatMap cellTokens ++ [mark '\x7d', mark ','])

def tokens (T : Table) : List Token :=
  [word "enum", mark '\x7b'] ++ T.enumerators.flatMap enumeratorTokens ++
    [mark '\x7d', mark ';', word "static", word "const", word "ACTION", word T.name,
      mark '[', mark ']', mark '[', word (toString T.columns), mark ']', mark '=',
      mark '\x7b'] ++
    T.rows.flatMap rowTokens ++ [mark '\x7d', mark ';']

/-- The table is that of the machine. Its states are enumerated from zero on, and
every cell has the verdict of the cell of the machine and names the state that
it leads to. -/
structure Faithful (T : Table) (M : Machine) : Prop where
  values : T.enumerators.map (·.2) = List.range M.states.length
  nodup : (T.enumerators.map (·.1)).Nodup
  isIdentifier : ∀ e ∈ T.enumerators, Header.IsIdentifier e.1
  columns : T.columns = M.tokens.length
  rows : List.Forall₂ (fun row s => row.length = M.tokens.length ∧
    List.Forall₂ (fun c d => c.verdict = d.verdict ∧ (c.next, d.next) ∈ T.enumerators) row s.row)
    T.rows M.states

theorem length_flatMap_rowTokens {rows : List (List (Cell String))} {columns : Nat}
    (h : ∀ row ∈ rows, row.length = columns) :
    (rows.flatMap rowTokens).length = rows.length * (columns * 5 + 3) := by
  have hrow : rows.map (fun row => (rowTokens row).length) =
      rows.map fun _ => columns * 5 + 3 := by
    apply List.map_congr_left
    intro row hmem
    simp [rowTokens, List.length_flatMap, cellTokens, h row hmem]
  rw [List.length_flatMap, hrow]
  simp

/-- All tables of a machine have the same number of tokens. -/
theorem Faithful.length_tokens {T : Table} {M : Machine} (h : T.Faithful M) :
    T.tokens.length = M.states.length * 4 + M.states.length * (M.tokens.length * 5 + 3) + 17 := by
  have henum : T.enumerators.length = M.states.length := by
    simpa using congrArg List.length h.values
  have hentries : (T.enumerators.flatMap enumeratorTokens).length = M.states.length * 4 := by
    simp [List.length_flatMap, enumeratorTokens, henum]
  have hrows : ∀ row ∈ T.rows, row.length = M.tokens.length := by
    intro row hrow
    obtain ⟨i, hi, rfl⟩ := List.getElem_of_mem hrow
    exact (h.rows.get hi (h.rows.length_eq ▸ hi)).1
  simp only [tokens, List.length_append, hentries, length_flatMap_rowTokens hrows,
    h.rows.length_eq, List.length_cons, List.length_nil]
  omega

end Table

/-! ### Lines and what is read of them -/

/-- A line is code with these tokens and perhaps a comment. -/
structure ReadsLine (line : String) (ts : List Token) (continued : Prop) : Prop where
  plain : (SourceLine.ofLine line.toList).Plain
  tokens_eq : (SourceLine.ofLine line.toList).tokens = ts
  continues_iff : (SourceLine.ofLine line.toList).continues = true ↔ continued

theorem readsLine_code {line : String} {ts : List Token} (h : IsCode line.toList)
    (hts : tokensFrom [] line.toList = ts) : ReadsLine line ts False := by
  have hline : SourceLine.ofLine line.toList = ⟨line.toList, none⟩ := by
    simpa [SourceLine.ofLine] using SourceLine.ofLine_append h.2.2 []
  constructor
  case plain => rw [hline]; exact ⟨h, by simp⟩
  case tokens_eq => rw [hline]; exact hts
  case continues_iff => simp [hline, SourceLine.continues]

theorem readsLine_comment {line : String} {code body : List Char} {ts : List Token}
    (hline : line.toList = code ++ '/' :: '/' :: body) (hcode : IsCode code)
    (hts : tokensFrom [] code = ts) (hbody : '\n' ∉ body) :
    ReadsLine line ts (body.getLast? = some '\\') := by
  have hcut : SourceLine.ofLine line.toList = ⟨code, some body⟩ := by
    simpa [hline, SourceLine.ofLine] using
      SourceLine.ofLine_append hcode.2.2 ('/' :: '/' :: body)
  constructor
  case plain => rw [hcut]; exact ⟨hcode, by simpa using hbody⟩
  case tokens_eq => rw [hcut]; exact hts
  case continues_iff => simp [hcut, SourceLine.continues]

/-- The first of the lines has tokens. -/
def Opens (lines : List String) : Prop :=
  ∃ m ∈ (sourceLines lines).head?, m.tokens ≠ []

theorem ReadsLine.opens {line : String} {ts : List Token} {p : Prop} (h : ReadsLine line ts p)
    (hts : ts ≠ []) (lines : List String) : Opens (line :: lines) :=
  ⟨_, rfl, by rwa [h.tokens_eq]⟩

/-- Lines are code with these tokens and comments. A line that is continued is
followed by one with tokens. -/
structure Reads (lines : List String) (ts : List Token) (continued : Prop) : Prop where
  plain : ∀ l ∈ sourceLines lines, l.Plain
  tokens_eq : (sourceLines lines).flatMap (·.tokens) = ts
  guarded : Guarded (sourceLines lines)
  continues_iff : (∃ l ∈ sourceLines lines, l.continues = true) ↔ continued

theorem reads_nil : Reads [] [] False :=
  ⟨by simp [sourceLines], rfl, trivial, by simp [sourceLines]⟩

theorem Reads.cons {line : String} {lines : List String} {ts us : List Token} {p q : Prop}
    (hline : ReadsLine line ts p) (hlines : Reads lines us q) (hopens : p → Opens lines) :
    Reads (line :: lines) (ts ++ us) (p ∨ q) := by
  have hcons : sourceLines (line :: lines) = .ofLine line.toList :: sourceLines lines := rfl
  constructor
  case plain => rw [hcons]; exact List.forall_mem_cons.mpr ⟨hline.plain, hlines.plain⟩
  case tokens_eq => rw [hcons, List.flatMap_cons, hline.tokens_eq, hlines.tokens_eq]
  case guarded => exact ⟨fun h => hopens (hline.continues_iff.mp h), hlines.guarded⟩
  case continues_iff =>
    rw [hcons, ← hline.continues_iff, ← hlines.continues_iff]
    simp

theorem Reads.newline_not_mem {lines : List String} {ts : List Token} {p : Prop}
    (h : Reads lines ts p) {line : String} (hline : line ∈ lines) : '\n' ∉ line.toList := by
  have hplain := h.plain _ (List.mem_map_of_mem hline)
  have hcut := SourceLine.text_ofLine line.toList
  generalize SourceLine.ofLine line.toList = l at hplain hcut
  rw [← hcut, SourceLine.text, List.mem_append]
  rintro (hmem | hmem)
  · exact hplain.isCode.1 hmem
  · cases hcomment : l.comment with
    | none => simp [hcomment] at hmem
    | some body => exact hplain.newline_not_mem body hcomment (by simpa [hcomment] using hmem)

theorem Reads.append {lines lines' : List String} {ts us : List Token} {p q : Prop}
    (h : Reads lines ts p) (h' : Reads lines' us q) :
    Reads (lines ++ lines') (ts ++ us) (p ∨ q) := by
  have happend : sourceLines (lines ++ lines') = sourceLines lines ++ sourceLines lines' :=
    List.map_append
  constructor
  case plain => rw [happend]; exact List.forall_mem_append.mpr ⟨h.plain, h'.plain⟩
  case tokens_eq => rw [happend, List.flatMap_append, h.tokens_eq, h'.tokens_eq]
  case guarded => rw [happend]; exact h.guarded.append h'.guarded
  case continues_iff =>
    rw [happend, ← h.continues_iff, ← h'.continues_iff]
    simp only [List.mem_append, or_and_right, exists_or]

theorem Reads.flatMap {α : Type} {as : List α} {lines : α → List String} {ts : α → List Token}
    {p : α → Prop} (h : ∀ a ∈ as, Reads (lines a) (ts a) (p a)) :
    Reads (as.flatMap lines) (as.flatMap ts) (∃ a ∈ as, p a) := by
  induction as with
  | nil => simpa using reads_nil
  | cons a as ih =>
      obtain ⟨ha, has⟩ := List.forall_mem_cons.mp h
      simpa using ha.append (ih has)

/-- Lines of which none is continued. -/
theorem reads_map {α : Type} {as : List α} {line : α → String} {ts : α → List Token}
    (h : ∀ a ∈ as, ReadsLine (line a) (ts a) False) :
    Reads (as.map line) (as.flatMap ts) False := by
  induction as with
  | nil => exact reads_nil
  | cons a as ih =>
      obtain ⟨ha, has⟩ := List.forall_mem_cons.mp h
      simpa using Reads.cons ha (ih has) False.elim

/-- What is read of lines is a table of the machine, unless a line is continued. -/
theorem Reads.exists_faithful_iff {lines : List String} {T : Table} {M : Machine} {p : Prop}
    (h : Reads lines T.tokens p) (hT : T.Faithful M) :
    (∃ T : Table, tokens ("".intercalate (lines.map (· ++ "\n"))) = T.tokens ∧ T.Faithful M) ↔
      ¬ p := by
  rw [tokens_intercalate_lines h.plain, ← h.continues_iff]
  constructor
  · rintro ⟨T', heq, hT'⟩ hcont
    have hlt := length_shown_lt h.guarded hcont false
    rw [heq, h.tokens_eq, hT.length_tokens, hT'.length_tokens] at hlt
    exact absurd hlt (Nat.lt_irrefl _)
  · intro hcont
    refine ⟨T, ?_, hT⟩
    rw [shown_eq_flatMap, h.tokens_eq]
    simpa using hcont

end CSource

/-! ### Names at the end of lines -/

def EndsInBackslash (name : String) : Prop :=
  name.toList.getLast? = some '\\'

instance (name : String) : Decidable (EndsInBackslash name) :=
  inferInstanceAs (Decidable (_ = _))

/-- No token of the machine ends with a backslash, and no label that is the last
one of a state other than the start. -/
structure Machine.Unescaped (M : Machine) : Prop where
  token : ∀ token ∈ M.tokens, ¬ EndsInBackslash token
  label : ∀ s ∈ M.states, s.index ≠ M.start →
    ∀ label ∈ s.labels.getLast?, ¬ EndsInBackslash label

theorem Machine.not_unescaped_iff {M : Machine} (hne : M.states ≠ []) :
    ¬ M.Unescaped ↔ ∃ s ∈ M.states,
      (s.index ≠ M.start ∧ ∃ label ∈ s.labels.getLast?, EndsInBackslash label) ∨
        ∃ token ∈ M.tokens, EndsInBackslash token := by
  constructor
  · intro hM
    by_contra hall
    push Not at hall
    obtain ⟨s, hs⟩ := List.exists_mem_of_ne_nil _ hne
    exact hM ⟨(hall s hs).2, fun s hs => (hall s hs).1⟩
  · rintro ⟨s, hs, ⟨hstart, label, hlabel, hends⟩ | ⟨token, htoken, hends⟩⟩ hM
    · exact hM.label s hs hstart label hlabel hends
    · exact hM.token token htoken hends

namespace Header

open CSource Token

/-! ### Words -/

/-- The name is read as one word. -/
structure Spelled (name : String) : Prop where
  ne_nil : name.toList ≠ []
  isIdentifierChar : ∀ c ∈ name.toList, isIdentifierChar c = true

theorem IsIdentifier.spelled {name : String} (h : IsIdentifier name) : Spelled name :=
  ⟨h.ne_nil, h.isIdentifierChar⟩

theorem spelled_of_mem_identifiers {statePrefix ident : String} {M : Machine}
    (h : ident ∈ identifiers statePrefix M) : Spelled ident :=
  (isIdentifier_of_mem_identifiers h).spelled

theorem spelled_toString (n : Nat) : Spelled (toString n) := by
  refine ⟨?_, fun c hc => isIdentifierChar_of_isDigit (isDigit_of_mem_toString hc)⟩
  simp [Nat.toDigits_ne_nil]

theorem spelled_verdictName (v : Verdict) : Spelled (verdictName v) := by
  cases v <;> exact ⟨by simp [verdictName], by simp [verdictName, Header.isIdentifierChar]⟩

theorem Spelled.not_mem {name : String} (h : Spelled name) {c : Char}
    (hc : Header.isIdentifierChar c = false) : c ∉ name.toList := by
  intro hmem
  rw [h.isIdentifierChar c hmem] at hc
  cases hc

theorem Spelled.isCode {name : String} (h : Spelled name) : IsCode name.toList :=
  ⟨h.not_mem (by decide), h.not_mem (by decide), h.not_mem (by decide)⟩

theorem Spelled.tokensFrom_append {name : String} (h : Spelled name) {c : Char}
    (hc : Header.isIdentifierChar c = false) (rest : List Char) :
    tokensFrom [] (name.toList ++ c :: rest) = word name :: tokensFrom [] (c :: rest) := by
  rw [tokensFrom_word h.isIdentifierChar, tokensFrom, tokensFrom]
  simp [hc, flush, h.ne_nil]

/-! ### Lines of a header -/

theorem readsLine_blank : ReadsLine "" [] False :=
  readsLine_code (by decide) (by decide)

theorem readsLine_opening : ReadsLine "\x7b" [mark '\x7b'] False :=
  readsLine_code (by decide) (by decide)

theorem readsLine_closing : ReadsLine "\x7d;" [mark '\x7d', mark ';'] False :=
  readsLine_code (by decide) (by decide)

theorem readsLine_remark {line : String} {body : List Char}
    (hline : line.toList = '/' :: '/' :: body) (hbody : '\n' ∉ body)
    (hlast : body.getLast? ≠ some '\\') : ReadsLine line [] False := by
  rw [← eq_false hlast]
  apply readsLine_comment
  case code => exact []
  · exact hline
  · decide
  · rfl
  · exact hbody

theorem readsLine_counts {tokens states : String} (htokens : Spelled tokens)
    (hstates : Spelled states) :
    ReadsLine ("//  " ++ tokens ++ " tokens, " ++ states ++ " states.") [] False := by
  apply readsLine_remark
  case body => exact ("  " ++ tokens ++ " tokens, " ++ states ++ " states.").toList
  · simp
  · simp [htokens.isCode.1, hstates.isCode.1]
  · rw [String.toList_append, List.getLast?_append_of_ne_nil _ (by decide)]
    decide

theorem readsLine_bar : ReadsLine "//" [] False :=
  readsLine_remark rfl (by decide) (by decide)

theorem readsLine_enumerator {ident number : String} (hident : Spelled ident)
    (hnumber : Spelled number) :
    ReadsLine ("    " ++ ident ++ " = " ++ number ++ ",")
      [word ident, mark '=', word number, mark ','] False := by
  apply readsLine_code
  · simp only [String.toList_append, isCode_append]
    exact ⟨⟨⟨⟨by decide, hident.isCode⟩, by decide⟩, hnumber.isCode⟩, by decide⟩
  · simp [tokensFrom, hident.tokensFrom_append, hnumber.tokensFrom_append, isSpace,
      isIdentifierChar]

theorem readsLine_tableName {name number : String} (hname : Spelled name)
    (hnumber : Spelled number) :
    ReadsLine ("static const ACTION " ++ name ++ "[][ " ++ number ++ " ] =")
      [word "static", word "const", word "ACTION", word name, mark '[', mark ']', mark '[',
        word number, mark ']', mark '='] False := by
  apply readsLine_code
  · simp only [String.toList_append, isCode_append]
    exact ⟨⟨⟨⟨by decide, hname.isCode⟩, by decide⟩, hnumber.isCode⟩, by decide⟩
  · simp [tokensFrom, hname.tokensFrom_append, hnumber.tokensFrom_append, isSpace,
      isIdentifierChar, flush]

theorem tokensFrom_cell {action ident : String} (haction : Spelled action)
    (hident : Spelled ident) (k : Nat) :
    tokensFrom []
        (("        " ++ action ++ "( " ++ ident ++ " ),").toList ++ List.replicate k ' ') =
      [word action, mark '(', word ident, mark ')', mark ','] := by
  have hspaces : tokensFrom [] (List.replicate k ' ' ++ []) = [] :=
    tokensFrom_spaces (by simp [isSpace]) []
  rw [List.append_nil] at hspaces
  simp [tokensFrom, haction.tokensFrom_append, hident.tokensFrom_append, isSpace,
    isIdentifierChar, hspaces]

theorem readsLine_cellLine {idents : List String} {cell : Cell Nat} {token : String}
    (hident : Spelled (idents.getD cell.next "")) (htoken : '\n' ∉ token.toList) (width : Nat) :
    ReadsLine (cellLine idents width cell token)
      (Table.cellTokens (cell.map fun n => idents.getD n "")) (EndsInBackslash token) := by
  have hverdict := spelled_verdictName cell.verdict
  have htokens : Table.cellTokens (cell.map fun n => idents.getD n "") =
      [word (verdictName cell.verdict), mark '(', word (idents.getD cell.next ""), mark ')',
        mark ','] := by
    cases cell with
    | mk verdict next => cases verdict <;> rfl
  have hlast : EndsInBackslash token ↔ (' ' :: token.toList).getLast? = some '\\' := by
    rw [EndsInBackslash]
    cases token.toList <;> simp
  rw [htokens, hlast]
  generalize hname : idents.getD cell.next "" = ident at hident
  -- the code goes up to the comment, with the blanks that pad it
  obtain ⟨k, hline⟩ : ∃ k, (cellLine idents width cell token).toList =
      (("        " ++ verdictName cell.verdict ++ "( " ++ ident ++ " ),").toList ++
        List.replicate k ' ') ++ '/' :: '/' :: ' ' :: token.toList := by
    simp only [cellLine, Text.padRight, hname]
    generalize width - _ = pad
    exact ⟨pad + 1, by simp [List.replicate_succ']⟩
  apply readsLine_comment hline
  · simp only [String.toList_append, isCode_append]
    refine ⟨⟨⟨⟨⟨by decide, hverdict.isCode⟩, by decide⟩, hident.isCode⟩, by decide⟩, ?_⟩
    simp [IsCode]
  · exact tokensFrom_cell hverdict hident k
  · simpa using htoken

theorem getLast?_intercalate {labels : List String} (hne : labels ≠ []) :
    (' ' :: (" ".intercalate labels).toList).getLast? = some '\\' ↔
      ∃ label ∈ labels.getLast?, EndsInBackslash label := by
  induction labels with
  | nil => exact absurd rfl hne
  | cons label labels ih =>
      cases labels with
      | nil => cases hlist : label.toList <;> simp [EndsInBackslash, hlist]
      | cons label' labels =>
          have hcut : ' ' :: (" ".intercalate (label :: label' :: labels)).toList =
              (' ' :: label.toList) ++ ' ' :: (" ".intercalate (label' :: labels)).toList := by
            simp [String.intercalate_cons_cons]
          rw [hcut, List.getLast?_append_of_ne_nil _ (by simp), ih (by simp),
            List.getLast?_cons_cons]

theorem readsLine_labels {labels : List String} (hne : labels ≠ [])
    (h : ∀ label ∈ labels, '\n' ∉ label.toList) (start : Prop) [Decidable start] :
    ReadsLine ("    // " ++ " ".intercalate labels ++ if start then " (start)" else "") []
      (¬ start ∧ ∃ label ∈ labels.getLast?, EndsInBackslash label) := by
  have hlabels := Text.not_mem_intercalate h (by decide)
  rw [← getLast?_intercalate hne]
  generalize " ".intercalate labels = text at hlabels
  have hlast : (¬ start ∧ (' ' :: text.toList).getLast? = some '\\') ↔
      (' ' :: (text.toList ++ (if start then " (start)" else "").toList)).getLast? =
        some '\\' := by
    by_cases hstart : start
    · simp [hstart, List.getLast?_cons]
    · simp [hstart]
  rw [hlast]
  apply readsLine_comment
  case code => exact "    ".toList
  · simp
  · decide
  · rfl
  · split <;> simp [hlabels]

/-! ### Blocks of a header -/

/-- The cells of a row and its end. -/
theorem reads_cells {idents : List String} {cells : List (Cell Nat × String)}
    (hident : ∀ p ∈ cells, Spelled (idents.getD p.1.next ""))
    (htoken : ∀ p ∈ cells, '\n' ∉ p.2.toList) (width : Nat) :
    Reads (cells.map (fun p => cellLine idents width p.1 p.2) ++ ["    \x7d,"])
      (cells.flatMap (fun p => Table.cellTokens (p.1.map fun n => idents.getD n "")) ++
        [mark '\x7d', mark ','])
      (∃ p ∈ cells, EndsInBackslash p.2) ∧
    Opens (cells.map (fun p => cellLine idents width p.1 p.2) ++ ["    \x7d,"]) := by
  induction cells with
  | nil =>
      have hline : ReadsLine "    \x7d," [mark '\x7d', mark ','] False :=
        readsLine_code (by decide) (by decide)
      exact ⟨by simpa using Reads.cons hline reads_nil False.elim, hline.opens (by simp) []⟩
  | cons p cells ih =>
      obtain ⟨hp, hcells⟩ := List.forall_mem_cons.mp hident
      obtain ⟨hp', hcells'⟩ := List.forall_mem_cons.mp htoken
      have hline := readsLine_cellLine hp hp' width
      obtain ⟨hreads, hopens⟩ := ih hcells hcells'
      exact ⟨by simpa using hreads.cons hline fun _ => hopens,
        hline.opens (by simp [Table.cellTokens]) _⟩

/-- The cells of a row with the enumerators they lead to. -/
def namedRow (idents : List String) (row : List (Cell Nat)) : List (Cell String) :=
  row.map (·.map fun n => idents.getD n "")

section Machine

variable {M : Machine} (hM : M.WellFormed) (hnames : M.Named)
include hM hnames

theorem reads_stateLines {idents : List String} (hidents : ∀ ident ∈ idents, Spelled ident)
    (hlength : idents.length = M.states.length) (width : Nat) {s : State} (hs : s ∈ M.states) :
    Reads (stateLines idents width M s) (Table.rowTokens (namedRow idents s.row))
      ((s.index ≠ M.start ∧ ∃ label ∈ s.labels.getLast?, EndsInBackslash label) ∨
        ∃ token ∈ M.tokens, EndsInBackslash token) := by
  have hrow := hM.length_row s hs
  have hfst : (s.row.zip M.tokens).map Prod.fst = s.row := List.map_fst_zip hrow.le
  have hsnd : (s.row.zip M.tokens).map Prod.snd = M.tokens := List.map_snd_zip hrow.ge
  have hident : ∀ p ∈ s.row.zip M.tokens, Spelled (idents.getD p.1.next "") := by
    intro p hp
    have hlt : p.1.next < idents.length := by
      rw [hlength]
      exact hM.next_lt s hs p.1 (List.of_mem_zip hp).1
    rw [List.getD_eq_getElem _ _ hlt]
    exact hidents _ (List.getElem_mem hlt)
  have htoken : ∀ p ∈ s.row.zip M.tokens, '\n' ∉ p.2.toList := by
    intro p hp
    exact (hnames.token p.2 (List.of_mem_zip hp).2).not_mem_of_isBlank (by decide)
  have hlabels := readsLine_labels (hM.labels_ne_nil s hs)
    (fun label hlabel => hnames.not_mem_label hs hlabel (by decide)) (s.index = M.start)
  have hopening : ReadsLine "    \x7b" [mark '\x7b'] False := readsLine_code (by decide) (by decide)
  obtain ⟨hcells, -⟩ := reads_cells hident htoken width
  have hreads := (hcells.cons hopening False.elim).cons hlabels fun _ => hopening.opens (by simp) _
  -- cells and tokens are as many, so none is lost by putting them in pairs
  have htokens : (s.row.zip M.tokens).flatMap
        (fun p => Table.cellTokens (p.1.map fun n => idents.getD n "")) =
      (namedRow idents s.row).flatMap Table.cellTokens := by
    conv_rhs => rw [namedRow, ← hfst, List.map_map, List.flatMap_map]
    rfl
  have hends : (∃ p ∈ s.row.zip M.tokens, EndsInBackslash p.2) ↔
      ∃ token ∈ M.tokens, EndsInBackslash token := by
    conv_rhs => rw [← hsnd]
    simp only [List.mem_map, exists_exists_and_eq_and]
  rw [htokens, hends, false_or] at hreads
  exact hreads

end Machine

theorem reads_banner (M : Machine) : Reads (banner {} M) [] False := by
  have hlines : ∀ line ∈ banner {} M, ReadsLine line [] False := by
    have hcounts := readsLine_counts (spelled_toString M.tokens.length)
      (spelled_toString M.states.length)
    have horigin : ReadsLine "//  Generated by breakc. Do not edit." [] False :=
      readsLine_remark rfl (by decide) (by decide)
    simp only [banner, List.cons_append, List.nil_append, List.forall_mem_cons]
    exact ⟨readsLine_bar, horigin, readsLine_bar, hcounts, readsLine_bar, readsLine_blank, by simp⟩
  have hreads := reads_map hlines
  rwa [List.map_id', List.flatMap_eq_nil_iff.mpr (by simp)] at hreads

theorem reads_enumeration {idents : List String} (hidents : ∀ ident ∈ idents, Spelled ident)
    (M : Machine) :
    Reads (enumeration idents M)
      ([word "enum", mark '\x7b'] ++
        ((idents.zip M.states).map fun p => (p.1, p.2.index)).flatMap Table.enumeratorTokens ++
        [mark '\x7d', mark ';']) False := by
  have henum : ReadsLine "enum" [word "enum"] False := readsLine_code (by decide) (by decide)
  have hfront := (reads_nil.cons readsLine_opening False.elim).cons henum False.elim
  have hback := (reads_nil.cons readsLine_blank False.elim).cons readsLine_closing False.elim
  have hentries : ∀ p ∈ idents.zip M.states,
      ReadsLine ("    " ++ p.1 ++ " = " ++ toString p.2.index ++ ",")
        (Table.enumeratorTokens (p.1, p.2.index)) False := by
    intro p hp
    exact readsLine_enumerator (hidents p.1 (List.of_mem_zip hp).1) (spelled_toString p.2.index)
  have hreads := (hfront.append (reads_map hentries)).append hback
  simp only [or_self] at hreads
  rw [List.flatMap_map]
  exact hreads

section Machine

variable {M : Machine} (hM : M.WellFormed) (hnames : M.Named)
include hM hnames

theorem reads_table {idents : List String} (hidents : ∀ ident ∈ idents, Spelled ident)
    (hlength : idents.length = M.states.length) (o : HeaderNames) :
    Reads (table o idents M)
      ([word "static", word "const", word "ACTION", word (identifier o.tableName), mark '[',
          mark ']', mark '[', word (toString M.tokens.length), mark ']', mark '=',
          mark '\x7b'] ++
        (M.states.map fun s => namedRow idents s.row).flatMap Table.rowTokens ++
        [mark '\x7d', mark ';'])
      (¬ M.Unescaped) := by
  have hname := readsLine_tableName (isIdentifier_identifier o.tableName).spelled
    (spelled_toString M.tokens.length)
  have hstates := Reads.flatMap fun s hs =>
    reads_stateLines hM hnames hidents hlength (cellWidth idents) hs
  have hreads := (((reads_nil.cons readsLine_opening False.elim).cons hname False.elim).append
    hstates).append (reads_nil.cons readsLine_closing False.elim)
  rw [← Machine.not_unescaped_iff hM.states_ne_nil] at hreads
  simp only [false_or, or_false] at hreads
  rw [List.flatMap_map]
  exact hreads

end Machine

end Header

/-! ### The table of a machine -/

open CSource

/-- The enumeration and the table that a header of the machine should hold. -/
def Machine.cTable (o : HeaderNames) (M : Machine) : Table :=
  let idents := Header.identifiers o.statePrefix M
  { enumerators := (idents.zip M.states).map fun p => (p.1, p.2.index)
    name := Header.identifier o.tableName
    columns := M.tokens.length
    rows := M.states.map fun s => Header.namedRow idents s.row }

theorem Machine.map_fst_enumerators_cTable (o : HeaderNames) (M : Machine) :
    (M.cTable o).enumerators.map (·.1) = Header.identifiers o.statePrefix M := by
  rw [cTable, List.map_map]
  exact List.map_fst_zip (Header.length_identifiers o.statePrefix M).le

theorem Machine.isIdentifier_of_mem_enumerators {o : HeaderNames} {M : Machine}
    {e : String × Nat} (he : e ∈ (M.cTable o).enumerators) : Header.IsIdentifier e.1 := by
  apply Header.isIdentifier_of_mem_identifiers
  rw [← M.map_fst_enumerators_cTable]
  exact List.mem_map_of_mem he

namespace Machine.WellFormed

variable {M : Machine} (hM : M.WellFormed)
include hM

theorem map_index_states : M.states.map (·.index) = List.range M.states.length := by
  apply List.ext_getElem
  · simp
  · intro i hi _
    rw [List.length_map] at hi
    rw [List.getElem_map, List.getElem_range]
    exact hM.index_eq i _ (List.getElem?_eq_getElem hi)

theorem mem_enumerators_cTable (o : HeaderNames) {i : Nat} (hi : i < M.states.length) :
    ((Header.identifiers o.statePrefix M).getD i "", i) ∈ (M.cTable o).enumerators := by
  have hident : i < (Header.identifiers o.statePrefix M).length := by
    rwa [Header.length_identifiers]
  have hindex : M.states[i].index = i := hM.index_eq i _ (List.getElem?_eq_getElem hi)
  have hzip : i < ((Header.identifiers o.statePrefix M).zip M.states).length := by
    rw [List.length_zip]
    exact Nat.lt_min.mpr ⟨hident, hi⟩
  have hmem := List.getElem_mem hzip
  rw [List.getElem_zip] at hmem
  refine List.mem_map.mpr ⟨_, hmem, ?_⟩
  rw [hindex, List.getD_eq_getElem _ _ hident]

theorem faithful_cTable (o : HeaderNames) : (M.cTable o).Faithful M := by
  have hfst := M.map_fst_enumerators_cTable o
  have hsnd : (M.cTable o).enumerators.map (·.2) = M.states.map (·.index) := by
    conv_rhs => rw [← List.map_snd_zip (Header.length_identifiers o.statePrefix M).ge]
    rw [cTable, List.map_map, List.map_map]
    rfl
  constructor
  case values => rw [hsnd, hM.map_index_states]
  case nodup => rw [hfst]; exact Header.nodup_identifiers o.statePrefix M
  case isIdentifier => exact fun e he => isIdentifier_of_mem_enumerators he
  case columns => rfl
  case rows =>
    rw [cTable, List.forall₂_map_left_iff, List.forall₂_same]
    intro s hs
    refine ⟨by rw [Header.namedRow, List.length_map, hM.length_row s hs], ?_⟩
    rw [Header.namedRow, List.forall₂_map_left_iff, List.forall₂_same]
    intro c hc
    exact ⟨rfl, hM.mem_enumerators_cTable o (hM.next_lt s hs c hc)⟩

/-- What a compiler reads of the header is a table of the machine exactly if no
comment is continued. -/
theorem header_faithful_iff (hnames : M.Named) :
    (∃ T : Table, CSource.tokens (M.header {}) = T.tokens ∧ T.Faithful M) ↔ M.Unescaped := by
  have hidents : ∀ ident ∈ Header.identifiers "STATE_" M, Header.Spelled ident :=
    fun _ => Header.spelled_of_mem_identifiers
  have hreads := ((Header.reads_banner M).append (Header.reads_enumeration hidents M)).append
    (Header.reads_table hM hnames hidents (Header.length_identifiers _ M) {})
  have htokens : Reads (Header.lines {} M) (M.cTable {}).tokens (¬ M.Unescaped) := by
    simpa [Table.tokens, cTable, Header.lines] using hreads
  rw [header, htokens.exists_faithful_iff (hM.faithful_cTable {}), not_not]

end Machine.WellFormed

/-- The default header of a compiled machine, read as C source, is an enumeration
of the states and a table of their cells, exactly if no token ends with a
backslash and no label that is the last one of a state other than the start. -/
theorem compile_header_faithful_iff {source : String} {options : Options} {c : Compilation}
    (h : compile source options = .ok c) :
    (∃ T : Table, CSource.tokens (c.machine.header {}) = T.tokens ∧ T.Faithful c.machine) ↔
      (∀ token ∈ c.machine.tokens, ¬ EndsInBackslash token) ∧
        ∀ s ∈ c.machine.states, s.index ≠ c.machine.start →
          ∀ label ∈ s.labels.getLast?, ¬ EndsInBackslash label := by
  rw [(wellFormed_of_compile h).header_faithful_iff (named_of_compile h)]
  exact ⟨fun hM => ⟨hM.token, hM.label⟩, fun ⟨htoken, hlabel⟩ => ⟨htoken, hlabel⟩⟩

theorem compile_header_faithful_sampleText :
    ∃ c, compile sampleText {} = .ok c ∧
      ∃ T : Table, CSource.tokens (c.machine.header {}) = T.tokens ∧ T.Faithful c.machine := by
  obtain ⟨c, hc, hrules⟩ := compile_sampleText
  have htokens : c.machine.tokens = ["A", "B"] := by
    rw [(compile_spec hc).2.2.2.1, hrules]
    rfl
  refine ⟨c, hc, (compile_header_faithful_iff hc).mpr ⟨by rw [htokens]; decide, ?_⟩⟩
  intro s hs _ label hlabel
  have hmem := (reaches_of_mem_labels hc hs (List.mem_of_getLast? hlabel)).mem_labels
  rw [hrules] at hmem
  have hcases : label = "S0" ∨ label = "A" ∨ label = "B" := by
    simpa [RuleSet.labels, sampleRules, RuleSet.startLabel, RuleSet.target?] using hmem
  rcases hcases with rfl | rfl | rfl <;> decide

/-- A header whose only token is a backslash. The comment behind each cell takes
the end of the row with it. -/
theorem compile_header_not_faithful_backslash :
    ∃ c, compile "\\\nx\n" {} = .ok c ∧
      ¬ ∃ T : Table, CSource.tokens (c.machine.header {}) = T.tokens ∧ T.Faithful c.machine := by
  have hdraft : Draft.ofText "\\\nx\n" =
      ({ tokens := #["\\"], rules := #[⟨.decision .any .join .any, none, 2⟩] }, none) := by
    rfl
  have hparse : RuleSet.parse "\\\nx\n" =
      .ok ⟨["\\"], [⟨.decision .any .join .any, none, 2⟩], none⟩ := by
    rw [RuleSet.parse, hdraft]
    simp [Draft.ruleSet, distinct_cons]
  have hcompile := compile_default_of_decides hparse (by decide) fun _ _ _ _ => rfl
  refine ⟨_, hcompile, ?_⟩
  rw [(wellFormed_of_compile hcompile).header_faithful_iff (named_of_compile hcompile)]
  exact fun hM => hM.token "\\" List.mem_cons_self (by decide)

end BreakRules
