import BreakRules.Proofs.HeaderTable

/-!
# Headers lose nothing

Two compiled machines with the same header are equal: `compile_header_inj`. The
header is cut into its lines again, for only the front of the banner, which is
the same for all machines, may hold line feeds of its own. Every line then shows
what it was made from, since words have no blanks and enumerators no brackets.
The labels of the start are followed by a mark that could be a label, but the
start is always the first state.
-/

namespace BreakRules

namespace Text

/-- Two lists that are cut at the first place of `a` have the same parts. -/
theorem append_cons_inj {a : Char} {l l' rest rest' : List Char} (hl : a ∉ l) (hl' : a ∉ l')
    (h : l ++ a :: rest = l' ++ a :: rest') : l = l' ∧ rest = rest' := by
  have hsplit := congrArg (List.splitOn a) h
  rw [List.splitOn_append_cons_self_of_not_mem hl, List.splitOn_append_cons_self_of_not_mem hl']
    at hsplit
  obtain ⟨rfl, -⟩ := List.cons.inj hsplit
  exact ⟨rfl, by simpa using h⟩

theorem intercalate_inj {ws ws' : List String} (hne : ws ≠ []) (hne' : ws' ≠ [])
    (hws : ∀ w ∈ ws, ' ' ∉ w.toList) (hws' : ∀ w ∈ ws', ' ' ∉ w.toList)
    (h : " ".intercalate ws = " ".intercalate ws') : ws = ws' := by
  have hblank : " ".toList = [' '] := rfl
  have hlist := congrArg (fun s => s.toList.splitOn ' ') h
  simp only [String.toList_intercalate, hblank] at hlist
  rw [List.splitOn_intercalate ' ' (by simpa using hws) (by simpa using hne),
    List.splitOn_intercalate ' ' (by simpa using hws') (by simpa using hne')] at hlist
  exact List.map_injective_iff.mpr (fun _ _ => String.toList_inj.mp) hlist

theorem eq_of_map_eq {α β : Type} {f : α → β} {as bs : List α}
    (hf : ∀ a ∈ as, ∀ b ∈ bs, f a = f b → a = b) (h : as.map f = bs.map f) : as = bs := by
  induction as generalizing bs with
  | nil => simpa using h
  | cons a as ih =>
      cases bs with
      | nil => cases h
      | cons b bs =>
          obtain ⟨hhead, htail⟩ := List.cons.inj h
          have hrest : as = bs := ih (fun a ha b hb => hf a (.tail _ ha) b (.tail _ hb)) htail
          rw [hf a (.head _) b (.head _) hhead, hrest]

theorem zip_inj {α β : Type} {as as' : List α} {bs bs' : List β} (h : as.length = bs.length)
    (h' : as'.length = bs'.length) (heq : as.zip bs = as'.zip bs') : as = as' ∧ bs = bs' := by
  have hfst := congrArg (List.map Prod.fst) heq
  have hsnd := congrArg (List.map Prod.snd) heq
  rw [List.map_fst_zip h.le, List.map_fst_zip h'.le] at hfst
  rw [List.map_snd_zip h.ge, List.map_snd_zip h'.ge] at hsnd
  exact ⟨hfst, hsnd⟩

/-- Blocks of the same length can be told from the list they make. -/
theorem map_eq_of_flatMap_eq {α β γ : Type} {n : Nat} {as : List α} {bs : List β}
    {f : α → List γ} {g : β → List γ} (hf : ∀ a ∈ as, (f a).length = n)
    (hg : ∀ b ∈ bs, (g b).length = n) (hlength : as.length = bs.length)
    (h : as.flatMap f = bs.flatMap g) : as.map f = bs.map g := by
  induction as generalizing bs with
  | nil => rw [List.length_eq_zero_iff.mp hlength.symm]; rfl
  | cons a as ih =>
      cases bs with
      | nil => cases hlength
      | cons b bs =>
          obtain ⟨ha, has⟩ := List.forall_mem_cons.mp hf
          obtain ⟨hb, hbs⟩ := List.forall_mem_cons.mp hg
          rw [List.flatMap_cons, List.flatMap_cons] at h
          obtain ⟨hhead, htail⟩ := List.append_inj h (ha.trans hb.symm)
          rw [List.map_cons, List.map_cons, hhead, ih has hbs (Nat.succ.inj hlength) htail]

end Text

namespace Header

open Text

/-! ### Lines -/

/-- A word ends at the first character that is none of a word. -/
theorem Spelled.append_inj {name name' : String} (h : Spelled name) (h' : Spelled name') {c : Char}
    (hc : Header.isIdentifierChar c = false) {rest rest' : List Char}
    (heq : name.toList ++ c :: rest = name'.toList ++ c :: rest') :
    name = name' ∧ rest = rest' := by
  obtain ⟨hname, hrest⟩ := append_cons_inj (h.not_mem hc) (h'.not_mem hc) heq
  exact ⟨String.toList_inj.mp hname, hrest⟩

theorem counts_inj {m n m' n' : String} (hm : Spelled m) (hm' : Spelled m')
    (h : "//  " ++ m ++ " tokens, " ++ n ++ " states." =
      "//  " ++ m' ++ " tokens, " ++ n' ++ " states.") : m = m' ∧ n = n' := by
  have hlist := congrArg String.toList h
  simp only [String.toList_append, List.append_assoc, List.append_cancel_left_eq] at hlist
  obtain ⟨rfl, -⟩ := hm.append_inj hm' (by decide) hlist
  rw [String.append_left_inj, String.append_right_inj] at h
  exact ⟨rfl, h⟩

theorem enumerator_inj {ident ident' number number' : String} (h : Spelled ident)
    (h' : Spelled ident')
    (heq : "    " ++ ident ++ " = " ++ number ++ "," =
      "    " ++ ident' ++ " = " ++ number' ++ ",") :
    ident = ident' ∧ number = number' := by
  have hlist := congrArg String.toList heq
  simp only [String.toList_append, List.append_assoc, List.append_cancel_left_eq] at hlist
  obtain ⟨rfl, -⟩ := h.append_inj h' (by decide) hlist
  rw [String.append_left_inj, String.append_right_inj] at heq
  exact ⟨rfl, heq⟩

theorem verdictName_inj {v v' : Verdict} (h : verdictName v = verdictName v') : v = v' := by
  cases v <;> cases v' <;> simp_all [verdictName]

/-- Cells that lead to states of the enumeration can be told from their lines. -/
theorem cellLine_inj {idents : List String} (hidents : ∀ ident ∈ idents, Spelled ident)
    (hnodup : idents.Nodup) {width : Nat} {cell cell' : Cell Nat} {token token' : String}
    (hnext : cell.next < idents.length) (hnext' : cell'.next < idents.length)
    (h : cellLine idents width cell token = cellLine idents width cell' token') :
    cell = cell' ∧ token = token' := by
  have hopen : "( ".toList = ['(', ' '] := rfl
  have hclose : " ),".toList = [' ', ')', ','] := rfl
  have hident := hidents _ (List.getElem_mem hnext)
  have hident' := hidents _ (List.getElem_mem hnext')
  rw [← List.getD_eq_getElem idents "" hnext] at hident
  rw [← List.getD_eq_getElem idents "" hnext'] at hident'
  have hlist := congrArg String.toList h
  simp only [cellLine, padRight, String.toList_append, List.append_assoc, hopen, hclose,
    List.append_cancel_left_eq, List.cons_append, List.nil_append] at hlist
  obtain ⟨hverdict, hrest⟩ := (spelled_verdictName cell.verdict).append_inj
    (spelled_verdictName cell'.verdict) (by decide) hlist
  obtain ⟨hname, -⟩ := hident.append_inj hident' (by decide) (List.cons.inj hrest).2
  constructor
  · have hindex : cell.next = cell'.next := by
      rw [List.getD_eq_getElem _ _ hnext, List.getD_eq_getElem _ _ hnext'] at hname
      exact hnodup.getElem_inj_iff.mp hname
    cases cell
    cases cell'
    rw [Cell.mk.injEq]
    exact ⟨verdictName_inj hverdict, hindex⟩
  · -- the cells are padded alike, so what is left of the lines are the tokens
    simp only [cellLine, hverdict, hname, String.append_right_inj] at h
    exact h

theorem labels_inj {labels labels' : List String} {mark : String} (hne : labels ≠ [])
    (hne' : labels' ≠ []) (h : ∀ label ∈ labels, ' ' ∉ label.toList)
    (h' : ∀ label ∈ labels', ' ' ∉ label.toList)
    (heq : "    // " ++ " ".intercalate labels ++ mark =
      "    // " ++ " ".intercalate labels' ++ mark) : labels = labels' := by
  rw [String.append_left_inj, String.append_right_inj] at heq
  exact intercalate_inj hne hne' h h' heq

theorem length_stateLines {idents : List String} {width : Nat} {M : Machine} {s : State}
    (hrow : s.row.length = M.tokens.length) :
    (stateLines idents width M s).length = M.tokens.length + 3 := by
  simp [stateLines, hrow]

theorem identifiers_eq_of_enumeration_eq {o : HeaderNames} {M N : Machine}
    (h : enumeration (identifiers o.statePrefix M) M =
      enumeration (identifiers o.statePrefix N) N) :
    identifiers o.statePrefix M = identifiers o.statePrefix N := by
  have hlines : ∀ M : Machine, enumeration (identifiers o.statePrefix M) M =
      ["enum", "\x7b"] ++ (M.cTable o).enumerators.map
        (fun e => "    " ++ e.1 ++ " = " ++ toString e.2 ++ ",") ++ ["\x7d;", ""] := by
    intro M
    rw [Machine.cTable, List.map_map]
    rfl
  rw [hlines M, hlines N] at h
  have hentries := List.append_cancel_left (List.append_cancel_right h)
  have henumerators : (M.cTable o).enumerators = (N.cTable o).enumerators := by
    refine eq_of_map_eq ?_ hentries
    intro e he e' he' hline
    obtain ⟨hident, hnumber⟩ := enumerator_inj (Machine.isIdentifier_of_mem_enumerators he).spelled
      (Machine.isIdentifier_of_mem_enumerators he').spelled hline
    exact Prod.ext hident (toString_inj hnumber)
  rw [← M.map_fst_enumerators_cTable, ← N.map_fst_enumerators_cTable, henumerators]

section Machine

variable {M N : Machine} (hM : M.WellFormed) (hM' : M.Named) (hN : N.WellFormed) (hN' : N.Named)
include hM hM' hN hN'

theorem stateLines_inj {idents : List String} (hidents : ∀ ident ∈ idents, Spelled ident)
    (hnodup : idents.Nodup) (hlength : idents.length = M.states.length)
    (hlength' : idents.length = N.states.length) {width : Nat} {s t : State}
    (hs : s ∈ M.states) (ht : t ∈ N.states) (hindex : s.index = t.index)
    (h : stateLines idents width M s = stateLines idents width N t) :
    s = t ∧ M.tokens = N.tokens := by
  simp only [stateLines, hM.start_eq_zero, hN.start_eq_zero, hindex, List.cons_append,
    List.nil_append, List.cons.injEq, true_and] at h
  obtain ⟨hlabels, hcells⟩ := h
  have hlabels := labels_inj (hM.labels_ne_nil s hs) (hN.labels_ne_nil t ht)
    (fun label hlabel => hM'.not_mem_label hs hlabel (by decide))
    (fun label hlabel => hN'.not_mem_label ht hlabel (by decide)) hlabels
  have hzip : s.row.zip M.tokens = t.row.zip N.tokens := by
    refine eq_of_map_eq ?_ (List.append_cancel_right hcells)
    intro p hp q hq hline
    have hnext := hM.next_lt s hs p.1 (List.of_mem_zip hp).1
    have hnext' := hN.next_lt t ht q.1 (List.of_mem_zip hq).1
    obtain ⟨hcell, htoken⟩ :=
      cellLine_inj hidents hnodup (hlength ▸ hnext) (hlength' ▸ hnext') hline
    exact Prod.ext hcell htoken
  obtain ⟨hrow, htokens⟩ := zip_inj (hM.length_row s hs) (hN.length_row t ht) hzip
  refine ⟨?_, htokens⟩
  cases s
  cases t
  rw [State.mk.injEq]
  exact ⟨hindex, hlabels, hrow⟩

theorem eq_of_table_eq {idents : List String} (hidents : ∀ ident ∈ idents, Spelled ident)
    (hnodup : idents.Nodup) (hlength : idents.length = M.states.length)
    (hlength' : idents.length = N.states.length) (htokens : M.tokens.length = N.tokens.length)
    {o : HeaderNames} (h : table o idents M = table o idents N) : M = N := by
  have hstates : M.states.length = N.states.length := hlength.symm.trans hlength'
  have hblocks : M.states.map (stateLines idents (cellWidth idents) M) =
      N.states.map (stateLines idents (cellWidth idents) N) := by
    have hflat := List.append_cancel_right h
    simp only [List.cons_append, List.nil_append, List.cons.injEq, true_and] at hflat
    apply map_eq_of_flatMap_eq _ _ hstates hflat.2
    · exact M.tokens.length + 3
    · exact fun s hs => length_stateLines (hM.length_row s hs)
    · exact fun t ht => htokens ▸ length_stateLines (hN.length_row t ht)
  have hstate : ∀ (i : Nat) (hi : i < M.states.length) (hi' : i < N.states.length),
      M.states[i] = N.states[i] ∧ M.tokens = N.tokens := by
    intro i hi hi'
    have hindex : M.states[i].index = N.states[i].index := by
      rw [hM.index_eq i _ (List.getElem?_eq_getElem hi),
        hN.index_eq i _ (List.getElem?_eq_getElem hi')]
    have hlines := congrArg (·[i]?) hblocks
    simp only [List.getElem?_map, List.getElem?_eq_getElem hi, List.getElem?_eq_getElem hi',
      Option.map_some, Option.some.injEq] at hlines
    exact stateLines_inj hM hM' hN hN' hidents hnodup hlength hlength' (List.getElem_mem hi)
      (List.getElem_mem hi') hindex hlines
  have hpos := List.length_pos_of_ne_nil hM.states_ne_nil
  have hall : M.states = N.states := List.ext_getElem hstates fun i hi hi' => (hstate i hi hi').1
  have hsame := (hstate 0 hpos (hstates ▸ hpos)).2
  have hstart : M.start = N.start := by rw [hM.start_eq_zero, hN.start_eq_zero]
  cases M
  cases N
  rw [Machine.mk.injEq]
  exact ⟨hsame, hstart, hall⟩

end Machine

/-! ### Headers -/

/-- The lines of a header from the one with the sizes of the machine on. -/
def body (o : HeaderNames) (M : Machine) : List String :=
  ["//  " ++ toString M.tokens.length ++ " tokens, " ++ toString M.states.length ++ " states.",
      "//", ""] ++
    (enumeration (identifiers o.statePrefix M) M ++ table o (identifiers o.statePrefix M) M)

theorem exists_lines_eq (o : HeaderNames) : ∃ front, ∀ M, lines o M = front ++ body o M := by
  have hbanner : ∃ front, ∀ M, banner o M = front ++ ["//  " ++ toString M.tokens.length ++
      " tokens, " ++ toString M.states.length ++ " states.", "//", ""] :=
    ⟨_, fun M => (List.append_assoc _ [_, "//"] _).symm⟩
  obtain ⟨front, hfront⟩ := hbanner
  exact ⟨front, fun M => by simp only [lines, body, hfront, List.append_assoc]⟩

theorem newline_not_mem_body {M : Machine} (hM : M.WellFormed) (hM' : M.Named) (o : HeaderNames) :
    ∀ line ∈ body o M, '\n' ∉ line.toList := by
  have hidents : ∀ ident ∈ identifiers o.statePrefix M, Spelled ident :=
    fun _ => spelled_of_mem_identifiers
  have hcode := (reads_enumeration hidents M).append
    (reads_table hM hM' hidents (length_identifiers _ M) o)
  have hsizes := readsLine_counts (spelled_toString M.tokens.length)
    (spelled_toString M.states.length)
  have hreads := ((hcode.cons readsLine_blank False.elim).cons readsLine_bar False.elim).cons
    hsizes False.elim
  exact fun line hline => hreads.newline_not_mem hline

theorem body_eq_of_header_eq {M N : Machine} (hM : M.WellFormed) (hM' : M.Named) (hN : N.WellFormed)
    (hN' : N.Named) {o : HeaderNames} (h : M.header o = N.header o) : body o M = body o N := by
  obtain ⟨front, hfront⟩ := exists_lines_eq o
  have hlist := congrArg String.toList h
  rw [Machine.header, Machine.header, toList_intercalate_lines, toList_intercalate_lines, hfront M,
    hfront N, List.map_append, List.map_append, unlines_append, unlines_append] at hlist
  have hbody := unlines_inj (by simpa using newline_not_mem_body hM hM' o)
    (by simpa using newline_not_mem_body hN hN' o) (List.append_cancel_left hlist)
  exact List.map_injective_iff.mpr (fun _ _ => String.toList_inj.mp) hbody

theorem header_inj {M N : Machine} (hM : M.WellFormed) (hM' : M.Named) (hN : N.WellFormed)
    (hN' : N.Named) {o : HeaderNames} (h : M.header o = N.header o) : M = N := by
  have hbody := body_eq_of_header_eq hM hM' hN hN' h
  obtain ⟨hfront, hcode⟩ := List.append_inj hbody rfl
  obtain ⟨htokens, hstates⟩ := counts_inj (spelled_toString _) (spelled_toString _)
    (List.cons.inj hfront).1
  have hlength := length_identifiers o.statePrefix M
  have henum : (enumeration (identifiers o.statePrefix M) M).length =
      (enumeration (identifiers o.statePrefix N) N).length := by
    simp [enumeration, toString_inj hstates]
  obtain ⟨henumeration, htable⟩ := List.append_inj hcode henum
  rw [← identifiers_eq_of_enumeration_eq henumeration] at htable
  exact eq_of_table_eq hM hM' hN hN' (fun _ => spelled_of_mem_identifiers)
    (nodup_identifiers o.statePrefix M) hlength (hlength.trans (toString_inj hstates))
    (toString_inj htokens) htable

end Header

/-- A compiled machine can be told from its header. -/
theorem compile_header_inj {source source' : String} {options options' : Options}
    {c c' : Compilation} (h : compile source options = .ok c)
    (h' : compile source' options' = .ok c') {o : HeaderNames}
    (heq : c.machine.header o = c'.machine.header o) : c.machine = c'.machine :=
  Header.header_inj (wellFormed_of_compile h) (named_of_compile h) (wellFormed_of_compile h')
    (named_of_compile h') heq

/-- A comment at the end of a text is not seen in the header. -/
theorem compile_header_inj_sampleText :
    ∃ c c', compile sampleText {} = .ok c ∧ compile (sampleText ++ "-- end\n") {} = .ok c' ∧
      c.machine.header {} = c'.machine.header {} ∧ c.machine = c'.machine := by
  obtain ⟨c, hc, hrules⟩ := compile_sampleText
  have hdraft : Draft.ofText (sampleText ++ "-- end\n") = Draft.ofText sampleText := by
    decide +kernel
  have hparse : RuleSet.parse (sampleText ++ "-- end\n") = .ok sampleRules := by
    rw [RuleSet.parse, hdraft, ← RuleSet.parse, parse_sampleText]
  have hc' := compile_default_of_decides hparse (by decide)
    fun label _ token _ => decides_sampleRules label token
  have hheader : c.machine.header {} =
      (sampleRules.compilation (sampleRules.startFindings ++
        sampleRules.findings (sampleRules.explore sampleRules.startLabel))).machine.header {} := by
    rw [(compile_spec hc).2.2.2.1, hrules]
    rfl
  exact ⟨c, _, hc, hc', hheader, compile_header_inj hc hc' hheader⟩

end BreakRules
