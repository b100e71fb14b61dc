import BreakRules.Table.Explore
import Mathlib.Data.List.Forall2

/-!
# Reachable labels

`R.Reaches start label` says that the rules lead from `start` to `label` by
tokens of the alphabet. Whether the cells on the way have a verdict does not
matter. `R.labelAfter label tokens` is the label behind a text; it carries the
current label along, so the labels that can be reached are those behind the
texts over the alphabet: `RuleSet.reaches_iff_exists_labelAfter`.

`R.Answers state token c` says that a cell holds what the rules say about a
state and a token. A row that can be built has such a cell for every token, and
a row that cannot be built names the first token without a verdict.

A token leads to itself or to the target of a transition, so every label that
can be reached is in `R.labels start`.
-/

namespace BreakRules

/-- Mapping succeeds when it does so on every entry. -/
theorem mapM_eq_ok_iff {α β ε : Type} {f : α → Except ε β} {l : List α} {bs : List β} :
    l.mapM f = .ok bs ↔ List.Forall₂ (fun a b => f a = .ok b) l bs := by
  induction l generalizing bs with
  | nil => simp [pure, Except.pure, eq_comm]
  | cons a l ih =>
      rw [List.mapM_cons, List.forall₂_cons_left_iff]
      cases ha : f a with
      | error e => simp [bind, Except.bind]
      | ok b =>
          cases hl : l.mapM f with
          | error e => simp [bind, Except.bind, ← ih, hl]
          | ok cs => simp [bind, Except.bind, pure, Except.pure, ← ih, hl, eq_comm]

/-- Mapping fails at the first entry on which it does so. -/
theorem exists_of_mapM_eq_error {α β ε : Type} {f : α → Except ε β} {l : List α} {e : ε}
    (h : l.mapM f = .error e) :
    ∃ l₁ a l₂, l = l₁ ++ a :: l₂ ∧ (∀ b ∈ l₁, ∃ c, f b = .ok c) ∧ f a = .error e := by
  induction l with
  | nil => simp [pure, Except.pure] at h
  | cons a l ih =>
      rw [List.mapM_cons] at h
      cases ha : f a with
      | error e' =>
          rw [ha] at h
          cases h
          exact ⟨[], a, l, rfl, by simp, ha⟩
      | ok b =>
          have hl : l.mapM f = .error e := by
            cases hl : l.mapM f with
            | error e' => simpa [ha, hl, bind, Except.bind] using h
            | ok bs => simp [ha, hl, bind, Except.bind, pure, Except.pure] at h
          obtain ⟨l₁, c, l₂, rfl, hok, hc⟩ := ih hl
          exact ⟨a :: l₁, c, l₂, rfl, by simpa [ha] using hok, hc⟩

theorem exists_getElem?_of_forall₂ {α β : Type} {P : α → β → Prop} {l : List α} {l' : List β}
    (h : List.Forall₂ P l l') {i : Nat} {a : α} (hi : l[i]? = some a) :
    ∃ b, l'[i]? = some b ∧ P a b := by
  induction h generalizing i with
  | nil => simp at hi
  | @cons a' b l l' hab _ ih =>
      cases i with
      | zero =>
          obtain rfl : a' = a := by simpa using hi
          exact ⟨b, rfl, hab⟩
      | succ i => exact ih hi

/-! ### Where a token leads -/

/-- A clause leaves the next label as it is or sets it to its target. -/
theorem Scan.step_next (s : Scan) (clause : TokenClause) :
    (s.step clause).reading.next = s.reading.next ∨
      ∃ side, clause = .transition side (s.step clause).reading.next := by
  cases clause with
  | rename source target => exact .inl rfl
  | decision position verdict rhs =>
      simp only [Scan.step]
      split <;> exact .inl rfl
  | transition side next =>
      simp only [Scan.step]
      split
      · exact .inr ⟨side, rfl⟩
      · exact .inl rfl

theorem Scan.foldl_step_next (clauses : List TokenClause) (s : Scan) :
    (clauses.foldl Scan.step s).reading.next = s.reading.next ∨
      ∃ side, .transition side (clauses.foldl Scan.step s).reading.next ∈ clauses := by
  induction clauses generalizing s with
  | nil => exact .inl rfl
  | cons clause clauses ih =>
      rw [List.foldl_cons]
      rcases ih (s.step clause) with h | ⟨side, h⟩
      · rw [h]
        rcases s.step_next clause with h' | ⟨side, h'⟩
        · exact .inl h'
        · exact .inr ⟨side, by rw [← h']; exact List.mem_cons_self⟩
      · exact .inr ⟨side, List.mem_cons_of_mem _ h⟩

/-- The transitions that face a token are transitions of the rules. -/
theorem exists_target_of_mem_tokenClauses {state next : String} {side : Side} {i : Nat}
    {rules : List Rule} (h : .transition side next ∈ tokenClauses state i rules) :
    ∃ rule ∈ rules, RuleSet.target? rule = some next := by
  induction rules generalizing state i with
  | nil => cases h
  | cons rule rest ih =>
      by_cases htarget : RuleSet.target? rule = some next
      · exact ⟨rule, List.mem_cons_self, htarget⟩
      · have hrest : ∃ state', .transition side next ∈ tokenClauses state' (i + 1) rest := by
          unfold tokenClauses at h
          split at h
          · exact ⟨_, List.mem_of_ne_of_mem (by simp) h⟩
          · next lhs token target hclause =>
              have hne : next ≠ target := by
                rintro rfl
                exact htarget (by simp [RuleSet.target?, hclause])
              split at h
              · exact ⟨_, List.mem_of_ne_of_mem (by simp [hne]) h⟩
              · exact ⟨_, h⟩
          · split at h
            · exact ⟨_, List.mem_of_ne_of_mem (by simp) h⟩
            · exact ⟨_, h⟩
        obtain ⟨state', hstate'⟩ := hrest
        obtain ⟨r, hr, hnext⟩ := ih hstate'
        exact ⟨r, List.mem_cons_of_mem _ hr, hnext⟩

namespace RuleSet

/-- A token leads to itself or to the target of a transition. -/
theorem scan_next (R : RuleSet) (state token : String) :
    (R.scan state token).next = token ∨
      (R.scan state token).next ∈ R.rules.filterMap target? := by
  rcases Scan.foldl_step_next (R.facing state) (Scan.begin token) with h | ⟨side, h⟩
  · exact .inl h
  · obtain ⟨rule, hrule, hnext⟩ := exists_target_of_mem_tokenClauses h
    exact .inr (List.mem_filterMap.mpr ⟨rule, hrule, hnext⟩)

theorem start_mem_labels (R : RuleSet) (start : String) : start ∈ R.labels start := by
  simp [labels]

theorem scan_next_mem_labels (R : RuleSet) (start state : String) {token : String}
    (h : token ∈ R.tokens) : (R.scan state token).next ∈ R.labels start := by
  rw [labels, mem_distinct]
  rcases R.scan_next state token with hnext | hnext
  · rw [hnext]
    exact List.mem_cons_of_mem _ (List.mem_append_left _ h)
  · exact List.mem_cons_of_mem _ (List.mem_append_right _ hnext)

/-! ### Rows -/

/-- A cell that holds what the rules say about a state and a token. -/
def Answers (R : RuleSet) (state token : String) (c : Cell String) : Prop :=
  (R.scan state token).verdict = some c.verdict ∧ (R.scan state token).next = c.next

/-- The rules have a verdict for a state and a token. -/
def Decides (R : RuleSet) (state token : String) : Prop :=
  (R.scan state token).verdict.isSome

instance (R : RuleSet) (state token : String) : Decidable (R.Decides state token) :=
  inferInstanceAs (Decidable (_ = true))

/-- There is at most one cell that holds what the rules say. -/
theorem Answers.unique {R : RuleSet} {state token : String} {c d : Cell String}
    (hc : R.Answers state token c) (hd : R.Answers state token d) : c = d := by
  obtain ⟨verdict, next⟩ := c
  obtain ⟨verdict', next'⟩ := d
  have hverdict : verdict = verdict' := Option.some.inj (hc.1.symm.trans hd.1)
  have hnext : next = next' := hc.2.symm.trans hd.2
  rw [hverdict, hnext]

theorem decides_iff_exists_answers {R : RuleSet} {state token : String} :
    R.Decides state token ↔ ∃ c, R.Answers state token c := by
  constructor
  · intro h
    obtain ⟨verdict, hverdict⟩ := Option.isSome_iff_exists.mp h
    exact ⟨⟨verdict, _⟩, hverdict, rfl⟩
  · rintro ⟨c, hc⟩
    exact Option.isSome_iff_exists.mpr ⟨_, hc.1⟩

/-- The cell of a row is read off the scan of its state and its token. -/
theorem cell_facing (R : RuleSet) (state token : String) :
    cell (R.facing state) token =
      match (R.scan state token).verdict with
      | some verdict => .ok ⟨verdict, (R.scan state token).next⟩
      | none => .error token := rfl

theorem cell_facing_eq_ok_iff {R : RuleSet} {state token : String} {c : Cell String} :
    cell (R.facing state) token = .ok c ↔ R.Answers state token c := by
  obtain ⟨verdict, next⟩ := c
  rw [cell_facing]
  cases h : (R.scan state token).verdict with
  | none => simp [Answers, h]
  | some verdict' => simp [Answers, h]

theorem cell_facing_eq_error_iff {R : RuleSet} {state token bad : String} :
    cell (R.facing state) token = .error bad ↔ bad = token ∧ ¬ R.Decides state token := by
  rw [cell_facing]
  cases h : (R.scan state token).verdict with
  | none => simp [Decides, h, eq_comm]
  | some verdict => simp [Decides, h]

/-- A row has, for every token, the cell that holds what the rules say. -/
theorem row_eq_ok_iff {R : RuleSet} {state : String} {cells : List (Cell String)} :
    R.row state = .ok cells ↔ List.Forall₂ (R.Answers state) R.tokens cells := by
  rw [row, mapM_eq_ok_iff]
  simp only [cell_facing_eq_ok_iff]

/-- A row that cannot be built names the first token without a verdict. -/
theorem exists_of_row_eq_error {R : RuleSet} {state token : String}
    (h : R.row state = .error token) :
    ∃ before after, R.tokens = before ++ token :: after ∧
      (∀ t ∈ before, R.Decides state t) ∧ ¬ R.Decides state token := by
  obtain ⟨before, bad, after, htokens, hbefore, hbad⟩ := exists_of_mapM_eq_error h
  obtain ⟨rfl, hundecided⟩ := cell_facing_eq_error_iff.mp hbad
  refine ⟨before, after, htokens, ?_, hundecided⟩
  intro t ht
  obtain ⟨c, hc⟩ := hbefore t ht
  exact decides_iff_exists_answers.mpr ⟨c, cell_facing_eq_ok_iff.mp hc⟩

/-- A state with a row has a verdict for every token. -/
theorem decides_of_row_eq_ok {R : RuleSet} {state : String} {cells : List (Cell String)}
    (h : R.row state = .ok cells) : ∀ token ∈ R.tokens, R.Decides state token := by
  intro token htoken
  obtain ⟨i, hi⟩ := List.getElem?_of_mem htoken
  obtain ⟨c, -, hc⟩ := exists_getElem?_of_forall₂ (row_eq_ok_iff.mp h) hi
  exact decides_iff_exists_answers.mpr ⟨c, hc⟩

/-- The successors in a row are the labels that the tokens lead to. -/
theorem mem_row_next_iff {R : RuleSet} {state label : String} {cells : List (Cell String)}
    (h : R.row state = .ok cells) :
    (∃ c ∈ cells, c.next = label) ↔ ∃ token ∈ R.tokens, (R.scan state token).next = label := by
  have hrow := row_eq_ok_iff.mp h
  clear h
  generalize R.tokens = tokens at hrow
  induction hrow with
  | nil => simp
  | cons hc _ ih => simp [← ih, hc.2]

/-! ### Labels that can be reached -/

/-- The rules lead from `start` to a label by tokens of the alphabet. -/
inductive Reaches (R : RuleSet) (start : String) : String → Prop where
  | refl : Reaches R start start
  | step {label token : String} : Reaches R start label → token ∈ R.tokens →
      Reaches R start (R.scan label token).next

theorem Reaches.trans {R : RuleSet} {start mid label : String}
    (h₁ : R.Reaches start mid) (h₂ : R.Reaches mid label) : R.Reaches start label := by
  induction h₂ with
  | refl => exact h₁
  | step _ htoken ih => exact ih.step htoken

/-- The label behind a text that is read from a label on. -/
def labelAfter (R : RuleSet) : String → List String → String
  | label, [] => label
  | label, token :: rest => R.labelAfter (R.scan label token).next rest

@[simp] theorem labelAfter_nil (R : RuleSet) (label : String) : R.labelAfter label [] = label :=
  rfl

theorem labelAfter_cons (R : RuleSet) (label token : String) (rest : List String) :
    R.labelAfter label (token :: rest) = R.labelAfter (R.scan label token).next rest := rfl

theorem labelAfter_append (R : RuleSet) (label : String) (before after : List String) :
    R.labelAfter label (before ++ after) = R.labelAfter (R.labelAfter label before) after := by
  induction before generalizing label with
  | nil => rfl
  | cons token before ih => rw [List.cons_append, labelAfter_cons, labelAfter_cons, ih]

/-- The labels that can be reached are those behind the texts over the alphabet. -/
theorem reaches_iff_exists_labelAfter {R : RuleSet} {start label : String} :
    R.Reaches start label ↔
      ∃ tokens : List String, tokens ⊆ R.tokens ∧ R.labelAfter start tokens = label := by
  constructor
  · intro h
    induction h with
    | refl => exact ⟨[], by simp, rfl⟩
    | @step label token _ htoken ih =>
        obtain ⟨tokens, htokens, rfl⟩ := ih
        refine ⟨tokens ++ [token], ?_, labelAfter_append R start tokens [token]⟩
        simpa [List.append_subset] using ⟨htokens, htoken⟩
  · rintro ⟨tokens, htokens, rfl⟩
    induction tokens generalizing start with
    | nil => exact .refl
    | cons token tokens ih =>
        obtain ⟨htoken, hrest⟩ := List.cons_subset.mp htokens
        exact (Reaches.refl.step htoken).trans (ih hrest)

end RuleSet

end BreakRules
