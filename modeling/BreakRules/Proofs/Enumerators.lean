import BreakRules.Header
import Mathlib.Data.List.Nodup

/-!
# Enumerators

Every enumerator of a header is a C identifier, and no two of them are equal.
A name that is taken is given a number. The numbers that are tried are all
different, so among one more of them than there are names in use one is new:
`Header.fresh_not_mem`. This needs no bound on the number of states.
-/

namespace BreakRules.Header

/-! ### Identifiers -/

/-- A C identifier: letters, digits and underscores, with no digit in front. -/
structure IsIdentifier (s : String) : Prop where
  ne_nil : s.toList ≠ []
  isIdentifierChar : ∀ c ∈ s.toList, isIdentifierChar c = true
  isDigit_head : ∀ c ∈ s.toList.head?, c.isDigit = false

theorem isIdentifier_identifier (name : String) : IsIdentifier (identifier name) := by
  have hchars : ∀ c ∈ name.toList.map fun c => if isIdentifierChar c then c else '_',
      isIdentifierChar c = true := by
    intro c hc
    obtain ⟨d, -, rfl⟩ := List.mem_map.mp hc
    split
    · assumption
    · rfl
  unfold identifier
  generalize (name.toList.map fun c => if isIdentifierChar c then c else '_') = chars at hchars
  cases chars with
  | nil => exact ⟨by simp, by simp [Header.isIdentifierChar], by simp⟩
  | cons c rest =>
      simp only
      split
      · refine ⟨by simp, ?_, by simp⟩
        simpa using ⟨rfl, List.forall_mem_cons.mp hchars⟩
      · next hdigit => exact ⟨by simp, by simpa using hchars, by simpa using hdigit⟩

theorem isIdentifierChar_of_isDigit {c : Char} (h : c.isDigit = true) :
    isIdentifierChar c = true := by
  simp [isIdentifierChar, Char.isAlphanum, h]

theorem isDigit_of_mem_toString {n : Nat} {c : Char} (h : c ∈ (toString n).toList) :
    c.isDigit = true := by
  rw [Nat.toString_eq_ofList_toDigits, String.toList_ofList] at h
  exact Nat.isDigit_of_mem_toDigits (by decide) (by decide) h

theorem IsIdentifier.numbered {base : String} (h : IsIdentifier base) (n : Nat) :
    IsIdentifier (numbered base n) := by
  obtain ⟨c, chars, hcons⟩ := List.exists_cons_of_ne_nil h.ne_nil
  have hdigits : ∀ c ∈ (toString n).toList, Header.isIdentifierChar c = true :=
    fun c hc => isIdentifierChar_of_isDigit (isDigit_of_mem_toString hc)
  have hlist : (Header.numbered base n).toList = base.toList ++ '_' :: (toString n).toList := by
    simp [Header.numbered]
  refine ⟨by simp [hlist], ?_, ?_⟩
  · intro d hd
    rw [hlist, List.mem_append, List.mem_cons] at hd
    rcases hd with hd | rfl | hd
    · exact h.isIdentifierChar d hd
    · rfl
    · exact hdigits d hd
  · have hhead := h.isDigit_head
    rw [hlist]
    rw [hcons] at hhead ⊢
    exact hhead

/-! ### New names -/

theorem toString_inj {m n : Nat} (h : toString m = toString n) : m = n := by
  rw [Nat.toString_eq_ofList_toDigits, Nat.toString_eq_ofList_toDigits, String.ofList_inj] at h
  have hvalue := congrArg (Nat.ofDigitChars 10 · 0) h
  simpa only [Nat.ofDigitChars_ten_toDigits] using hvalue

theorem numbered_inj {base : String} {m n : Nat} (h : numbered base m = numbered base n) :
    m = n := by
  rw [numbered, numbered, String.append_right_inj] at h
  exact toString_inj h

theorem suffix_inj {n k l : Nat} (h : suffix n k = suffix n l) : k = l := by
  simp only [suffix, UInt64.size] at h
  split at h <;> split at h <;> omega

/-- Of more names than are in use one is new. -/
theorem exists_not_mem_of_length_lt (used : List String) {candidates : List String}
    (hnodup : candidates.Nodup) (hlt : used.length < candidates.length) :
    ∃ c ∈ candidates, c ∉ used := by
  by_contra hall
  push Not at hall
  have hle := hnodup.length_le_of_subset hall
  omega

theorem fresh_of_not_mem {used : List String} {base : String} (h : base ∉ used) (n : Nat) :
    fresh used base n = base :=
  if_neg h

theorem exists_fresh_eq_numbered {used : List String} {base : String} (h : base ∈ used) (n : Nat) :
    ∃ k, fresh used base n = numbered base (suffix n k) ∧ fresh used base n ∉ used := by
  have hnodup : ((List.range (used.length + 1)).map fun k => numbered base (suffix n k)).Nodup :=
    List.nodup_range.map fun _ _ heq => suffix_inj (numbered_inj heq)
  obtain ⟨c, hc, hnew⟩ := exists_not_mem_of_length_lt used hnodup (by simp)
  have hsome : (((List.range (used.length + 1)).map fun k =>
      numbered base (suffix n k)).find? (· ∉ used)).isSome :=
    List.find?_isSome.mpr ⟨c, hc, by simpa using hnew⟩
  obtain ⟨found, hfound⟩ := Option.isSome_iff_exists.mp hsome
  have hfresh : fresh used base n = found := by
    simp only [fresh, if_pos h, hfound, Option.getD_some]
  obtain ⟨k, -, rfl⟩ := List.mem_map.mp (List.mem_of_find?_eq_some hfound)
  exact ⟨k, hfresh, by rw [hfresh]; simpa using List.find?_some hfound⟩

theorem fresh_not_mem (used : List String) (base : String) (n : Nat) :
    fresh used base n ∉ used := by
  by_cases h : base ∈ used
  · obtain ⟨k, -, hnew⟩ := exists_fresh_eq_numbered h n
    exact hnew
  · rwa [fresh_of_not_mem h]

theorem isIdentifier_fresh (used : List String) {base : String} (hbase : IsIdentifier base)
    (n : Nat) : IsIdentifier (fresh used base n) := by
  by_cases h : base ∈ used
  · obtain ⟨k, heq, -⟩ := exists_fresh_eq_numbered h n
    rw [heq]
    exact hbase.numbered _
  · rwa [fresh_of_not_mem h]

/-! ### The enumerators of a machine -/

theorem length_identifiersFrom (statePrefix : String) (used : List String) (states : List State) :
    (identifiersFrom statePrefix used states).length = states.length := by
  induction states generalizing used with
  | nil => rfl
  | cons s states ih => simp [identifiersFrom, ih]

theorem isIdentifier_of_mem_identifiersFrom {statePrefix : String} {used : List String}
    {states : List State} {ident : String}
    (h : ident ∈ identifiersFrom statePrefix used states) : IsIdentifier ident := by
  induction states generalizing used with
  | nil => cases h
  | cons s states ih =>
      rcases List.mem_cons.mp h with rfl | hrest
      · exact isIdentifier_fresh used (isIdentifier_identifier _) s.index
      · exact ih hrest

/-- An enumerator is none of those before it. -/
theorem not_mem_used_of_mem_identifiersFrom {statePrefix : String} {used : List String}
    {states : List State} {ident : String}
    (h : ident ∈ identifiersFrom statePrefix used states) : ident ∉ used := by
  induction states generalizing used with
  | nil => cases h
  | cons s states ih =>
      rcases List.mem_cons.mp h with rfl | hrest
      · exact fresh_not_mem used _ s.index
      · exact fun hused => ih hrest (List.mem_append_left _ hused)

theorem nodup_identifiersFrom (statePrefix : String) (used : List String) (states : List State) :
    (identifiersFrom statePrefix used states).Nodup := by
  induction states generalizing used with
  | nil => exact List.nodup_nil
  | cons s states ih =>
      refine List.nodup_cons.mpr ⟨?_, ih _⟩
      intro hmem
      exact not_mem_used_of_mem_identifiersFrom hmem (List.mem_append_right _ List.mem_cons_self)

section Machine

variable (statePrefix : String) (M : Machine)

@[simp] theorem length_identifiers : (identifiers statePrefix M).length = M.states.length :=
  length_identifiersFrom statePrefix [] M.states

theorem nodup_identifiers : (identifiers statePrefix M).Nodup :=
  nodup_identifiersFrom statePrefix [] M.states

variable {statePrefix M}

theorem isIdentifier_of_mem_identifiers {ident : String} (h : ident ∈ identifiers statePrefix M) :
    IsIdentifier ident :=
  isIdentifier_of_mem_identifiersFrom h

end Machine

end BreakRules.Header
