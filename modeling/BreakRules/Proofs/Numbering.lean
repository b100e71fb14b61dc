import BreakRules.Proofs.Enumerators
import Mathlib.Order.Bounds.Basic

/-!
# How enumerators are numbered

A state whose name is taken tries its name with one number after the other, from
its index on. `Header.Seeks` is this search, try by try, and `Header.Gets` says
where it leads: to the name itself, or to the name with the least number that makes
it new. The names that are passed over are different from one another and all in
use, and the name without a number is one of them, so there are at most as many of
them as states before (`Header.lt_length_of_taken`). This is what ends the search,
and it keeps the number a word of 64 bits as long as the index leaves room for the
number of states.
-/

namespace BreakRules.Header

/-- The name that a state gets when those in `used` are taken. -/
inductive Gets (used : List String) (base : String) (n : Nat) : String → Prop where
  | plain : base ∉ used → Gets used base n base
  | numbered {m : Nat} : base ∈ used →
      IsLeast {m | n ≤ m ∧ base ++ "_" ++ toString m ∉ used} m →
      Gets used base n (base ++ "_" ++ toString m)

/-- A search that stands at `ident` and has `n` for its next number passes over `k`
names that are taken and ends at `found`. No number is followed by one that is no
word. -/
inductive Seeks (used : List String) (base : String) : String → Nat → Nat → String → Prop where
  | stop {ident : String} {n : Nat} : ident ∉ used → Seeks used base ident n 0 ident
  | retry {ident found : String} {n k : Nat} : ident ∈ used → n + 1 < UInt64.size →
      Seeks used base (numbered base n) (n + 1) k found → Seeks used base ident n (k + 1) found

/-! ### The first number -/

theorem numbered_ne (base : String) (n : Nat) : numbered base n ≠ base := by
  intro h
  have hlist := congrArg String.toList h
  simp [numbered] at hlist

theorem suffix_eq_add {n k : Nat} (h : n + k < UInt64.size) : suffix n k = n + k := by
  rw [suffix, if_pos (by omega), Nat.mod_eq_of_lt h]

section Fresh

variable {used : List String} {base : String} {n k : Nat}

/-- Numbers that make no new name are fewer than the names in use. -/
theorem lt_length_of_taken (hbase : base ∈ used)
    (htaken : ∀ j < k, numbered base (suffix n j) ∈ used) : k < used.length := by
  have hnodup : (base :: (List.range k).map fun j => numbered base (suffix n j)).Nodup := by
    refine List.nodup_cons.mpr ⟨fun hmem => ?_, List.nodup_range.map fun _ _ heq => ?_⟩
    · obtain ⟨j, -, hj⟩ := List.mem_map.mp hmem
      exact numbered_ne base _ hj
    · exact suffix_inj (numbered_inj heq)
  have hsubset : (base :: (List.range k).map fun j => numbered base (suffix n j)) ⊆ used := by
    refine List.cons_subset.mpr ⟨hbase, fun name hname => ?_⟩
    obtain ⟨j, hj, rfl⟩ := List.mem_map.mp hname
    exact htaken j (List.mem_range.mp hj)
  have hle := hnodup.length_le_of_subset hsubset
  rw [List.length_cons, List.length_map, List.length_range] at hle
  exact hle

/-- A name that is taken gets the first number that makes it new. -/
theorem exists_fresh_eq_first (hbase : base ∈ used) (n : Nat) :
    ∃ k < used.length, fresh used base n = numbered base (suffix n k) ∧
      numbered base (suffix n k) ∉ used ∧ ∀ j < k, numbered base (suffix n j) ∈ used := by
  cases hfind : (List.range (used.length + 1)).find? fun k => numbered base (suffix n k) ∉ used with
  | none =>
      have htaken : ∀ j < used.length + 1, numbered base (suffix n j) ∈ used := by
        simpa using List.find?_eq_none.mp hfind
      have hlt := lt_length_of_taken hbase htaken
      omega
  | some k =>
      obtain ⟨hnew, -, hbefore⟩ := List.find?_range_eq_some.mp hfind
      have htaken : ∀ j < k, numbered base (suffix n j) ∈ used := by simpa using hbefore
      refine ⟨k, lt_length_of_taken hbase htaken, ?_, by simpa using hnew, htaken⟩
      simp only [fresh, if_pos hbase, List.find?_map, Function.comp_def, hfind, Option.map_some,
        Option.getD_some]

variable (hbound : n + used.length < UInt64.size)
include hbound

/-- Where the numbers do not run out, they are counted up. -/
theorem exists_fresh_eq_numbered_add (hbase : base ∈ used) :
    ∃ k < used.length, fresh used base n = numbered base (n + k) ∧
      numbered base (n + k) ∉ used ∧ ∀ j < k, numbered base (n + j) ∈ used := by
  obtain ⟨k, hk, hfresh, hnew, htaken⟩ := exists_fresh_eq_first hbase n
  have hsuffix : ∀ j ≤ k, suffix n j = n + j := fun j hj => suffix_eq_add (by omega)
  rw [hsuffix k (Nat.le_refl k)] at hfresh hnew
  refine ⟨k, hk, hfresh, hnew, fun j hj => ?_⟩
  rw [← hsuffix j hj.le]
  exact htaken j hj

theorem gets_fresh (base : String) : Gets used base n (fresh used base n) := by
  by_cases hbase : base ∈ used
  · obtain ⟨k, -, hfresh, hnew, htaken⟩ := exists_fresh_eq_numbered_add hbound hbase
    rw [hfresh]
    refine .numbered hbase ⟨⟨Nat.le_add_right n k, hnew⟩, fun m hm => ?_⟩
    obtain ⟨hle, hfree⟩ := hm
    by_contra hlt
    have htry := htaken (m - n) (by omega)
    rw [Nat.add_sub_cancel' hle] at htry
    exact hfree htry
  · rw [fresh_of_not_mem hbase]
    exact .plain hbase

end Fresh

/-! ### The search -/

/-- A search passes over the numbers whose names are taken. -/
theorem seeks_numbered {used : List String} {base ident : String} {n k : Nat}
    (hident : ident ∈ used) (htaken : ∀ j < k, numbered base (n + j) ∈ used)
    (hnew : numbered base (n + k) ∉ used) (hbound : n + k + 1 < UInt64.size) :
    Seeks used base ident n (k + 1) (numbered base (n + k)) := by
  induction k generalizing n ident with
  | zero => exact .retry hident hbound (.stop hnew)
  | succ k ih =>
      have hshift : ∀ j, n + 1 + j = n + (j + 1) := fun j => by omega
      have hnext : numbered base n ∈ used := htaken 0 (Nat.succ_pos k)
      refine .retry hident (by omega) ?_
      rw [← hshift k]
      refine ih hnext (fun j hj => ?_) ?_ (by omega)
      · rw [hshift]
        exact htaken (j + 1) (Nat.succ_lt_succ hj)
      · rw [hshift]
        exact hnew

/-- The search ends, and passes over no more names than are in use. -/
theorem exists_seeks_fresh {used : List String} {n : Nat} (base : String)
    (hbound : n + used.length < UInt64.size) :
    ∃ k ≤ used.length, Seeks used base base n k (fresh used base n) := by
  by_cases hbase : base ∈ used
  · obtain ⟨k, hk, hfresh, hnew, htaken⟩ := exists_fresh_eq_numbered_add hbound hbase
    rw [hfresh]
    exact ⟨k + 1, hk, seeks_numbered hbase htaken hnew (by omega)⟩
  · rw [fresh_of_not_mem hbase]
    exact ⟨0, Nat.zero_le _, .stop hbase⟩

/-! ### The enumerators of a machine -/

theorem getElem?_identifiersFrom {statePrefix : String} {used : List String} {states : List State}
    {i : Nat} {s : State} (h : states[i]? = some s) :
    (identifiersFrom statePrefix used states)[i]? =
      some (fresh (used ++ (identifiersFrom statePrefix used states).take i)
        (identifier (statePrefix ++ s.name)) s.index) := by
  induction states generalizing used i with
  | nil => cases h
  | cons first states ih =>
      cases i with
      | zero =>
          obtain rfl : first = s := by simpa using h
          simp [identifiersFrom]
      | succ i =>
          have hrest : states[i]? = some s := by simpa using h
          rw [identifiersFrom, List.getElem?_cons_succ, ih hrest, List.take_succ_cons,
            List.append_assoc, List.singleton_append]

/-- The enumerators of a machine are C identifiers, one for every state and no two of
them equal. The search for the enumerator of a state ends after at most as many tries
as there are states before it, at its name if that is new and otherwise at its name
with the least number from its index on that makes it new. -/
theorem identifiers_numbered_by_index (statePrefix : String) {M : Machine}
    (hindex : ∀ s ∈ M.states, s.index + M.states.length < UInt64.size) :
    (identifiers statePrefix M).length = M.states.length ∧
    (identifiers statePrefix M).Nodup ∧
    (∀ ident ∈ identifiers statePrefix M, IsIdentifier ident) ∧
    ∀ i s, M.states[i]? = some s → ∃ ident k, (identifiers statePrefix M)[i]? = some ident ∧
      Gets ((identifiers statePrefix M).take i) (identifier (statePrefix ++ s.name)) s.index
        ident ∧
      Seeks ((identifiers statePrefix M).take i) (identifier (statePrefix ++ s.name))
        (identifier (statePrefix ++ s.name)) s.index k ident ∧
      k ≤ i := by
  refine ⟨length_identifiers statePrefix M, nodup_identifiers statePrefix M,
    fun _ => isIdentifier_of_mem_identifiers, fun i s hs => ?_⟩
  have hi : i < M.states.length := (List.getElem?_eq_some_iff.mp hs).1
  have hlength : ((identifiers statePrefix M).take i).length = i := by
    rw [List.length_take, length_identifiers]
    omega
  have hroom : s.index + ((identifiers statePrefix M).take i).length < UInt64.size := by
    have hs' := hindex s (List.mem_of_getElem? hs)
    omega
  obtain ⟨k, hk, hseeks⟩ :=
    exists_seeks_fresh (identifier (statePrefix ++ s.name)) hroom
  rw [hlength] at hk
  refine ⟨_, k, getElem?_identifiersFrom hs, ?_, hseeks, hk⟩
  exact gets_fresh hroom _

/-- Labels that differ only in what a C identifier cannot hold. -/
def likeNamed : Machine where
  tokens := []
  start := 0
  states :=
    [⟨0, ["S"], []⟩, ⟨1, ["P_y_3"], []⟩, ⟨7, ["P.y"], []⟩, ⟨3, ["P", "y"], []⟩, ⟨3, ["P-y"], []⟩]

theorem identifiers_numbered_by_index_likeNamed :
    identifiers "STATE_" likeNamed =
      ["STATE_S", "STATE_P_y_3", "STATE_P_y", "STATE_P_y_4", "STATE_P_y_5"] ∧
    (identifiers "STATE_" likeNamed).Nodup ∧
    ∃ ident, (identifiers "STATE_" likeNamed)[4]? = some ident ∧
      Gets ["STATE_S", "STATE_P_y_3", "STATE_P_y", "STATE_P_y_4"] "STATE_P_y" 3 ident := by
  have hidents : identifiers "STATE_" likeNamed =
      ["STATE_S", "STATE_P_y_3", "STATE_P_y", "STATE_P_y_4", "STATE_P_y_5"] := by
    decide +kernel
  obtain ⟨-, hnodup, -, hgets⟩ :=
    identifiers_numbered_by_index "STATE_" (M := likeNamed) (by decide)
  obtain ⟨ident, k, hident, hname, -⟩ := hgets 4 ⟨3, ["P-y"], []⟩ rfl
  have hbase : identifier ("STATE_" ++ State.name ⟨3, ["P-y"], []⟩) = "STATE_P_y" := by
    decide +kernel
  rw [hbase, hidents] at hname
  exact ⟨hidents, hnodup, ident, hident, hname⟩

end BreakRules.Header
