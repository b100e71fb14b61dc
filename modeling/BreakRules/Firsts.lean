import Std.Data.HashMap

/-!
# First entries

`firsts l` holds, for every key in a list of entries, the value of its first
entry, so that many keys can be looked up in one long list: `getElem?_firsts`.
`positions l` holds the first position of every entry of `l`.
-/

namespace BreakRules

variable {κ β : Type} [BEq κ] [Hashable κ]

/-- The map with the entries of a list whose keys it does not have yet. -/
def addFirsts (m : Std.HashMap κ β) (l : List (κ × β)) : Std.HashMap κ β :=
  l.foldl (fun m e => m.insertIfNew e.1 e.2) m

def firsts (l : List (κ × β)) : Std.HashMap κ β :=
  addFirsts ∅ l

theorem getElem?_addFirsts [LawfulBEq κ] (m : Std.HashMap κ β) (l : List (κ × β)) (k : κ) :
    (addFirsts m l)[k]? = m[k]?.or (l.lookup k) := by
  induction l generalizing m with
  | nil => simp [addFirsts]
  | cons e l ih =>
      obtain ⟨a, b⟩ := e
      have step : (addFirsts m ((a, b) :: l))[k]? = (m.insertIfNew a b)[k]?.or (l.lookup k) :=
        ih _
      rw [step, Std.HashMap.getElem?_insertIfNew]
      by_cases hk : a = k
      · subst hk
        by_cases hm : a ∈ m <;> simp [hm]
      · have hk' : (k == a) = false := by simpa using Ne.symm hk
        simp [hk, List.lookup_cons, hk']

@[simp] theorem getElem?_firsts [LawfulBEq κ] (l : List (κ × β)) (k : κ) :
    (firsts l)[k]? = l.lookup k := by
  simp [firsts, getElem?_addFirsts]

def positions (l : List κ) : Std.HashMap κ Nat :=
  firsts l.zipIdx

omit [Hashable κ] in
theorem lookup_zipIdx [LawfulBEq κ] (l : List κ) (n : Nat) (k : κ) :
    (l.zipIdx n).lookup k = (l.idxOf? k).map (· + n) := by
  induction l generalizing n with
  | nil => rfl
  | cons a l ih =>
      by_cases h : k = a
      · subst h
        simp [List.zipIdx_cons, List.idxOf?_cons]
      · have hk : (k == a) = false := by simpa using h
        have ha : (a == k) = false := by simpa using Ne.symm h
        simp only [List.zipIdx_cons, List.lookup_cons, List.idxOf?_cons, hk, ha, ih]
        simp [Function.comp_def, Nat.add_assoc, Nat.add_comm 1 n]

@[simp] theorem getElem?_positions [LawfulBEq κ] (l : List κ) (k : κ) :
    (positions l)[k]? = l.idxOf? k := by
  simp [positions, lookup_zipIdx]

end BreakRules
