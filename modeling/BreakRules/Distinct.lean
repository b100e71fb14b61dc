import Std.Data.HashSet

/-!
# Lists without repetitions

`distinct l` keeps the first occurrence of every entry of `l`, in order. What
has been met is held in a set, so that long lists take little time;
`distinct_cons` is the rule by which it is reasoned about.
-/

namespace BreakRules

variable {α : Type} [BEq α] [Hashable α]

/-- The entries of `kept`, last first, and those of a list that are not in
`seen`, each at its first occurrence. -/
def distinctFrom (seen : Std.HashSet α) (kept : List α) : List α → List α
  | [] => kept.reverse
  | a :: l =>
      if a ∈ seen then distinctFrom seen kept l
      else distinctFrom (seen.insert a) (a :: kept) l

/-- The entries of a list in the order of their first occurrence, each once. -/
def distinct (l : List α) : List α :=
  distinctFrom ∅ [] l

theorem distinctFrom_kept (seen : Std.HashSet α) (kept l : List α) :
    distinctFrom seen kept l = kept.reverse ++ distinctFrom seen [] l := by
  induction l generalizing seen kept with
  | nil => simp [distinctFrom]
  | cons a l ih =>
      by_cases h : a ∈ seen
      · simp only [distinctFrom, h, if_true]
        exact ih seen kept
      · simp only [distinctFrom, h, if_false]
        rw [ih _ (a :: kept), ih _ [a]]
        simp

theorem distinctFrom_cons_of_mem {seen : Std.HashSet α} {a : α} (h : a ∈ seen) (l : List α) :
    distinctFrom seen [] (a :: l) = distinctFrom seen [] l := by
  simp [distinctFrom, h]

theorem distinctFrom_cons_of_not_mem {seen : Std.HashSet α} {a : α} (h : a ∉ seen)
    (l : List α) :
    distinctFrom seen [] (a :: l) = a :: distinctFrom (seen.insert a) [] l := by
  simp only [distinctFrom, h, if_false]
  rw [distinctFrom_kept]
  rfl

/-- What has been seen is left out, whatever set holds it. -/
theorem distinctFrom_eq_filter [LawfulBEq α] {seen more : Std.HashSet α} {a : α}
    (h : ∀ x, x ∈ more ↔ x = a ∨ x ∈ seen) (l : List α) :
    distinctFrom more [] l = (distinctFrom seen [] l).filter (· != a) := by
  induction l generalizing seen more with
  | nil => simp [distinctFrom]
  | cons b l ih =>
      by_cases hb : b ∈ seen
      · rw [distinctFrom_cons_of_mem hb, distinctFrom_cons_of_mem ((h b).2 (.inr hb))]
        exact ih h
      · rw [distinctFrom_cons_of_not_mem hb]
        by_cases hab : b = a
        · subst hab
          rw [distinctFrom_cons_of_mem ((h b).2 (.inl rfl)), List.filter_cons_of_neg (by simp)]
          refine ih fun x => ?_
          rw [h x, Std.HashSet.mem_insert, beq_iff_eq]
          constructor
          · rintro (rfl | hx)
            · exact .inl rfl
            · exact .inr (.inr hx)
          · rintro (rfl | rfl | hx)
            · exact .inl rfl
            · exact .inl rfl
            · exact .inr hx
        · have hm : b ∉ more := fun hb' => ((h b).1 hb').elim hab hb
          rw [distinctFrom_cons_of_not_mem hm, List.filter_cons_of_pos (by simpa using hab)]
          congr 1
          refine ih fun x => ?_
          rw [Std.HashSet.mem_insert, Std.HashSet.mem_insert, beq_iff_eq, h x]
          exact or_left_comm

@[simp] theorem distinct_nil : distinct ([] : List α) = [] := rfl

theorem distinct_cons [LawfulBEq α] (a : α) (l : List α) :
    distinct (a :: l) = a :: (distinct l).filter (· != a) := by
  unfold distinct
  rw [distinctFrom_cons_of_not_mem Std.HashSet.not_mem_empty]
  congr 1
  refine distinctFrom_eq_filter (fun x => ?_) l
  rw [Std.HashSet.mem_insert, beq_iff_eq, eq_comm]

theorem distinct_append [LawfulBEq α] (l l' : List α) :
    distinct (l ++ l') = distinct l ++ (distinct l').filter fun a => !l.contains a := by
  induction l with
  | nil =>
      rw [List.nil_append, distinct_nil, List.nil_append]
      exact (List.filter_eq_self.mpr fun _ _ => rfl).symm
  | cons a l ih =>
      rw [List.cons_append, distinct_cons, distinct_cons, ih, List.filter_append,
        List.filter_filter, List.cons_append]
      congr 2
      refine List.filter_congr fun b _ => ?_
      rw [List.contains_cons, Bool.not_or]
      rfl

theorem distinct_filter [LawfulBEq α] (p : α → Bool) (l : List α) :
    distinct (l.filter p) = (distinct l).filter p := by
  induction l with
  | nil => rfl
  | cons a l ih =>
      by_cases ha : p a
      · rw [List.filter_cons_of_pos ha, distinct_cons, distinct_cons, List.filter_cons_of_pos ha,
          ih, List.filter_filter, List.filter_filter]
        simp only [Bool.and_comm]
      · rw [List.filter_cons_of_neg ha, distinct_cons, List.filter_cons_of_neg ha, ih,
          List.filter_filter]
        refine List.filter_congr fun b _ => ?_
        by_cases hba : b = a
        · simp [hba, ha]
        · simp [hba]

theorem distinct_eq_eraseDups [LawfulBEq α] : ∀ l : List α, distinct l = l.eraseDups
  | [] => rfl
  | a :: l => by
      rw [distinct_cons, ← distinct_filter, distinct_eq_eraseDups (l.filter (· != a)),
        List.eraseDups_cons]
      rfl
termination_by l => l.length
decreasing_by exact Nat.lt_succ_of_le (List.length_filter_le _ _)

@[simp] theorem mem_distinct [LawfulBEq α] {a : α} {l : List α} : a ∈ distinct l ↔ a ∈ l := by
  induction l with
  | nil => simp
  | cons b l ih =>
      by_cases h : a = b
      · simp [distinct_cons, h]
      · simp [distinct_cons, h, ih]

theorem nodup_distinct [LawfulBEq α] (l : List α) : (distinct l).Nodup := by
  induction l with
  | nil => simp
  | cons b l ih =>
      rw [distinct_cons, List.nodup_cons]
      exact ⟨by simp, ih.filter _⟩

end BreakRules
