import BreakRules.Glob.Resolve
import Mathlib.Data.List.Lex
import Mathlib.Data.List.Sort
import Mathlib.Data.Prod.Lex
import Mathlib.Data.String.Basic

/-!
# The order of paths

Components are linearly ordered, by kind and then by text, and lists of components are
ordered with them, entry by entry. `Path.compare` decides this order of the components
of two paths, so two paths compare as equal exactly if they are the same path. The order
of the texts is another one: a slash is a character like others there.

Paths that are the same are therefore neighbours once they are sorted, and so
`Glob.sortPaths`, which looks at neighbours only, keeps one text of every path:
`Glob.pairwise_sortPaths`, `Glob.exists_mem_sortPaths`.
-/

namespace BreakRules

namespace Component

/-- What components are ordered by. -/
def key (c : Component) : ℕ ×ₗ String := toLex (c.rank, c.text)

theorem key_injective : Function.Injective key := by
  intro a b h
  cases a <;> cases b <;> simp_all [key, rank, text]

instance : LinearOrder Component := LinearOrder.lift' key key_injective

theorem lt_iff {a b : Component} :
    a < b ↔ a.rank < b.rank ∨ a.rank = b.rank ∧ a.text < b.text :=
  Prod.Lex.toLex_lt_toLex

theorem compare_eq_lt_iff {a b : Component} : a.compare b = .lt ↔ a < b := by
  rw [lt_iff]
  cases a <;> cases b <;> simp [compare, rank, text, compare_lt_iff_lt]

theorem compare_eq_eq_iff {a b : Component} : a.compare b = .eq ↔ a = b := by
  cases a <;> cases b <;> simp [compare, rank]

end Component

namespace Path

theorem compareComponents_eq_lt_iff {as bs : List Component} :
    compareComponents as bs = .lt ↔ as < bs := by
  fun_induction compareComponents as bs with
  | case1 => simp
  | case2 b bs => simp
  | case3 a as => simp
  | case4 a as b bs ih =>
      rw [Ordering.then_eq_lt, Component.compare_eq_lt_iff, Component.compare_eq_eq_iff, ih,
        List.cons_lt_cons_iff]

theorem compareComponents_eq_eq_iff {as bs : List Component} :
    compareComponents as bs = .eq ↔ as = bs := by
  fun_induction compareComponents as bs with
  | case1 => simp
  | case2 b bs => simp
  | case3 a as => simp
  | case4 a as b bs ih =>
      rw [Ordering.then_eq_eq, Component.compare_eq_eq_iff, ih, List.cons.injEq]

theorem compare_eq_eq_iff {a b : String} : compare a b = .eq ↔ components a = components b :=
  compareComponents_eq_eq_iff

theorem isLE_compare_iff {a b : String} :
    (compare a b).isLE ↔ components a ≤ components b := by
  rw [Ordering.isLE_iff_eq_lt_or_eq_eq, compare_eq_eq_iff, compare, compareComponents_eq_lt_iff,
    le_iff_lt_or_eq]

/-- A directory goes before a longer name, although a slash goes behind a dash. -/
example : compare "a/x.rules" "a-b.rules" = .lt ∧ "a-b.rules" < "a/x.rules" := by
  decide

end Path

namespace Glob

theorem dropRepeated_sublist (paths : List String) : (dropRepeated paths).Sublist paths := by
  fun_induction dropRepeated paths with
  | case1 a b rest heq ih => exact ih.trans ((List.sublist_cons_self b rest).cons_cons a)
  | case2 a b rest hne ih => exact ih.cons_cons a
  | case3 paths => exact List.Sublist.refl paths

/-- Every path keeps one of its texts. -/
theorem exists_mem_dropRepeated {paths : List String} {path : String} (h : path ∈ paths) :
    ∃ kept ∈ dropRepeated paths, Path.components kept = Path.components path := by
  fun_induction dropRepeated paths generalizing path with
  | case1 a b rest heq ih =>
      rcases List.mem_cons.mp h with rfl | h
      · exact ih List.mem_cons_self
      rcases List.mem_cons.mp h with rfl | h
      · rw [← Path.compare_eq_eq_iff.mp heq]
        exact ih List.mem_cons_self
      · exact ih (List.mem_cons_of_mem a h)
  | case2 a b rest hne ih =>
      rcases List.mem_cons.mp h with rfl | h
      · exact ⟨path, List.mem_cons_self, rfl⟩
      · obtain ⟨kept, hkept, heq⟩ := ih h
        exact ⟨kept, List.mem_cons_of_mem a hkept, heq⟩
  | case3 paths => exact ⟨path, h, rfl⟩

theorem pairwise_dropRepeated {paths : List String}
    (h : paths.Pairwise fun a b => Path.components a ≤ Path.components b) :
    (dropRepeated paths).Pairwise fun a b => Path.components a < Path.components b := by
  fun_induction dropRepeated paths with
  | case1 a b rest heq ih =>
      exact ih (h.sublist ((List.sublist_cons_self b rest).cons_cons a))
  | case2 a b rest hne ih =>
      obtain ⟨hfirst, hrest⟩ := List.pairwise_cons.mp h
      refine List.pairwise_cons.mpr ⟨fun path hpath => ?_, ih hrest⟩
      have hlt : Path.components a < Path.components b :=
        lt_of_le_of_ne (hfirst b List.mem_cons_self) fun hsame =>
          hne (Path.compare_eq_eq_iff.mpr hsame)
      -- What is kept behind `b` is not before `b`, since the list was sorted.
      rcases List.mem_cons.mp ((dropRepeated_sublist _).subset hpath) with rfl | hmem
      · exact hlt
      · exact hlt.trans_le ((List.pairwise_cons.mp hrest).1 path hmem)
  | case3 paths hshort =>
      match paths, hshort with
      | [], _ => exact .nil
      | [a], _ => exact List.pairwise_singleton _ a
      | a :: b :: rest, hshort => exact absurd rfl (hshort a b rest)

theorem mem_of_mem_sortPaths {paths : List String} {path : String} (h : path ∈ sortPaths paths) :
    path ∈ paths :=
  List.mem_mergeSort.mp ((dropRepeated_sublist _).subset h)

theorem exists_mem_sortPaths {paths : List String} {path : String} (h : path ∈ paths) :
    ∃ kept ∈ sortPaths paths, Path.components kept = Path.components path :=
  exists_mem_dropRepeated (List.mem_mergeSort.mpr h)

theorem pairwise_sortPaths (paths : List String) :
    (sortPaths paths).Pairwise fun a b => Path.components a < Path.components b := by
  refine pairwise_dropRepeated ((List.pairwise_mergeSort ?_ ?_ paths).imp Path.isLE_compare_iff.mp)
  · intro a b c hab hbc
    rw [Path.isLE_compare_iff] at hab hbc ⊢
    exact hab.trans hbc
  · intro a b
    rw [Bool.or_eq_true, Path.isLE_compare_iff, Path.isLE_compare_iff]
    exact le_total _ _

end Glob

end BreakRules
