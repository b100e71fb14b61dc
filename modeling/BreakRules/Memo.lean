import Std.Data.HashMap

/-!
# Kept values

A memo of a function keeps values that have been computed already. An argument
whose value was not kept is computed when it is asked for, so a memo saves time
and changes nothing: `Memo.get_eq`.
-/

namespace BreakRules

variable {α β : Type} [BEq α] [Hashable α]

/-- Values of a function under their arguments. -/
structure Memo (f : α → β) where
  kept : Std.HashMap α β
  kept_eq : ∀ a b, kept[a]? = some b → b = f a

namespace Memo

variable {f : α → β}

def empty : Memo f := ⟨∅, by simp⟩

def keep [LawfulBEq α] (m : Memo f) (a : α) : Memo f where
  kept := m.kept.insert a (f a)
  kept_eq := by
    intro x b h
    rw [Std.HashMap.getElem?_insert] at h
    split at h
    · next hax =>
        cases h
        rw [eq_of_beq hax]
    · exact m.kept_eq x b h

/-- The memo of a function that keeps its values for some arguments. -/
def of [LawfulBEq α] (f : α → β) (arguments : List α) : Memo f :=
  arguments.foldl keep empty

def get (m : Memo f) (a : α) : β :=
  match m.kept[a]? with
  | some b => b
  | none => f a

@[simp] theorem get_eq (m : Memo f) (a : α) : m.get a = f a := by
  unfold get
  split
  · next h => exact m.kept_eq a _ h
  · rfl

end Memo

end BreakRules
