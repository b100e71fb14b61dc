import BreakRules.Distinct
import BreakRules.Firsts
import BreakRules.Machine
import BreakRules.Memo

/-!
# Merging states with equal rows

The handles that the order of a raw table lists fall into groups with one and
the same row. The groups stand in the order in which their rows are first met,
and so do the handles inside of a group. Rows are compared as they are, by
handle: two states that differ only in successors that are merged themselves
stay apart.

A handle that the order does not list belongs to no group and counts as a
member of the first.
-/

namespace BreakRules.RawTable

/-- The handles that the order lists, each once. -/
def listed (t : RawTable) : List Nat :=
  distinct t.order

/-- The rows of the listed handles, each once. -/
def rows (t : RawTable) : List (List (Cell Nat)) :=
  distinct (t.listed.map t.row)

/-- The position of the group that a handle belongs to, where `places` has the
positions of rows. -/
def groupIndex (t : RawTable) (places : Std.HashMap (List (Cell Nat)) Nat) (handle : Nat) :
    Nat :=
  if handle ∈ t.order then places[t.row handle]?.getD 0 else 0

/-- The machine whose states are the groups of a table. -/
def merge (t : RawTable) (tokens : List String) : Machine :=
  let listed := t.listed
  let rows := t.rows
  let index := Memo.of (t.groupIndex (positions rows)) listed
  { tokens := tokens
    start := index.get t.start
    states := rows.zipIdx.map fun (row, i) =>
      ⟨i, (listed.filter (index.get · == i)).map t.label, row.map (·.map index.get)⟩ }

end BreakRules.RawTable
