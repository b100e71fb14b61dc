import BreakRules.Command.Basic
import BreakRules.Journal

/-!
# What a command shows while it runs

A command repeats its arguments, notes records and moves a progress bar. These
are its events, and all of them go to the stream for errors. What they come to
there is not for the command to say. A bar is drawn on terminals only, and time
and again while it stands; and the environment may set a filter for records,
which takes precedence over the level that the command asks for. A `Console`
stands for all this.

The bar belongs to a `ProgressReporter`, which has none when it is quiet.
-/

namespace BreakRules

inductive BarCall where
  | create (length : Nat)
  | setStyle (template signs : String)
  | steadyTick (milliseconds : Nat)
  | setMessage (text : String)
  | advance (steps : Nat)
  | finishAndClear
deriving DecidableEq, Repr, Inhabited

/-- Shows the progress over rule files. It has a bar from its start on, unless it
is quiet. -/
structure ProgressReporter where
  quiet : Bool
  hasBar : Bool := false
deriving DecidableEq, Repr, Inhabited

namespace ProgressReporter

def template : String :=
  "[\x7belapsed_precise\x7d] \x7bbar:40.cyan/blue\x7d \x7bpos\x7d/\x7blen\x7d rule files \x7bmsg\x7d"

def start (p : ProgressReporter) (files : Nat) : ProgressReporter × List BarCall :=
  if p.quiet then (p, [])
  else
    ({ p with hasBar := true },
      [.create files, .setStyle template "##-", .steadyTick 100])

def completed (p : ProgressReporter) (file : String) : List BarCall :=
  if p.hasBar then [.setMessage ("Checked: " ++ file), .advance 1] else []

def finish (p : ProgressReporter) : List BarCall :=
  if p.hasBar then [.finishAndClear] else []

end ProgressReporter

inductive Event where
  | noted (r : Record)
  /-- The arguments of a compile command are noted for debugging. -/
  | arguments (a : CompileRequest)
  | bar (call : BarCall)
deriving DecidableEq, Repr, Inhabited

namespace Event

def record? : Event → Option Record
  | noted r => some r
  | _ => none

/-- The level of what is noted. The bar is none of it. -/
def level? : Event → Option Level
  | noted r => some r.level
  | arguments _ => some .debug
  | bar _ => none

def records (events : List Event) : List Record :=
  events.filterMap record?

@[simp] theorem records_cons_noted (r : Record) (events : List Event) :
    records (noted r :: events) = r :: records events := rfl

@[simp] theorem records_append (events more : List Event) :
    records (events ++ more) = records events ++ records more :=
  List.filterMap_append

@[simp] theorem records_flatMap {α : Type} (l : List α) (f : α → List Event) :
    records (l.flatMap f) = l.flatMap fun a => records (f a) :=
  List.filterMap_flatMap

@[simp] theorem records_map_noted (notes : List Record) : records (notes.map noted) = notes := by
  rw [records, List.filterMap_map]
  exact List.filterMap_some

@[simp] theorem records_map_bar (calls : List BarCall) : records (calls.map bar) = [] := by
  rw [records, List.filterMap_map, List.filterMap_eq_nil_iff]
  intro call _
  rfl

end Event

/-- What decides what is seen of events. -/
structure Console where
  /-- The filter that the environment sets for what is noted. -/
  filter : Option (Event → Bool) := none
  /-- What the events that are shown come to. -/
  draw : List Event → String

namespace Console

/-- A stream that is no terminal, without a filter. No bar is drawn there. Nothing
is settled here about the spelling of arguments, so they are left out as well. -/
def plain : Console where
  draw events := "".intercalate ((Event.records events).map (·.text))

/-- Whether an event is shown when a level is asked for. -/
def shows (console : Console) (level : Level) (e : Event) : Bool :=
  match e.level? with
  | none => true
  | some l =>
      match console.filter with
      | some passes => passes e
      | none => l.rank ≤ level.rank

end Console

end BreakRules
