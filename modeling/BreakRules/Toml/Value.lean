/-!
# TOML values and tables

The values that settings are written in: strings, numbers, dates, truth values,
arrays and tables. Numbers and dates are kept as they are written. A table
remembers how it came about, because that decides what may still be added to it.
`Toml.define` adds a key to a table, `Toml.openTable` and `Toml.openElement`
find the table that a header line opens; each gives `none` where the format
forbids it.
-/

namespace BreakRules

inductive Origin where
  /-- A header named a table inside it. It may still get a header of its own. -/
  | above
  | header
  /-- A dotted key named it. Other dotted keys may add to it. -/
  | dotted
  /-- It was written between braces and is complete. -/
  | inline
deriving DecidableEq, Repr, Inhabited

/-- A value. Only an array of tables that headers opened is growing. -/
inductive Toml where
  | string (s : String)
  | number (text : String)
  | moment (text : String)
  | boolean (b : Bool)
  | array (growing : Bool) (items : List Toml)
  | table (origin : Origin) (entries : List (String × Toml))
deriving Inhabited

namespace Toml

/-- Entries with a new value under a key, which takes the place of an old one. -/
def put (key : String) (value : Toml) : List (String × Toml) → List (String × Toml)
  | [] => [(key, value)]
  | (k, v) :: rest => if k = key then (k, value) :: rest else (k, v) :: put key value rest

/-- Adds a value under a dotted key. A key is given once. On the way through its
parts, tables are made where there are none. Those that dotted keys or the paths
of headers made are passed, and of an array of tables the last; but the value
itself only goes into a table that dotted keys made, unless it goes where the
key begins. -/
def define : List String → Toml → List (String × Toml) → Option (List (String × Toml))
  | [], _, _ => none
  | [key], value, entries =>
      match entries.lookup key with
      | none => some (entries ++ [(key, value)])
      | some _ => none
  | key :: next :: rest, value, entries =>
      match entries.lookup key with
      | none => do
          return entries ++ [(key, .table .dotted (← define (next :: rest) value []))]
      | some (.table .dotted inner) => do
          return put key (.table .dotted (← define (next :: rest) value inner)) entries
      | some (.table .above inner) => do
          guard !rest.isEmpty
          return put key (.table .above (← define (next :: rest) value inner)) entries
      | some (.array true items) =>
          match items.getLast? with
          | some (.table last inner) => do
              guard !rest.isEmpty
              let changed := .table last (← define (next :: rest) value inner)
              return put key (.array true (items.dropLast ++ [changed])) entries
          | _ => none
      | some _ => none

/-- Changes the table that a header path leads to. On the way tables are made
where there are none, and of an array of tables the last is meant. -/
def update (f : Origin → List (String × Toml) → Option Toml) :
    List String → Origin → List (String × Toml) → Option Toml
  | [], origin, entries => f origin entries
  | key :: rest, origin, entries =>
      match entries.lookup key with
      | none => do
          return .table origin (put key (← update f rest .above []) entries)
      | some (.table .inline _) => none
      | some (.table inner innerEntries) => do
          return .table origin (put key (← update f rest inner innerEntries) entries)
      | some (.array true items) =>
          match items.getLast? with
          | some (.table last lastEntries) => do
              let changed ← update f rest last lastEntries
              return .table origin (put key (.array true (items.dropLast ++ [changed])) entries)
          | _ => none
      | some _ => none

def openTable (key : String) (origin : Origin) (entries : List (String × Toml)) : Option Toml :=
  match entries.lookup key with
  | none => some (.table origin (entries ++ [(key, .table .header [])]))
  | some (.table .above inner) => some (.table origin (put key (.table .header inner) entries))
  | some _ => none

/-- Opens a new table at the end of the array with a key that a header names. -/
def openElement (key : String) (origin : Origin) (entries : List (String × Toml)) :
    Option Toml :=
  match entries.lookup key with
  | none => some (.table origin (entries ++ [(key, .array true [.table .header []])]))
  | some (.array true items) =>
      some (.table origin (put key (.array true (items ++ [.table .header []])) entries))
  | some _ => none

end Toml

end BreakRules
