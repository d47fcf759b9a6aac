import TemplateInventory.Settings.Value
/-!
# TOML tables while they are read

A table is opened by a header, by the header of a table inside it, or by a dotted
key. How it was opened decides what may still be added to it: a header opens a
table once, and a dotted key adds only to tables that dotted keys have opened.
-/

namespace TemplateInventory.Toml

/-- How a table was opened. -/
inductive Opening where
  /-- By its own header. -/
  | header
  /-- By the header of a table inside it. -/
  | inner
  /-- By a dotted key. -/
  | dotted
  deriving DecidableEq

/-- What stands at a key. -/
inductive Node where
  | value (v : Value)
  | table (opening : Opening) (entries : List (String × Node))
  /-- A list of tables that is open, last one first. -/
  | tables (items : List (List (String × Node)))

/-- The entries of a table. -/
abbrev Entries := List (String × Node)

mutual

/-- The value of what stands at a key. -/
def Node.toValue : Node → Value
  | .value v => v
  | .table _ entries => .table (entryValues entries)
  | .tables items => .list (tableValues items).reverse

/-- The values of the entries of a table. -/
def entryValues : List (String × Node) → List (String × Value)
  | [] => []
  | (key, node) :: rest => (key, node.toValue) :: entryValues rest

/-- The values of several tables. -/
def tableValues : List (List (String × Node)) → List Value
  | [] => []
  | entries :: rest => .table (entryValues entries) :: tableValues rest

end

/-- Changes the table at the end of a path of header keys; tables on the way are
opened where they are missing. -/
def atHeader (change : Entries → Option Entries) : List String → Entries → Option Entries
  | [], entries => change entries
  | key :: path, entries =>
    let put := fun node => putEntry key node entries
    match findEntry key entries with
    | none => (atHeader change path []).map fun es => put (.table .inner es)
    | some (.value _) => none
    | some (.table opening es) =>
      (atHeader change path es).map fun es => put (.table opening es)
    | some (.tables []) => none
    | some (.tables (last :: items)) =>
      (atHeader change path last).map fun es => put (.tables (es :: items))

/-- Opens a table by its header. One that the header of an inner table has opened
moves to the end. -/
def openTable (key : String) (entries : Entries) : Option Entries :=
  match findEntry key entries with
  | none => some (putEntry key (.table .header []) entries)
  | some (.table .inner es) => some (putEntry key (.table .header es) (eraseEntry key entries))
  | some _ => none

/-- Opens one more table of a list by its header. -/
def openItem (key : String) (entries : Entries) : Option Entries :=
  match findEntry key entries with
  | none => some (putEntry key (.tables [[]]) entries)
  | some (.tables items) => some (putEntry key (.tables ([] :: items)) entries)
  | some _ => none

/-- Sets a key that has no value yet. -/
def setNew (key : String) (node : Node) (entries : Entries) : Option Entries :=
  match findEntry key entries with
  | none => some (putEntry key node entries)
  | some _ => none

/-- Sets the key at the end of a dotted key. The table that has it must have been
opened by a dotted key, and those on the way not by headers of their own. -/
def setDotted (last : String) (node : Node) : List String → Entries → Option Entries
  | [], entries => setNew last node entries
  | key :: path, entries =>
    let opened := match findEntry key entries with
      | none => some (.dotted, [])
      | some (.table opening es) =>
        if opening = .header ∨ (path.isEmpty = true ∧ opening ≠ .dotted) then none
        else some (opening, es)
      | some (.tables (last :: _)) => if path.isEmpty then none else some (.inner, last)
      | some _ => none
    match opened with
    | none => none
    | some (opening, es) =>
      (setDotted last node path es).map fun es =>
        match findEntry key entries with
        | some (.tables (_ :: items)) => putEntry key (.tables (es :: items)) entries
        | _ => putEntry key (.table opening es) entries

end TemplateInventory.Toml
