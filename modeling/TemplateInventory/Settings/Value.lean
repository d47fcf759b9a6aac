import TemplateInventory.Decimal.Double
import TemplateInventory.Table
import TemplateInventory.Text.Lowercase
import TemplateInventory.Text.Numeral
/-!
# Setting values

Settings come in layers: what a later layer sets replaces what an earlier one
set. Tables are merged key by key; anything else is replaced as a whole. Keys do
not depend on case.

A key may be a path into tables and lists, `server.ports[0]`; `Value.put` sets
what stands at the end of such a path and makes the tables on the way.
-/

namespace TemplateInventory

/-- A value as settings write it. -/
inductive Value where
  | nothing
  | bool (b : Bool)
  | int (n : Int)
  | float (x : Double)
  | text (s : String)
  | list (items : List Value)
  | table (entries : List (String × Value))

namespace Value

instance : Inhabited Value := ⟨nothing⟩

/-- The entries of a table; none for anything else. -/
def entries : Value → List (String × Value)
  | .table es => es
  | _ => []

/-- The items of a list; none for anything else. -/
def items : Value → List Value
  | .list vs => vs
  | _ => []

/-! ## Merging -/

mutual

/-- Sets the key `key` of a table, which takes the place of anything that is no
table. A table is merged into what is there. -/
def putKey (key : String) (root : Value) : Value → Value
  | .table es =>
    let key := Text.lowercase key
    let target := (findEntry key root.entries).getD (.table [])
    .table (putEntry key (putEntries target es) root.entries)
  | v => .table (putEntry (Text.lowercase key) v root.entries)

/-- Sets several keys of a table one after the other. -/
def putEntries (target : Value) : List (String × Value) → Value
  | [] => target
  | e :: es => putEntries (putKey e.1 target e.2) es

end

/-! ## Paths -/

/-- One step of a path: into a table or into a list, where a negative number
counts from the end. -/
inductive PathStep where
  | child (key : String)
  | item (index : Int)
  deriving DecidableEq, Repr

/-- The characters of keys that are paths. -/
def isPathChar (c : Char) : Bool := c.isAlphanum || c == ' ' || c == '_' || c == '-'

/-- The blanks that may stand around the number of a list item. -/
def isIndexBlank (c : Char) : Bool := c == ' ' || c == '\t'

/-- Reads the number of a list item up to its closing bracket. -/
def readIndex (cs : List Char) : Option (Int × List Char) :=
  let cs := cs.dropWhile isIndexBlank
  let (negative, cs) := match cs with
    | '-' :: cs => (true, cs)
    | cs => (false, cs)
  match Text.readDigits (cs.takeWhile Char.isDigit) with
  | none => none
  | some n =>
    match (cs.dropWhile Char.isDigit).dropWhile isIndexBlank with
    | ']' :: rest =>
      if (n : Int) ≤ Text.greatest64 then some (if negative then -n else n, rest) else none
    | _ => none

/-- Reads the steps after the first key of a path. `fuel` bounds their number. -/
def readSteps (fuel : Nat) (cs : List Char) : Option (List PathStep) :=
  match fuel, cs with
  | _, [] => some []
  | 0, _ :: _ => none
  | fuel + 1, '.' :: cs =>
    match cs.takeWhile isPathChar with
    | [] => none
    | key =>
      (readSteps fuel (cs.dropWhile isPathChar)).map (.child (String.ofList key) :: ·)
  | fuel + 1, '[' :: cs =>
    match readIndex cs with
    | none => none
    | some (n, rest) => (readSteps fuel rest).map (.item n :: ·)
  | _, _ => none

/-- The steps of a key that is a path; the first one is a child. -/
def pathOfKey (key : String) : Option (String × List PathStep) :=
  let cs := key.toList
  match cs.takeWhile isPathChar with
  | [] => none
  | first => (readSteps cs.length (cs.dropWhile isPathChar)).map (String.ofList first, ·)

/-- The place of a list item in a list of a length. -/
def placeOf (index : Int) (length : Nat) : Nat :=
  if 0 ≤ index then index.toNat else length - (-index).toNat

/-- A list that is long enough for a place. -/
def padTo (place : Nat) (vs : List Value) : List Value :=
  vs ++ List.replicate (place + 1 - vs.length) .nothing

/-- Changes what stands at the end of a path below a value; the way to it is made
where it is missing. -/
def alter (f : Value → Value) : List PathStep → Value → Value
  | [], v => f v
  | .child key :: steps, v =>
    let inner := (findEntry key v.entries).getD .nothing
    .table (putEntry key (alter f steps inner) v.entries)
  | .item index :: steps, v =>
    let place := placeOf index v.items.length
    let vs := padTo place v.items
    .list (vs.set place (alter f steps (vs[place]?.getD .nothing)))

/-- Sets the last step of a path in the value that has it. -/
def putLast (new : Value) : PathStep → Value → Value
  | .child key, v => putKey key v new
  | .item index, v =>
    let place := placeOf index v.items.length
    .list ((padTo place v.items).set place new)

/-- Sets what a key names, be it a path or not. Its case does not count, so it is
read as a path only once it is in lower case. -/
def put (root : Value) (key : String) (new : Value) : Value :=
  match pathOfKey (Text.lowercase key) with
  | none | some (_, []) => putKey key root new
  | some (first, steps) =>
    match steps.getLast? with
    | none => putKey key root new
    | some last => alter (putLast new last) (.child first :: steps.dropLast) root

/-- Sets several keys one after the other. -/
def putAll (root : Value) (es : List (String × Value)) : Value :=
  es.foldl (fun v e => v.put e.1 e.2) root

end Value

end TemplateInventory
