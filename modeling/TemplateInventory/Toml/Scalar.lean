import TemplateInventory.Toml.Moment
/-!
# TOML scalars

Values that are no lists and no tables. A moment counts as a table with one key,
`momentKey`, that holds its text; so a document may write it as such a table as
well.
-/

namespace TemplateInventory.Toml

/-- The key of a table that stands for a moment. -/
def momentKey : String := "$__toml_private_datetime"

/-- The value of a moment. -/
def Moment.toValue (m : Moment) : Value := .table [(momentKey, .text m.text)]

/-- Reads a value that is no list and no table. -/
def readScalar (cs : List Char) : Read Value :=
  match cs with
  | [] => none
  | c :: _ =>
    if c = '\x22' ∨ c = '\x27' then
      (readString cs).map fun r => (.text (String.ofList r.1), r.2)
    else if "true".toList.isPrefixOf cs then some (.bool true, cs.drop 4)
    else if "false".toList.isPrefixOf cs then some (.bool false, cs.drop 5)
    else
      match Moment.read cs with
      | some (moment, rest) => some (moment.toValue, rest)
      | none =>
        match readFloat cs with
        | some r => some r
        | none => readInt cs

mutual

/-- The value with the texts of moments in the place of the tables that stand for
them: those whose first key is `momentKey`. Such a table has to hold a moment's
text there; its other keys do not count. -/
def settle : Value → Option Value
  | .table [] => some (.table [])
  | .table ((key, v) :: rest) =>
    if key = momentKey then
      match v with
      | .text s => (Moment.ofText s).map fun m => .text m.text
      | _ => none
    else
      match settle v, settleEntries rest with
      | some v, some rest => some (.table ((key, v) :: rest))
      | _, _ => none
  | .list items => (settleItems items).map .list
  | v => some v

/-- The entries of a table with settled values. -/
def settleEntries : List (String × Value) → Option (List (String × Value))
  | [] => some []
  | (key, v) :: rest =>
    match settle v, settleEntries rest with
    | some v, some rest => some ((key, v) :: rest)
    | _, _ => none

/-- The settled items of a list. -/
def settleItems : List Value → Option (List Value)
  | [] => some []
  | v :: rest =>
    match settle v, settleItems rest with
    | some v, some rest => some (v :: rest)
    | _, _ => none

end

end TemplateInventory.Toml
