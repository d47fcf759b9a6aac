import TemplateInventory.Settings.Basic
import TemplateInventory.Settings.Value
/-!
# Settings from values

Reading settings from a `Value`. A record is a table with a field for each name;
a list stands for a record too, with the fields in a fixed order. Fields that are
missing have defaults where the settings have them, and fields of other names are
passed over.

There are two ways to read what a field holds: `Reading.exact` takes only values
of the right kind, and `Reading.lenient` turns plain values into the kind that is
asked for, since files and variables often write one for the other.
-/

namespace TemplateInventory

open TemplateInventory.Text

/-- How values are read. -/
structure Reading where
  text : Value → Option String
  int : Value → Option Int
  bool : Value → Option Bool
  /-- Whether a list may stand for a record that has fewer fields. -/
  allowsSurplus : Bool

/-! ## Plain values of the right kind -/

namespace Value

/-- A text. -/
def text? : Value → Option String
  | .text s => some s
  | _ => none

/-- A whole number. -/
def int? : Value → Option Int
  | .int n => some n
  | _ => none

/-- A truth value. -/
def bool? : Value → Option Bool
  | .bool b => some b
  | _ => none

/-! ## Plain values of another kind -/

/-- The text of a plain value. -/
def toText : Value → Option String
  | .text s => some s
  | .bool b => some (toString b)
  | .int n => some (toString n)
  | .float x => some x.text
  | _ => none

/-- The words for truth. -/
def trueWords : List String := ["true", "on", "yes"]

/-- The words for falsehood. -/
def falseWords : List String := ["false", "off", "no"]

/-- The whole number of a plain value: a fraction is rounded, and a word for a
truth value counts as one or zero. -/
def toInt : Value → Option Int
  | .int n => some n
  | .bool b => some (if b then 1 else 0)
  | .float x => some (x.roundBetween least64 greatest64)
  | .text s =>
    if lowercase s ∈ trueWords then some 1
    else if lowercase s ∈ falseWords then some 0
    else read64 s
  | _ => none

/-- The truth value of a plain value: a number is true unless it is zero. -/
def toBool : Value → Option Bool
  | .bool b => some b
  | .int n => some (n != 0)
  | .float x => some x.isNonzero
  | .text s =>
    if lowercase s ∈ "1" :: trueWords then some true
    else if lowercase s ∈ "0" :: falseWords then some false
    else none
  | _ => none

end Value

namespace Reading

/-- Takes only values of the right kind. -/
def exact : Reading := ⟨Value.text?, Value.int?, Value.bool?, false⟩

/-- Turns plain values into the right kind. -/
def lenient : Reading := ⟨Value.toText, Value.toInt, Value.toBool, true⟩

/-! ## Parts of settings -/

/-- A path. -/
def path (r : Reading) (v : Value) : Option Path := (r.text v).map Path.mk

/-- A number of 32 bits. -/
def int32 (r : Reading) (v : Value) : Option Int :=
  (r.int v).filter fun n => least32 ≤ n && n ≤ greatest32

/-- What may be left open. -/
def optional {α : Type} (read : Value → Option α) : Value → Option (Option α)
  | .nothing => some none
  | v => (read v).map some

/-- A list. -/
def list {α : Type} (read : Value → Option α) : Value → Option (List α)
  | .list vs => vs.mapM read
  | _ => none

/-- A table of named things, in the order of the names. -/
def named {α : Type} (read : Value → Option α) : Value → Option (Table String α)
  | .table es =>
    ((es.mergeSort fun a b => !(b.1 < a.1)).mapM fun e =>
      (read e.2).map fun x => (e.1, x)).map Table.ofList
  | _ => none

/-- The fields of a record whose fields have given names. -/
def record (r : Reading) (names : List String) : Value → Option (String → Option Value)
  | .table es => some fun name => findEntry name es
  | .list vs =>
    if names.length < vs.length && !r.allowsSurplus then none
    else some fun name => vs[names.idxOf name]?
  | _ => none

/-- A field that has a default. -/
def field {α : Type} (default : α) (read : Value → Option α) : Option Value → Option α
  | none => some default
  | some v => read v

/-! ## Records -/

/-- The names of elements and attributes. -/
def conventions (r : Reading) (v : Value) : Option Conventions := do
  let get ← r.record ["grouping_element", "grouping_attribute", "label_attribute",
    "class_attribute", "ws_element", "ws_type", "ws_flag", "name_attribute"] v
  let usual : Conventions := {}
  return {
    groupingElement := ← field usual.groupingElement r.text (get "grouping_element")
    groupingAttr := ← field usual.groupingAttr r.text (get "grouping_attribute")
    labelAttr := ← field usual.labelAttr r.text (get "label_attribute")
    classAttr := ← field usual.classAttr r.text (get "class_attribute")
    taggedElement := ← field usual.taggedElement r.text (get "ws_element")
    taggedType := ← field usual.taggedType r.text (get "ws_type")
    tagFlag := ← field usual.tagFlag r.text (get "ws_flag")
    nameAttr := ← field usual.nameAttr r.text (get "name_attribute") }

/-- The key attributes of one name. -/
def keySpec (r : Reading) (v : Value) : Option KeySpec := do
  let get ← r.record ["element", "attributes"] v
  return {
    element := ← (get "element").bind r.text
    attributes := ← (get "attributes").bind (list r.text) }

/-- The settings of one inventory. -/
def inventory (r : Reading) (v : Value) : Option InventorySettings := do
  let get ← r.record ["directories", "file_pattern", "selection_path", "key_attributes",
    "version", "conventions", "user_override_dir", "load_user_overrides"] v
  return {
    directories := ← (get "directories").bind (list r.path)
    filePattern := ← (get "file_pattern").bind r.text
    selectionPath := ← (get "selection_path").bind r.text
    keyAttributes := ← field [] (list r.keySpec) (get "key_attributes")
    version := ← field 0 r.int32 (get "version")
    conventions := ← field {} r.conventions (get "conventions")
    userDirectory := ← field none (optional r.path) (get "user_override_dir")
    loadsUserFiles := ← field false r.bool (get "load_user_overrides") }

/-- The settings of the project. -/
def project (r : Reading) (v : Value) : Option ProjectSettings := do
  let get ← r.record ["path", "scope"] v
  return {
    path := ← field none (optional r.path) (get "path")
    scope := ← field none (optional r.text) (get "scope") }

/-- The settings of logging. -/
def logging (r : Reading) (v : Value) : Option LoggingSettings := do
  let get ← r.record ["level", "format", "output", "file", "color", "modules"] v
  let usual : LoggingSettings := {}
  return {
    level := ← field usual.level r.text (get "level")
    format := ← field usual.format r.text (get "format")
    output := ← field usual.output r.text (get "output")
    file := ← field usual.file r.path (get "file")
    color := ← field usual.color r.bool (get "color")
    modules := ← field usual.modules (named r.text) (get "modules") }

/-- All settings. -/
def settings (r : Reading) (v : Value) : Option Settings := do
  let get ← r.record ["project", "inventories", "logging"] v
  return {
    project := ← field {} r.project (get "project")
    inventories := ← field .empty (named r.inventory) (get "inventories")
    logging := ← field {} r.logging (get "logging") }

end Reading

end TemplateInventory
