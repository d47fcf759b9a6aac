import TemplateInventory.Settings.Basic
/-!
# Problems of settings

What is wrong with the settings of an inventory, as far as it shows without any
file. `Settings.problems` lists every problem of every inventory.
-/

namespace TemplateInventory

/-- One thing that is wrong with the settings of an inventory. -/
inductive SettingsProblem where
  | noDirectory
  | filePattern (pattern : String) (cause : Glob.Fault)
  | selectionPath (path : String)
  | negativeVersion (version : Int)
  /-- An element name without key attributes. -/
  | emptyKey (element : String)
  /-- An element name whose key attributes are given again. -/
  | repeatedKey (element : String)
  deriving DecidableEq

/-- The text of a problem. -/
def SettingsProblem.message : SettingsProblem → String
  | .noDirectory => "at least one template directory is required"
  | .filePattern pattern cause => (InventoryError.filePattern pattern cause).message
  | .selectionPath path => (InventoryError.selectionPath path).message
  | .negativeVersion version => "version must not be negative, got " ++ toString version
  | .emptyKey element => s!"key attributes for <{element}> are empty"
  | .repeatedKey element => s!"key attributes for <{element}> given twice"

/-- What is wrong with key attributes, when those of the names `seen` are given already. -/
def KeySpec.problems (seen : List String) : List KeySpec → List SettingsProblem
  | [] => []
  | spec :: specs =>
    (if spec.attributes.isEmpty then [.emptyKey spec.element] else []) ++
      (if spec.element ∈ seen then [.repeatedKey spec.element] else []) ++
      problems (spec.element :: seen) specs

/-- What is wrong with the settings of an inventory. -/
def InventorySettings.problems (i : InventorySettings) : List SettingsProblem :=
  (if i.directories.isEmpty then [.noDirectory] else []) ++
    (match FilePattern.parse i.filePattern with
      | .ok _ => []
      | .error e => [.filePattern i.filePattern e]) ++
    (match Selection.parse i.selectionPath with
      | some _ => []
      | none => [.selectionPath i.selectionPath]) ++
    (if i.version < 0 then [.negativeVersion i.version] else []) ++
    KeySpec.problems [] i.keyAttributes

/-- What is wrong with settings, inventory by inventory. -/
def Settings.problems (s : Settings) : List (String × SettingsProblem) :=
  s.inventories.entries.flatMap fun (name, i) => i.problems.map fun p => (name, p)

/-- The texts of the problems of settings. -/
def Settings.problemTexts (s : Settings) : List String :=
  s.problems.map fun (name, p) => s!"Inventory '{name}': " ++ p.message

end TemplateInventory
