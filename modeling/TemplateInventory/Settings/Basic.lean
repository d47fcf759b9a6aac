import TemplateInventory.Environment
import TemplateInventory.Inventory.Basic
/-!
# Settings

What a workspace says about its inventories: where their files are, how elements
are selected and told apart, and how messages are logged. Relative directories
are relative to the root of the workspace.
-/

namespace TemplateInventory

/-- How messages are logged. The texts are checked when logging starts. -/
structure LoggingSettings where
  level : String := "warn"
  format : String := "text"
  output : String := "stderr"
  /-- The file that is written when the output is a file. -/
  file : Path := ⟨".strata/strata.log"⟩
  color : Bool := true
  /-- The levels of single modules. -/
  modules : Table String String := .empty
  deriving DecidableEq

/-- The project whose user files are loaded. -/
structure ProjectSettings where
  path : Option Path := none
  scope : Option String := none
  deriving DecidableEq

/-- The key attributes of one element name, the identity last. -/
structure KeySpec where
  element : String
  attributes : List String
  deriving DecidableEq

/-- One inventory. -/
structure InventorySettings where
  /-- The directories of the inventory, in loading order. -/
  directories : List Path
  filePattern : String
  selectionPath : String
  keyAttributes : List KeySpec := []
  /-- The version that user files have to carry; zero for none. -/
  version : Int := 0
  conventions : Conventions := {}
  userDirectory : Option Path := none
  loadsUserFiles : Bool := false
  deriving DecidableEq

/-- All settings of a workspace. The inventories are in the order of their names. -/
structure Settings where
  project : ProjectSettings := {}
  inventories : Table String InventorySettings := .empty
  logging : LoggingSettings := {}
  deriving DecidableEq

/-- The name of the directory that holds user files. -/
def userDirectoryName : String := "ConfigurationSettings"

namespace InventorySettings

/-- The key attributes of each name; of two specifications of a name the later one counts. -/
def schema (i : InventorySettings) : KeySchema :=
  .ofList (i.keyAttributes.map fun spec => (spec.element, spec.attributes))

/-- The directories as seen from a root. -/
def directoriesFrom (i : InventorySettings) (root : Path) : List Path := i.directories.map root.join

end InventorySettings

namespace Settings

/-- Where the user files of an inventory are: in its own directory, else in that
of the project, else in one below the user's data. -/
def userDirectory (s : Settings) (env : Environment) (root : Path) (name : String) : Option Path :=
  match s.inventories.get? name with
  | none => none
  | some i =>
    match i.userDirectory, s.project.path with
    | some directory, _ => some (root.join directory)
    | none, some project => some ((root.join project).child userDirectoryName)
    | none, none =>
      env.dataDirectory.map fun d => ((d.child "strata").child name).child userDirectoryName

/-- The settings of a named inventory. -/
def inventory (s : Settings) (name : String) : Except InventoryError InventorySettings :=
  match s.inventories.get? name with
  | some i => .ok i
  | none => .error (.settings (.noInventory name))

end Settings

/-- The inventory that settings describe under a name, before anything is loaded. -/
def Inventory.ofSettings (s : Settings) (env : Environment) (root : Path) (name : String) :
    Except InventoryError Inventory := do
  let settings ← s.inventory name
  let i ← Inventory.make (settings.directoriesFrom root) settings.filePattern
    settings.selectionPath settings.schema settings.version
  return { i with
    conventions := settings.conventions
    userDirectory := s.userDirectory env root name
    scope := s.project.scope }

end TemplateInventory
