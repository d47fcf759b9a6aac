import TemplateInventory.Decimal.Reader
import TemplateInventory.FileTree
import TemplateInventory.Settings.Reading
import TemplateInventory.Text.Utf8
import TemplateInventory.Toml.Parser
/-!
# Layers of settings

Where settings come from. The settings of a workspace are put together from the
usual ones, the user's file, the files of the workspace and the variables of the
environment, each layer on top of the ones before it: `Settings.load`. Settings
can be read from one named file as well, `Settings.loadFile`.
-/

namespace TemplateInventory

open TemplateInventory.Text

namespace Settings

/-- The settings below every other layer. -/
def usualLayer : Value :=
  (Value.table []).putAll
    [("logging.level", .text "warn"), ("logging.format", .text "text"),
      ("logging.output", .text "stderr")]

/-! ## Files -/

/-- The ending of the names of settings files. -/
def fileEnding : String := "toml"

/-- The file that holds the settings of a path: the path itself, which has to have
the ending of settings files, or else the path with that ending added. -/
def fileAt (files : FileTree) (p : Path) : Option Path :=
  if files.isFile p then if p.extension = some fileEnding then some p else none
  else
    let longer := p.fileName.map fun name => (p.parent.getD ⟨""⟩).child (name ++ "." ++ fileEnding)
    longer.filter files.isFile

/-- The text of the file that holds the settings of a path; a file whose bytes are
no text counts as missing. -/
def textAt (files : FileTree) (p : Path) : Option String :=
  match (fileAt files p).map files.read with
  | some (.ok bytes) => (Utf8.decode (Utf8.dropMark bytes)).toOption
  | _ => none

/-- Adds the layer of a file, if there is one. -/
def addFile (files : FileTree) (p : Path) (below : Value) : Option Value :=
  if files.holds p then
    match textAt files p with
    | none => some below
    | some text => (Toml.parse text).map below.putAll
  else some below

/-! ## Variables -/

/-- What the names of variables with settings start with, in lower case. -/
def variableStart : List Char := "strata__".toList

/-- The key that the rest of a variable's name stands for: two underscores lead
into a table. -/
def keyOfName : List Char → List Char
  | '_' :: '_' :: cs => '.' :: keyOfName cs
  | c :: cs => c :: keyOfName cs
  | [] => []

/-- The key that a variable sets, if it has to do with settings. -/
def keyOfVariable (name : String) : Option String :=
  let name := (lowercase name).toList
  if variableStart.isPrefixOf name then
    some (String.ofList (keyOfName (name.drop variableStart.length)))
  else none

/-- The value that a variable's text writes: a truth value, a whole number, a
number, or else the text. -/
def valueOfVariable (text : String) : Value :=
  if lowercase text = "true" then .bool true
  else if lowercase text = "false" then .bool false
  else
    match read64 text with
    | some n => .int n
    | none =>
      match Double.read text.toList with
      | some x => .float x
      | none => .text text

/-- What the variables set. -/
def environmentLayer (env : Environment) : List (String × Value) :=
  env.bindings.entries.filterMap fun (name, text) =>
    (keyOfVariable name).map fun key => (key, valueOfVariable text)

/-! ## All layers -/

/-- The user's own file. -/
def userFile (env : Environment) : Option Path :=
  env.settingsDirectory.map fun d => (d.child "strata").child "config.toml"

/-- The files of a workspace: the one for all uses, and the one for the use that
the environment names. -/
def workspaceFiles (env : Environment) (workspace : Path) : List Path :=
  let directory := workspace.child "config"
  let use := (env.get? "STRATA_ENV").getD "development"
  [directory.child "strata.toml", directory.child (use ++ "." ++ fileEnding)]

/-- The layers of files, lowest first. -/
def layerFiles (env : Environment) (workspace : Path) : List Path :=
  (userFile env).toList ++ workspaceFiles env workspace

/-- The settings that layers make together. -/
def ofLayers (layers : Value) : Except InventoryError Settings :=
  match Reading.lenient.settings layers with
  | some s => .ok s
  | none => .error (.settings .unreadable)

/-- The settings of a workspace. -/
def load (files : FileTree) (env : Environment) (workspace : Path) :
    Except InventoryError Settings :=
  match (layerFiles env workspace).foldlM (fun below p => addFile files p below) usualLayer with
  | none => .error (.settings .unreadable)
  | some layers => ofLayers (layers.putAll (environmentLayer env))

/-- The settings of one file over the usual ones. -/
def loadFile (files : FileTree) (p : Path) : Except InventoryError Settings :=
  if files.holds p then
    match (textAt files p).bind Toml.parse with
    | none => .error (.settings .unreadable)
    | some layer => ofLayers (usualLayer.putAll layer)
  else .error (.settings (.noFile p))

end Settings

end TemplateInventory
