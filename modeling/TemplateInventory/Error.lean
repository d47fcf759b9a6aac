import TemplateInventory.FileTree
import TemplateInventory.Glob.Parser
import TemplateInventory.Key
import TemplateInventory.Logging.Pattern.Basic
import TemplateInventory.Query.Parser
import TemplateInventory.Text.Quoted
import TemplateInventory.Text.Utf8
import TemplateInventory.Xml.Fault
/-!
# Errors

Why an operation of an inventory fails. An error is a cause with what it is
about; its text is made by `InventoryError.message`.
-/

namespace TemplateInventory

open TemplateInventory.Text

/-- Why a file is not a document. -/
inductive DocumentFault where
  | text (cause : Utf8.Fault)
  | markup (cause : Xml.Fault)
  deriving DecidableEq, Repr

/-- The text of a fault. -/
def DocumentFault.message : DocumentFault → String
  | .text cause => cause.message
  | .markup cause => cause.message

/-- Why an override cannot be built for a display path. -/
inductive OverridePathFault where
  /-- The last sublayout ends the path. -/
  | noLayout
  /-- No part with a reference comes after the first element, whose name is given. -/
  | noPart (name : String)
  deriving DecidableEq, Repr

/-- The text of a fault. -/
def OverridePathFault.message : OverridePathFault → String
  | .noLayout => "no layout follows the last sublayout"
  | .noPart name => s!"no part ref below <{name}>"

/-- Why a registry refuses a request. -/
inductive RegistryFault where
  | notFound (key : String)
  | noName
  /-- The inventory belongs to the scope `own`. -/
  | otherScope (own : String) (requested : Option String)
  deriving DecidableEq, Repr

/-- The text of a fault. -/
def RegistryFault.message : RegistryFault → String
  | .notFound key => s!"Inventory not found: {key}"
  | .noName => "Invalid key argument"
  | .otherScope own requested =>
    s!"Inventory is bound to scope '{own}', not " ++ quotedOption requested

/-- Why a text is not a directive that sets the level of a module. -/
inductive DirectiveFault where
  | level
  /-- The pattern of a field cannot be used. -/
  | pattern (cause : Logging.PatternFault)
  | form
  deriving DecidableEq, Repr

/-- The text of a fault. -/
def DirectiveFault.message : DirectiveFault → String
  | .level =>
    "error parsing level filter: expected one of \"off\", \"error\", \"warn\", " ++
      "\"info\", \"debug\", \"trace\", or a number 0-5"
  | .pattern cause => "invalid field filter: " ++ cause.message
  | .form => "invalid filter directive"

/-- Why settings do not serve. -/
inductive SettingsFault where
  | query (path : String) (cause : QueryFault)
  | noUserDirectory
  /-- A name without key attributes. -/
  | noKeyAttributes (name : String)
  | noInventory (name : String)
  | noFile (path : Path)
  /-- The settings file cannot be read as settings. -/
  | unreadable
  | logFormat (value : String)
  | logOutput (value : String)
  | logDirective (directive : String) (cause : DirectiveFault)
  | logFile (path : Path) (cause : FileError)
  deriving DecidableEq, Repr

/-- The text of a fault. -/
def SettingsFault.message : SettingsFault → String
  | .query path cause => "invalid element path " ++ quoted path ++ ": " ++ cause.message
  | .noUserDirectory => "No user override directory configured"
  | .noKeyAttributes name => s!"No key attributes configured for <{name}>"
  | .noInventory name => s!"No inventory named '{name}'"
  | .noFile path => "Config file not found: " ++ path.text
  | .unreadable => "The settings cannot be read"
  | .logFormat value => s!"Invalid log format: {value} (must be 'json' or 'text')"
  | .logOutput value => s!"Invalid log output: {value} (must be 'stdout', 'stderr' or 'file')"
  | .logDirective directive cause =>
    "Invalid log directive " ++ quoted directive ++ ": " ++ cause.message
  | .logFile path cause =>
    "Failed to open log file " ++ quoted path.text ++ ": " ++ cause.message

/-- Why an operation fails. -/
inductive InventoryError where
  /-- An override of `base` whose key has no element. -/
  | noBase (base : String) (key : ElementKey)
  /-- An override of `base` whose key is overridden already. -/
  | overrideDepth (base : String) (key : ElementKey)
  | baseWithoutKey (element : String)
  | selectionPath (path : String)
  | filePattern (pattern : String) (cause : Glob.Fault)
  | missingAttribute (element attr : String)
  | invalidVersion (raw : String)
  /-- A file that holds no document. -/
  | parse (path : Path) (cause : DocumentFault)
  | xml (cause : Xml.Fault)
  | overridePath (cause : OverridePathFault)
  | registry (cause : RegistryFault)
  | settings (cause : SettingsFault)
  | file (cause : FileError)
  deriving DecidableEq, Repr

/-- The text of an error. -/
def InventoryError.message : InventoryError → String
  | .noBase base key => s!"No base found to override {base} (" ++ key.text ++ ")"
  | .overrideDepth base key =>
    s!"Only one level of override is allowed: {base} (" ++ key.text ++ ")"
  | .baseWithoutKey element => s!"Element <{element}> has a base attribute but no key attributes"
  | .selectionPath path =>
    "Invalid selection path " ++ quoted path ++ ": must start with '/' and end with '/*'"
  | .filePattern pattern cause =>
    "Invalid file pattern " ++ quoted pattern ++ ": " ++ cause.message pattern
  | .missingAttribute element attr =>
    s!"Element <{element}> is missing required attribute " ++ quoted attr
  | .invalidVersion raw => "Invalid version " ++ quoted raw
  | .parse path cause => "Error reading XML file " ++ quoted path.text ++ ": " ++ cause.message
  | .xml cause => "XML error: " ++ cause.message
  | .overridePath cause => "Cannot build an override from this path: " ++ cause.message
  | .registry cause => "Registry error: " ++ cause.message
  | .settings cause => "Configuration error: " ++ cause.message
  | .file cause => "Inventory I/O error: " ++ cause.message

/-- The value of an attribute that has to be there. -/
def Element.requiredAttr (e : Element) (name : String) : Except InventoryError String :=
  match e.attr name with
  | some value => .ok value
  | none => .error (.missingAttribute e.name name)

end TemplateInventory
