import TemplateInventory.Settings.Problem
/-!
# Commands

What a user asks for on the command line: a command, and the options that go with
it.
-/

namespace TemplateInventory

/-- What is asked for. -/
inductive Command where
  /-- The element of a key. -/
  | get (inventory element : String) (values : List String)
  /-- The elements of an inventory, or those that a query selects. -/
  | list (inventory : String) (query : Option String)
  /-- The grouping elements of an inventory. -/
  | groupings (inventory : String)
  /-- All inventories, after a check of the settings. -/
  | check
  deriving DecidableEq, Repr

/-- The options of a command line. -/
structure Options where
  /-- The root of the workspace. -/
  workspace : Option Path := none
  /-- The only settings file. -/
  settings : Option Path := none
  verbose : Bool := false
  logLevel : Option String := none
  logFormat : Option String := none
  logOutput : Option String := none
  deriving DecidableEq, Repr

/-- The root of the workspace; the working directory if none is given. -/
def Options.root (o : Options) : Path := o.workspace.getD ⟨"."⟩

/-- A command with its options. -/
structure Request where
  options : Options
  command : Command
  deriving DecidableEq, Repr

/-- Why a command line is not carried out. -/
inductive Refusal where
  /-- It is not a command. -/
  | usage
  /-- It asks how commands are written. -/
  | help
  deriving DecidableEq, Repr

/-- Why a command fails. -/
inductive CommandError where
  /-- The settings of a workspace or of a file cannot be loaded. -/
  | loading (source : String) (cause : InventoryError)
  /-- The settings have problems, whose texts are given. -/
  | problems (texts : List String)
  | noElement (element : String) (values : List (Option String))
  | inventory (cause : InventoryError)

/-- The text of an error. -/
def CommandError.message : CommandError → String
  | .loading source cause => s!"loading {source}: " ++ cause.message
  | .problems texts =>
    "Configuration validation failed:\n" ++ String.intercalate "\n" texts
  | .noElement element values => s!"No <{element}> with key " ++ Text.quotedOptions values
  | .inventory cause => cause.message

end TemplateInventory
