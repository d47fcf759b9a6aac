import TemplateInventory.Path
import TemplateInventory.Table
/-!
# Environments

The variables that a program is started with, and the directories for a user's
data and settings that follow from them.
-/

namespace TemplateInventory

/-- What a program is started with. -/
structure Environment where
  /-- The values of the variables. -/
  bindings : Table String String
  /-- The home directory of the account, for when no variable names one. -/
  accountHome : Option Path

namespace Environment

/-- The value of a variable. -/
def get? (env : Environment) (name : String) : Option String := env.bindings.get? name

/-- The value of a variable that is set to something. -/
def nonempty? (env : Environment) (name : String) : Option String :=
  (env.get? name).filter (· != "")

/-- The user's home directory. -/
def home (env : Environment) : Option Path :=
  match env.nonempty? "HOME" with
  | some h => some ⟨h⟩
  | none => env.accountHome

/-- The directory for the data of programs; a relative setting does not count. -/
def dataDirectory (env : Environment) : Option Path :=
  match (env.get? "XDG_DATA_HOME").filter fun d => Path.isAbsolute ⟨d⟩ with
  | some d => some ⟨d⟩
  | none => env.home.map (·.join ⟨".local/share"⟩)

/-- The directory for the settings of programs. -/
def settingsDirectory (env : Environment) : Option Path :=
  match env.nonempty? "XDG_CONFIG_HOME" with
  | some d => some ⟨d⟩
  | none => (env.get? "HOME").map fun h => Path.join ⟨h⟩ ⟨".config"⟩

end Environment

end TemplateInventory
