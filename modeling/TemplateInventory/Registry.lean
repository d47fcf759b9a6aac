import TemplateInventory.Inventory.UserFiles
import TemplateInventory.Settings.Basic
/-!
# Registries

Several inventories by name. Each project has a scope of its own, so that it can
keep its copy of an inventory beside those of others; an empty scope is none.

`Registry.set` binds an inventory to the scope that it is registered for, and
`Registry.ofSettings` loads every inventory of a workspace.
-/

namespace TemplateInventory

/-- Inventories by their keys. -/
structure Registry where
  inventories : Table String Inventory

namespace Registry

/-- The registry without inventories. -/
def empty : Registry := ⟨.empty⟩

/-- The key of a name in a scope. -/
def key (name : String) (scope : Option String) : String :=
  match scope.filter (· != "") with
  | some scope => name ++ "$" ++ scope
  | none => name

/-- The inventory of a name in a scope. -/
def get? (r : Registry) (name : String) (scope : Option String) : Option Inventory :=
  r.inventories.get? (key name scope)

/-- The inventory of a name in a scope, which has to be there. -/
def get (r : Registry) (name : String) (scope : Option String) :
    Except InventoryError Inventory :=
  match r.get? name scope with
  | some i => .ok i
  | none => .error (.registry (.notFound (key name scope)))

/-- Changes the inventory of a name in a scope, if there is one. -/
def update (r : Registry) (name : String) (scope : Option String) (f : Inventory → Inventory) :
    Registry :=
  match r.get? name scope with
  | some i => ⟨r.inventories.put (key name scope) (f i)⟩
  | none => r

/-- An inventory that is bound to a scope: one without a scope takes it on, and
one of another scope does not serve. -/
def bind (scope : Option String) (i : Inventory) : Except InventoryError Inventory :=
  match i.scope with
  | none => .ok { i with scope := scope }
  | some own =>
    if scope = some own then .ok i else .error (.registry (.otherScope own scope))

/-- Registers an inventory for a name in a scope. Gives the one whose place it takes. -/
def set (r : Registry) (name : String) (scope : Option String) (i : Inventory) :
    Except InventoryError (Option Inventory × Registry) :=
  if name = "" then .error (.registry .noName)
  else (bind scope i).map fun i => (r.get? name scope, ⟨r.inventories.put (key name scope) i⟩)

/-- Removes the inventory of a name in a scope. Gives the one that was there. -/
def remove (r : Registry) (name : String) (scope : Option String) : Option Inventory × Registry :=
  (r.get? name scope, ⟨r.inventories.erase (key name scope)⟩)

/-- How many inventories there are. -/
def size (r : Registry) : Nat := r.inventories.size

/-- The keys in order. -/
def keys (r : Registry) : List String := r.inventories.keys.mergeSort fun a b => !(b < a)

/-! ## Loading -/

/-- Loads an inventory as its settings say. -/
def loadAs (settings : InventorySettings) (scope : Option String) : Work Unit := do
  Work.load
  if settings.loadsUserFiles then Work.loadUserFiles settings.version scope

/-- Loads one inventory of a workspace into a registry. -/
def addLoaded (s : Settings) (env : Environment) (root : Path) (name : String)
    (settings : InventorySettings) (r : Registry) (files : FileTree) :
    Except InventoryError Registry × FileTree :=
  match Inventory.ofSettings s env root name with
  | .error e => (.error e, files)
  | .ok i =>
    match (loadAs settings s.project.scope).runOn ⟨i, files⟩ with
    | (.error e, w) => (.error e, w.files)
    | (.ok (), w) => ((r.set name s.project.scope w.inventory).map Prod.snd, w.files)

/-- Loads inventories of a workspace one after the other, up to the first that
cannot be loaded. -/
def addAllLoaded (s : Settings) (env : Environment) (root : Path) (r : Registry)
    (files : FileTree) :
    List (String × InventorySettings) → Except InventoryError Registry × FileTree
  | [] => (.ok r, files)
  | (name, settings) :: rest =>
    match addLoaded s env root name settings r files with
    | (.error e, files) => (.error e, files)
    | (.ok r, files) => addAllLoaded s env root r files rest

/-- The registry of all inventories of a workspace, with the files as they are
after loading. -/
def ofSettings (s : Settings) (env : Environment) (root : Path) (files : FileTree) :
    Except InventoryError Registry × FileTree :=
  addAllLoaded s env root empty files s.inventories.entries

end Registry

end TemplateInventory
