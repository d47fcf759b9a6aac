import TemplateInventory.Inventory.Basic
/-!
# Workspaces

An inventory together with the files that it reads and writes. An operation that
may fail part of the way leaves the workspace as it is at that moment, so `Work`
gives the workspace for failures too.
-/

namespace TemplateInventory

/-- An inventory and the files around it. -/
structure Workspace where
  inventory : Inventory
  files : FileTree

/-- An operation on a workspace that may fail. -/
abbrev Work := ExceptT InventoryError (StateM Workspace)

namespace Work

/-- Runs an operation; the workspace comes back whether it fails or not. -/
def runOn {α : Type} (work : Work α) (w : Workspace) : Except InventoryError α × Workspace :=
  (work.run).run w

/-- The operation that has a given effect and result. -/
def of {α : Type} (f : Workspace → Except InventoryError α × Workspace) : Work α :=
  ExceptT.mk fun w => f w

/-- The inventory. -/
def inventory : Work Inventory := of fun w => (.ok w.inventory, w)

/-- The files. -/
def files : Work FileTree := of fun w => (.ok w.files, w)

/-- Changes the inventory. -/
def modifyInventory (f : Inventory → Inventory) : Work Unit :=
  of fun w => (.ok (), { w with inventory := f w.inventory })

/-- Runs an operation on the inventory. -/
def onInventory {α : Type} (f : Inventory → Except InventoryError α × Inventory) : Work α :=
  of fun w =>
    let (result, i) := f w.inventory
    (result, { w with inventory := i })

/-- Runs an operation on the files. -/
def onFiles (f : FileTree → Except FileError Unit × FileTree) : Work Unit :=
  of fun w =>
    let (result, files) := f w.files
    (result.mapError .file, { w with files := files })

/-- The answer of a question that does not change anything. -/
def ask {α : Type} (f : Workspace → Except InventoryError α) : Work α := of fun w => (f w, w)

end Work

end TemplateInventory
