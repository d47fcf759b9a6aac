import TemplateInventory.Inventory.Basic
/-!
# Copies of layouts

Copies have a marked tag at the end of their names. `Inventory.copyTags` lists
the tags of copied nodes; `Inventory.expandTagged` makes a copy of every tagged
layout that has none for a tag yet.
-/

namespace TemplateInventory

namespace Inventory

/-! ## Tags in use -/

/-- The text after the first marker of a copied node in a key value. -/
def copyTag (value : String) : Option String :=
  match value.toList.dropWhile (· != nodeCopyMarker) with
  | _ :: c :: cs => some (String.ofList (c :: cs))
  | _ => none

/-- The tags of copied nodes in the keys that are known to be served, each once
and in order. -/
def copyTags (i : Inventory) : List String :=
  let tags := (i.holdings.cache.foundKeys .main).flatMap fun k =>
    k.values.filterMap (·.bind copyTag)
  (distinctItems tags).mergeSort fun a b => !(b < a)

/-! ## Copies of tagged layouts -/

/-- A name with a tag. -/
def withTag (name tag : String) : String := name ++ "-" ++ tag

/-- The copy of a child of a tagged layout: a sublayout has the tag on its name,
a part with a parameter on that. -/
def copyChild (c : Conventions) (tag : String) (child : Element) :
    Except InventoryError Element :=
  if child.name = "sublayout" then
    match child.requiredAttr c.nameAttr with
    | .error e => .error e
    | .ok name => .ok (child.setAttr c.nameAttr (withTag name tag))
  else if child.name = "part" then
    match child.attr "param" with
    | some param =>
      .ok (if param = "" then child else child.setAttr "param" (withTag param tag))
    | none => .ok child
  else .ok child

/-- The copies of children, up to the first that cannot be copied. -/
def copyChildren (c : Conventions) (tag : String) :
    List Element → Except InventoryError (List Element)
  | [] => .ok []
  | child :: rest =>
    match copyChild c tag child with
    | .error e => .error e
    | .ok child => (copyChildren c tag rest).map (child :: ·)

/-- The copy of a tagged layout under the name `name`. -/
def copyTagged (c : Conventions) (tag name : String) (node : Element) :
    Except InventoryError Element :=
  (copyChildren c tag node.children).map fun children =>
    { node.setAttr c.nameAttr name with children := children }

/-- The key values of a tagged layout's copy under the name `name`. -/
def valuesOfCopy (i : Inventory) (name : String) (node : Element) : List (Option String) :=
  let values := i.schema.valuesOf node
  match (i.schema.attrsFor node.name).findIdx? (· == i.conventions.nameAttr) with
  | some slot => values.set slot (some name)
  | none => values

/-- Adds the copy of a tagged layout if there is none yet, and tells whether it
did. -/
def expandOne (i : Inventory) (tag : String) (node : Handle) :
    Except InventoryError Bool × Inventory :=
  match node.element.requiredAttr i.conventions.nameAttr with
  | .error e => (.error e, i)
  | .ok name =>
    let copyName := withTag name tag
    match i.onHoldings (·.resolve [] node.element.name (i.valuesOfCopy copyName node.element)) with
    | (some _, i) => (.ok false, i)
    | (none, i) =>
      match copyTagged i.conventions tag copyName node.element with
      | .error e => (.error e, i)
      | .ok copy =>
        let handle := node.revise i.holdings.nextSerial copy
        let (_, i) := i.mint copy
        match i.add handle with
        | (.error e, i) => (.error e, i)
        | (.ok (), i) => (.ok true, i)

/-- Adds copies of layouts; gives how many were added. -/
def expandAll (i : Inventory) (tag : String) (added : Nat) :
    List Handle → Except InventoryError Nat × Inventory
  | [] => (.ok added, i)
  | node :: nodes =>
    match i.expandOne tag node with
    | (.error e, i) => (.error e, i)
    | (.ok isNew, i) => i.expandAll tag (if isNew then added + 1 else added) nodes

/-- Adds a copy for a tag of every tagged layout without one; gives how many were
added. -/
def expandTagged (i : Inventory) (tag : String) : Except InventoryError Nat × Inventory :=
  i.expandAll tag 0 i.tagged

end Inventory

end TemplateInventory
