import TemplateInventory.Inventory.Load
/-!
# User files

What users change is saved in a directory of its own, one file for each element,
named after the element's identity. A named view is saved together with the
grouping element that it belongs to, in a file named after that.

`Work.persist` saves an element and adds it, `Work.loadUserFiles` loads what was
saved, and `Work.deleteUserFiles` deletes what is not a view of the user's own.
-/

namespace TemplateInventory

namespace Inventory

/-- The directory of user files, which has to be known. -/
def requireUserDirectory (i : Inventory) : Except InventoryError Path :=
  match i.userDirectory with
  | some d => .ok d
  | none => .error (.settings .noUserDirectory)

/-- The file pattern without a star at its start. -/
def patternEnding (i : Inventory) : String :=
  match i.pattern.text.toList with
  | '*' :: cs => String.ofList cs
  | _ => i.pattern.text

/-! ## Named views -/

/-- The tag of a named view: what its identity has from the marker of a copied
layout to that of a copied node. The marker is not the first character. -/
def viewTag (identity : String) : Option (List Char) :=
  match identity.toList.span (· != layoutCopyMarker) with
  | ([], _) => none
  | (_, []) => none
  | (_, tag) => some (tag.takeWhile (· != nodeCopyMarker))

/-- Whether the grouping attribute of an element ends with a tag. -/
def hasTag (i : Inventory) (tag : List Char) (e : Element) : Bool :=
  match e.attr i.conventions.groupingAttr with
  | some layout => tag.isSuffixOf layout.toList
  | none => false

/-- The grouping element that a named view belongs to. -/
def groupingOf (i : Inventory) (identity : String) : Option Element :=
  (viewTag identity).bind fun tag => (i.groupings.map Handle.element).find? (i.hasTag tag)

/-- The name that an element's file starts with: its identity, or the label and
the class of its grouping element. -/
def fileStem (i : Inventory) (identity : String) :
    Option Element → Except InventoryError String
  | none => .ok identity
  | some grouping =>
    (grouping.requiredAttr i.conventions.labelAttr).map fun label =>
      label ++ "_" ++
        ((grouping.children.head?.bind (·.attr i.conventions.classAttr)).getD "")

/-! ## Saving -/

/-- An element to save: it carries the version of the inventory unless it has
one, or the inventory has none. -/
def stampVersion (i : Inventory) (e : Element) : Element :=
  if i.version ≠ 0 ∧ e.hasAttr Element.versionAttr = false then
    e.setAttr Element.versionAttr (toString i.version)
  else e

/-- The name of the file that an element is saved in, with the grouping element
that is saved with it. -/
def fileFor (i : Inventory) (e : Element) :
    Except InventoryError (String × Option Element) :=
  match i.schema.identityAttr e.name with
  | none => .error (.settings (.noKeyAttributes e.name))
  | some attr =>
    match e.requiredAttr attr with
    | .error err => .error err
    | .ok identity =>
      let grouping := i.groupingOf identity
      (i.fileStem identity grouping).map fun stem =>
        ((if i.scope.isNone then unscopedPrefix else "") ++ stem ++ i.patternEnding, grouping)

/-- A list without its first item that meets a condition. -/
def withoutFirst (isIt : Element → Bool) (es : List Element) : List Element := es.eraseP isIt

/-- The children of a saved wrapper once an element and its grouping element take
the place of their earlier forms. -/
def savedChildren (i : Inventory) (e : Element) (grouping : Option Element)
    (children : List Element) : List Element :=
  let others := withoutFirst (fun c => i.schema.classOf c = i.schema.classOf e) children
  match grouping with
  | none => others ++ [e]
  | some g =>
    let isOld := fun c : Element =>
      c.name = i.conventions.groupingElement &&
        c.attr i.conventions.groupingAttr == g.attr i.conventions.groupingAttr
    withoutFirst isOld others ++ [e, g]

/-- The document that an element is saved in; one with other wrappers is not
used. -/
def savedDocument (i : Inventory) (e : Element) (grouping : Option Element)
    (document : Element) : Except InventoryError Element :=
  let save := fun wrapper : Element =>
    { wrapper with children := i.savedChildren e grouping wrapper.children }
  match i.selection.mapInnermost save document with
  | some d => .ok d
  | none =>
    match i.selection.mapInnermost save i.selection.skeleton with
    | some d => .ok d
    | none => .error (.selectionPath i.selection.text)

end Inventory

namespace Work

/-- The document in a file, or the wrappers alone if there is no file. -/
def readOrSkeleton (p : Path) : Work Element :=
  ask fun w =>
    if w.files.holds p then w.files.readDocument p else .ok w.inventory.selection.skeleton

/-- Saves an element as user data and adds it. Gives the path of the file. -/
def persist (source : Handle) : Work Path := do
  let i ← inventory
  let e := i.stampVersion source.element
  let (name, grouping) ← ask fun _ => i.fileFor e
  let directory ← ask fun _ => i.requireUserDirectory
  let p := directory.child name
  onFiles (·.makeDirectories directory)
  let document ← readOrSkeleton p
  let document ← ask fun _ => i.savedDocument e grouping document
  onFiles (·.attempt (·.writeDocument p document))
  modifyInventory fun i => (i.mint e).2
  onInventory (·.add (source.revise i.holdings.nextSerial e))
  return p

/-- Sets the scope, if one is given. -/
def setScope : Option String → Work Unit
  | some scope => modifyInventory fun i => { i with scope := some scope }
  | none => return

/-- Loads user files, which have to have a version. Their directory belongs to
the inventory from then on, whether it exists or not. -/
def loadUserFiles (expected : Int) (scope : Option String) : Work Unit := do
  modifyInventory fun i => { i with version := expected }
  setScope scope
  let directory ← ask fun w => w.inventory.requireUserDirectory
  modifyInventory fun i =>
    { i with sources := Inventory.addSource i.sources directory .userOverrides }
  addDirectory .userOverrides expected directory

/-- Whether a file holds a view that the user made: its name has several parts
between underscores. -/
def isUserView (p : Path) : Bool :=
  let parts := ((p.fileStem.getD "").toList.splitOn '_').filter (!·.isEmpty)
  1 < parts.length

/-- Deletes files; gives how many. A file that must not be deleted would be passed over
and not counted; but access is never refused. -/
def deleteAll (deleted : Nat) : List Path → Work Nat
  | [] => return deleted
  | p :: rest => do
    onFiles (·.attempt (·.remove p))
    deleteAll (deleted + 1) rest

/-- Deletes the user files that are no views of the user's own; gives how many. -/
def deleteUserFiles (scope : Option String) : Work Nat := do
  setScope scope
  let directory ← ask fun w => w.inventory.requireUserDirectory
  let found ← ask fun w => w.inventory.filesOf w.files .userOverrides directory
  deleteAll 0 ((found.map FileStamp.path).filter fun p => !isUserView p)

end Work

end TemplateInventory
