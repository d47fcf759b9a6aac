import TemplateInventory.Inventory.Reconcile
import TemplateInventory.Workspace
import TemplateInventory.Xml.Document
/-!
# Loading

An inventory is loaded directory by directory, the files of each in the order of
their names. Each document's elements are reconciled and added before the next
file is read. A file whose elements were brought up to date is written back, so
that the next load finds them so.

The files that were read are stamped. `Work.noFilesChanged` compares the stamps
with what the directories hold now.
-/

namespace TemplateInventory

/-- What user files have before the file pattern's name while there is no scope. -/
def unscopedPrefix : String := "default$$"

namespace Inventory

/-- The pattern of user files. -/
def userPattern (i : Inventory) : String :=
  match i.scope with
  | some _ => i.pattern.text
  | none => unscopedPrefix ++ i.pattern.text

/-- The pattern by which files of a kind of directory are found. -/
def patternFor (i : Inventory) (kind : SourceKind) : Except InventoryError FilePattern :=
  match kind with
  | .shipped => .ok i.pattern
  | .userOverrides =>
    match FilePattern.parse i.userPattern with
    | .ok p => .ok p
    | .error e => .error (.filePattern i.userPattern e)

/-- The files of a directory that belong to the inventory. -/
def filesOf (i : Inventory) (files : FileTree) (kind : SourceKind) (directory : Path) :
    Except InventoryError (List FileStamp) :=
  (i.patternFor kind).map (·.scan files directory)

/-- The files of directories, one directory after the other. -/
def filesOfAll (i : Inventory) (files : FileTree) :
    List Source → Except InventoryError (List FileStamp)
  | [] => .ok []
  | s :: rest =>
    match i.filesOf files s.kind s.path with
    | .error e => .error e
    | .ok found => (i.filesOfAll files rest).map (found ++ ·)

/-- Adds the elements of a document. -/
def addDocument (i : Inventory) (document : Element) (expected : Int) :
    Except InventoryError Unit × Inventory :=
  match i.reconcile (i.selection.select document) expected false with
  | (.error e, i) => (.error e, i)
  | (.ok r, i) => i.addRead r.survivors

/-- Adds the elements of a written document. -/
def addText (i : Inventory) (text : String) (expected : Int) :
    Except InventoryError Unit × Inventory :=
  match Xml.parse text with
  | .error e => (.error (.xml e), i)
  | .ok document => i.addDocument document expected

/-- Loads the elements of a written document in place of what is loaded. -/
def loadText (i : Inventory) (text : String) (expected : Int) :
    Except InventoryError Unit × Inventory :=
  i.clear.addText text expected

end Inventory

/-- The document in a file. -/
def FileTree.readDocument (files : FileTree) (p : Path) : Except InventoryError Element :=
  match files.read p with
  | .error e => .error (.file e)
  | .ok bytes =>
    match Text.Utf8.decode bytes with
    | .error e => .error (.parse p (.text e))
    | .ok text =>
      match Xml.parse text with
      | .error e => .error (.parse p (.markup e))
      | .ok document => .ok document

/-- Writes a document to a file. -/
def FileTree.writeDocument (files : FileTree) (p : Path) (document : Element) :
    Except FileError FileTree :=
  files.write p (Xml.printDocument document ++ "\n").toUTF8

/-- Gives the last stamp of a file another time. -/
def restamp (p : Path) (time : Stamp) (stamps : List FileStamp) : List FileStamp :=
  match stamps.reverse.findIdx? (·.path.same p) with
  | some n => stamps.modify (stamps.length - 1 - n) fun s => { s with modified := time }
  | none => stamps

namespace Work

/-- Reads the document in a file, which is stamped. -/
def readFile (p : Path) : Work Element := do
  let time ← ask fun w => (w.files.modified p).mapError .file
  modifyInventory fun i => { i with stamps := i.stamps ++ [⟨p, time⟩] }
  ask fun w => w.files.readDocument p

/-- Writes a document back with `survivors` in the place of what was selected, if
anything was. The file's stamp gets the new time. A file that must not be written would
be left with its stamp, and the load would go on; but access is never refused. -/
def refreshFile (p : Path) (document : Element) (survivors : List Handle) : Work Unit := do
  let i ← inventory
  match i.selection.replace (survivors.map Handle.element) document with
  | (false, _) => return
  | (true, document) =>
    onFiles (·.attempt (·.writeDocument p document))
    let files ← files
    match files.modified p with
    | .error _ => return
    | .ok time => modifyInventory fun i => { i with stamps := restamp p time i.stamps }

/-- Adds the elements of a file. -/
def addFile (expected : Int) (isUser : Bool) (p : Path) : Work Unit := do
  let document ← readFile p
  let r ← onInventory fun i => i.reconcile (i.selection.select document) expected isUser
  if r.changed then refreshFile p document r.survivors
  onInventory (·.addRead r.survivors)

/-- Adds the elements of files in order. -/
def addFiles (expected : Int) (isUser : Bool) : List Path → Work Unit
  | [] => return
  | p :: rest => do
    addFile expected isUser p
    addFiles expected isUser rest

/-- Adds the elements of a directory's files, which are found as `kind` says. -/
def addDirectory (kind : SourceKind) (expected : Int) (directory : Path) : Work Unit := do
  let found ← ask fun w => w.inventory.filesOf w.files kind directory
  addFiles expected (kind == .userOverrides) (found.map FileStamp.path)

/-- Adds the elements of directories in order. -/
def addSources : List Source → Work Unit
  | [] => return
  | s :: rest => do
    let i ← inventory
    addDirectory s.kind i.version s.path
    addSources rest

/-- Loads every directory in place of what is loaded. -/
def load : Work Unit := do
  modifyInventory (·.clear)
  let i ← inventory
  addSources (i.sources.entries.map (·.2))

/-- Whether the directories hold exactly the files that were read, at the times
that they had then. -/
def noFilesChanged : Work Bool :=
  ask fun w =>
    (w.inventory.filesOfAll w.files (w.inventory.sources.entries.map (·.2))).map fun found =>
      found.length == w.inventory.stamps.length &&
        (found.zip w.inventory.stamps).all fun (a, b) => a.agrees b

/-- Loads again if any file came, went or changed; tells whether it did. -/
def reloadIfChanged : Work Bool := do
  if ← noFilesChanged then return false
  load
  return true

/-- Adds directories that are not known yet, and loads their files. -/
def addDirectories : List Path → Work Unit
  | [] => return
  | d :: rest => do
    let isNew ← ask fun w =>
      .ok (!w.inventory.sources.contains d.components && w.files.isDirectory d)
    if isNew then
      modifyInventory fun i => { i with sources := Inventory.addSource i.sources d .shipped }
      let i ← inventory
      addDirectory .shipped i.version d
    addDirectories rest

end Work

end TemplateInventory
