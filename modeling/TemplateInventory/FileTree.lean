import TemplateInventory.Path
import TemplateInventory.Table
/-!
# File trees

The files that the inventory reads and writes, as a value: directories and files
by their place, each file with its bytes and the time it was last changed. A
time is one that was given, or the number of a write made through `write`; so a
write has a time unlike every other, `Stamp.written`.

Looking a path up follows the rules of a file system without links: each part
but the last has to be a directory, `..` goes up, a slash at the end asks for a
directory, and neither a name nor a whole path may be too long.

Access is never refused: every file and directory may be read, changed and removed.
So no operation fails for want of a permission, and what would be done about such a
failure does not come up.
-/

namespace TemplateInventory

/-- Why a file operation is refused. -/
inductive FileError where
  | notFound
  | alreadyExists
  | isDirectory
  | notDirectory
  | nameTooLong
  | badName
  deriving DecidableEq, Repr

/-- The text of a refused file operation. -/
def FileError.message : FileError → String
  | .notFound => "No such file or directory (os error 2)"
  | .alreadyExists => "File exists (os error 17)"
  | .isDirectory => "Is a directory (os error 21)"
  | .notDirectory => "Not a directory (os error 20)"
  | .nameTooLong => "File name too long (os error 36)"
  | .badName => "file name contained an unexpected NUL byte"

/-- When a file was last changed: at a given time, or by a numbered write. -/
inductive Stamp where
  | given (time : Int)
  | written (count : Nat)
  deriving DecidableEq, Repr

/-- What is found at a place of the tree. -/
inductive Entry where
  | directory
  | file (bytes : ByteArray) (modified : Stamp)

/-- Files and directories by their place below the root. -/
structure FileTree where
  entries : Table (List String) Entry
  /-- The directory that relative paths start from. -/
  workDir : List String
  /-- How many writes were made. -/
  writes : Nat

namespace FileTree

/-- All directories on the way to `place`, the place itself included. -/
def withDirectories (entries : Table (List String) Entry) (place : List String) :
    Table (List String) Entry :=
  ((List.range (place.length + 1)).map place.take).foldl
    (fun t p => if p.isEmpty || t.contains p then t else t.put p .directory) entries

/-- The tree that holds only the directories down to `workDir`. -/
def ofWorkDir (workDir : List String) : FileTree :=
  ⟨withDirectories .empty workDir, workDir, 0⟩

/-- What is at a place; the root is always a directory. -/
def entryAt (t : FileTree) (place : List String) : Option Entry :=
  if place.isEmpty then some .directory else t.entries.get? place

/-- Follows the parts of a path from the directory `here`. The last part need
not exist. -/
def walk (t : FileTree) (here : List String) : List String → Except FileError (List String)
  | [] => .ok here
  | part :: rest =>
    if part == "." then t.walk here rest
    else if part == ".." then t.walk here.dropLast rest
    else if part.utf8ByteSize > 255 then .error .nameTooLong
    else
      let next := here ++ [part]
      if rest.isEmpty then .ok next
      else
        match t.entryAt next with
        | some .directory => t.walk next rest
        | some (.file _ _) => .error .notDirectory
        | none => .error .notFound

/-- Where parts lead that stand for a path of any length. -/
def reach (t : FileTree) (p : Path) (parts : List String) : Except FileError (List String) :=
  if p.text == "" then .error .notFound
  else if p.text.toList.contains '\x00' then .error .badName
  else t.walk (if p.isAbsolute then [] else t.workDir) parts

/-- The most bytes that the text of a path may have where files are looked up. -/
def greatestLength : Nat := 4095

/-- Where parts lead that stand for a path. -/
def follow (t : FileTree) (p : Path) (parts : List String) : Except FileError (List String) :=
  if p.text.utf8ByteSize > greatestLength && !p.text.toList.contains '\x00' then
    .error .nameTooLong
  else t.reach p parts

/-- The place that a path names. -/
def locate (t : FileTree) (p : Path) : Except FileError (List String) := t.follow p p.parts

/-- The entry at the place that a path names. -/
def entryFor (t : FileTree) (p : Path) (place : List String) :
    Except FileError (List String × Entry) :=
  match t.entryAt place with
  | none => .error .notFound
  | some (.file bytes modified) =>
    if p.asksDirectory then .error .notDirectory else .ok (place, .file bytes modified)
  | some .directory => .ok (place, .directory)

/-- The place and the entry that a path names. -/
def lookup (t : FileTree) (p : Path) : Except FileError (List String × Entry) :=
  (t.locate p).bind (t.entryFor p)

/-- Whether the path names something. -/
def holds (t : FileTree) (p : Path) : Bool :=
  match t.lookup p with
  | .ok _ => true
  | .error _ => false

/-- Whether the path names a directory. -/
def isDirectory (t : FileTree) (p : Path) : Bool :=
  match t.lookup p with
  | .ok (_, .directory) => true
  | _ => false

/-- Whether the path names a file. -/
def isFile (t : FileTree) (p : Path) : Bool :=
  match t.lookup p with
  | .ok (_, .file _ _) => true
  | _ => false

/-- The bytes of the file that the path names. -/
def read (t : FileTree) (p : Path) : Except FileError ByteArray :=
  match t.lookup p with
  | .error e => .error e
  | .ok (_, .directory) => .error .isDirectory
  | .ok (_, .file bytes _) => .ok bytes

/-- When the file that the path names was last changed. A directory has the time
zero; no caller compares it. -/
def modified (t : FileTree) (p : Path) : Except FileError Stamp :=
  match t.lookup p with
  | .error e => .error e
  | .ok (_, .directory) => .ok (.given 0)
  | .ok (_, .file _ time) => .ok time

/-- The path from the root to the place that the path names. It is found part by
part, so the length of the path does not count. -/
def canonical (t : FileTree) (p : Path) : Except FileError Path :=
  match (t.reach p p.parts).bind (t.entryFor p) with
  | .error e => .error e
  | .ok (place, _) => .ok (Path.ofComponents ("/" :: place))

/-- The place where a file may be written under the path. A slash at the end asks
for a directory, which no file is written to; then the last part does not matter. -/
def writable (t : FileTree) (p : Path) : Except FileError (List String) :=
  if p.endsInSlash then
    (t.follow p (p.parts.dropLast ++ ["."])).bind fun _ => .error .isDirectory
  else
    match t.locate p with
    | .error e => .error e
    | .ok place =>
      match t.entryAt place with
      | some .directory => .error .isDirectory
      | some (.file _ _) => .ok place
      | none =>
        match t.entryAt place.dropLast with
        | some .directory => .ok place
        | some (.file _ _) => .error .notDirectory
        | none => .error .notFound

/-- Writes a file under the path, at a time of its own. -/
def write (t : FileTree) (p : Path) (bytes : ByteArray) : Except FileError FileTree :=
  match t.writable p with
  | .error e => .error e
  | .ok place =>
    .ok { t with entries := t.entries.put place (.file bytes (.written t.writes)),
                 writes := t.writes + 1 }

/-- Makes sure that a file is there to append to; one that exists stays as it is. -/
def openToAppend (t : FileTree) (p : Path) : Except FileError FileTree :=
  match t.writable p with
  | .error e => .error e
  | .ok place =>
    match t.entryAt place with
    | some _ => .ok t
    | none =>
      .ok { t with entries := t.entries.put place (.file .empty (.written t.writes)),
                   writes := t.writes + 1 }

/-- Removes the file that the path names. -/
def remove (t : FileTree) (p : Path) : Except FileError FileTree :=
  match t.lookup p with
  | .error e => .error e
  | .ok (_, .directory) => .error .isDirectory
  | .ok (place, .file _ _) => .ok { t with entries := t.entries.erase place }

/-- Makes one directory. -/
def makeDirectory (t : FileTree) (p : Path) : Except FileError FileTree :=
  match t.locate p with
  | .error e => .error e
  | .ok place =>
    match t.entryAt place with
    | some _ => .error .alreadyExists
    | none =>
      match t.entryAt place.dropLast with
      | some .directory => .ok { t with entries := t.entries.put place .directory }
      | some (.file _ _) => .error .notDirectory
      | none => .error .notFound

/-- Makes one directory, unless it is there already. -/
def ensureDirectory (t : FileTree) (p : Path) : Except FileError FileTree :=
  match t.makeDirectory p with
  | .ok t' => .ok t'
  | .error e => if t.isDirectory p then .ok t else .error e

/-- Does what changes nothing if it is refused. The tree comes back whether it is
or not. -/
def attempt (f : FileTree → Except FileError FileTree) (t : FileTree) :
    Except FileError Unit × FileTree :=
  match f t with
  | .error e => (.error e, t)
  | .ok t' => (.ok (), t')

/-- Makes the first directory of a list, with those after it if it needs them.
The empty path asks for none. Those made before one is refused stay. -/
def makeDirectoriesUp (t : FileTree) : List Path → Except FileError Unit × FileTree
  | [] => (.ok (), t)
  | p :: above =>
    if p.text == "" then (.ok (), t)
    else
      match t.ensureDirectory p with
      | .ok t' => (.ok (), t')
      | .error .notFound =>
        match t.makeDirectoriesUp above with
        | (.error e, t') => (.error e, t')
        | (.ok _, t') => t'.attempt (·.ensureDirectory p)
      | .error e => (.error e, t)

/-- Makes the directory that the path names, with every directory on the way. -/
def makeDirectories (t : FileTree) (p : Path) : Except FileError Unit × FileTree :=
  t.makeDirectoriesUp p.selfAndAbove

/-- The names and times of the files directly inside the directory of the path. -/
def filesIn (t : FileTree) (p : Path) : List (String × Stamp) :=
  match t.lookup p with
  | .ok (place, .directory) =>
    t.entries.entries.filterMap fun e =>
      match e with
      | (at', .file _ modified) =>
        if at'.dropLast == place then at'.getLast?.map fun name => (name, modified) else none
      | (_, .directory) => none
  | _ => []

/-- The files below the working directory, by their places from there and in the
order of these, name by name. -/
def allFiles (t : FileTree) : List (List String) :=
  let inside := t.entries.entries.filterMap fun e =>
    match e with
    | (place, .file _ _) =>
      if t.workDir.isPrefixOf place then some (place.drop t.workDir.length) else none
    | (_, .directory) => none
  inside.mergeSort (fun a b => !(decide (b < a)))

/-- Gives the file that the path names another time. -/
def touch (t : FileTree) (p : Path) (time : Int) : Except FileError FileTree :=
  match t.lookup p with
  | .error e => .error e
  | .ok (_, .directory) => .error .isDirectory
  | .ok (place, .file bytes _) =>
    .ok { t with entries := t.entries.put place (.file bytes (.given time)) }

/-- Writes a file with a given time, with the directories on the way to it. -/
def placeFile (t : FileTree) (p : Path) (bytes : ByteArray) (time : Int) :
    Except FileError Unit × FileTree :=
  match t.makeDirectories (p.parent.getD ⟨""⟩) with
  | (.error e, t') => (.error e, t')
  | (.ok _, t') => t'.attempt fun t => (t.write p bytes).bind (·.touch p time)

end FileTree

end TemplateInventory
