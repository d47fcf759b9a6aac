import TemplateInventory.FileTree
import TemplateInventory.Glob.Parser
/-!
# File patterns

Which files of a directory are templates: those directly inside whose names
match a glob. `FilePattern.scan` lists them in the order of their names, each
with the time at which it was last changed.
-/

namespace TemplateInventory

/-- A glob for the names of files. -/
structure FilePattern where
  text : String
  tokens : List Glob.Token

/-- A file with the time at which it was last changed. -/
structure FileStamp where
  path : Path
  modified : Stamp
  deriving DecidableEq, Repr

/-- Whether two stamps are of one file at one time. -/
def FileStamp.agrees (a b : FileStamp) : Bool := a.path.same b.path && a.modified == b.modified

namespace FilePattern

/-- Reads a glob. -/
def parse (text : String) : Except Glob.Fault FilePattern := (Glob.parse text).map (⟨text, ·⟩)

/-- Whether a file name matches. -/
def matchesName (p : FilePattern) (name : String) : Bool := Glob.matchesName p.tokens name

/-- The matching files directly inside a directory, in the order of their names;
none if there is no such directory. -/
def scan (p : FilePattern) (files : FileTree) (directory : Path) : List FileStamp :=
  let found := (files.filesIn directory).filter fun f => p.matchesName f.1
  (found.mergeSort fun a b => !(b.1 < a.1)).map fun (name, time) => ⟨directory.child name, time⟩

end FilePattern

end TemplateInventory
