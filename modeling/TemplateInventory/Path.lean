/-!
# Paths

A path is a text with `/` between its parts. Two paths are the same place to
look when their components agree, `Path.same`: doubled slashes, a slash at the
end and `.` inside a path do not count.
-/

namespace TemplateInventory

/-- The name of a place in a file tree. -/
structure Path where
  text : String
  deriving DecidableEq, Repr, Inhabited

namespace Path

/-- The parts between the slashes of a text. -/
def splitSlashes (s : String) : List String :=
  (s.toList.splitOn '/').map String.ofList

/-- Whether the path starts at the root of the tree. -/
def isAbsolute (p : Path) : Bool := p.text.toList.head? == some '/'

/-- The parts of the path; doubled slashes have none between them. -/
def parts (p : Path) : List String := (splitSlashes p.text).filter (· != "")

/-- Whether the path ends in a slash. -/
def endsInSlash (p : Path) : Bool := p.text.toList.getLast? == some '/'

/-- Whether the path asks for a directory by a slash or a `.` at its end. -/
def asksDirectory (p : Path) : Bool :=
  match (splitSlashes p.text).getLast? with
  | some part => (part == "" || part == ".") && p.text != ""
  | none => false

/-- What a path names, step by step: a first `/` for the root, and a `.` only
where the path starts with it. -/
def components (p : Path) : List String :=
  let parts := splitSlashes p.text
  let named := parts.filter fun s => s != "" && s != "."
  if p.isAbsolute then "/" :: named
  else if parts.head? == some "." then "." :: named
  else named

/-- Whether two paths have the same components. -/
def same (p q : Path) : Bool := p.components == q.components

/-- The path of `q` seen from the directory `p`. -/
def join (p q : Path) : Path :=
  if q.isAbsolute || p.text == "" then q
  else if p.endsInSlash then ⟨p.text ++ q.text⟩
  else ⟨p.text ++ "/" ++ q.text⟩

/-- The path of the entry `name` of the directory `p`. -/
def child (p : Path) (name : String) : Path := p.join ⟨name⟩

/-- The path of given components. -/
def ofComponents : List String → Path
  | "/" :: rest => ⟨"/" ++ String.intercalate "/" rest⟩
  | parts => ⟨String.intercalate "/" parts⟩

/-- Whether a part of a path that is not its first says where to go. -/
def leads (part : String) : Bool := part != "" && part != "."

/-- The path without its last component and without what leads nowhere before it;
a root has no parent, nor has the empty path. -/
def parent (p : Path) : Option Path :=
  match p.components, splitSlashes p.text with
  | [], _ | ["/"], _ | _, [] => none
  | _, first :: rest =>
    match rest.reverse.dropWhile (!leads ·) with
    | [] => some ⟨""⟩
    | _ :: above =>
      match (above.dropWhile (!leads ·)).reverse with
      | [] => some ⟨if p.isAbsolute then "/" else first⟩
      | kept => some ⟨String.intercalate "/" (first :: kept)⟩

/-- The path and those above it, nearest first, `n` steps up at most. -/
def upwards (n : Nat) (p : Path) : List Path :=
  match n with
  | 0 => [p]
  | n + 1 =>
    match p.parent with
    | none => [p]
    | some q => p :: upwards n q

/-- The path and all those above it, nearest first. -/
def selfAndAbove (p : Path) : List Path := upwards p.components.length p

/-- The last component, unless it leads up or stays. -/
def fileName (p : Path) : Option String :=
  match p.components.getLast? with
  | some name => if name == "/" || name == "." || name == ".." then none else some name
  | none => none

/-- A name cut at its last dot, the dot with neither part; a name whose only dot
comes first is not cut. -/
def splitName (name : String) : String × Option String :=
  let reversed := name.toList.reverse
  let ending := reversed.takeWhile (· != '.')
  match reversed.drop ending.length with
  | _ :: stem@(_ :: _) => (String.ofList stem.reverse, some (String.ofList ending.reverse))
  | _ => (name, none)

/-- The file name without its extension. -/
def fileStem (p : Path) : Option String := p.fileName.map fun n => (splitName n).1

/-- The part of the file name after its last dot. -/
def extension (p : Path) : Option String := p.fileName.bind fun n => (splitName n).2

end Path

end TemplateInventory
