import TemplateInventory.Command.Run
import TemplateInventory.Logging.Plan
/-!
# The program

Takes a picture of the files that a request can need, carries the request out on
it, writes back what has changed, and prints the answer.
-/

namespace TemplateInventory.Program

/-- How commands are written. -/
def usage : String :=
  "Usage: strata [OPTIONS] <COMMAND>\n\n" ++
    "Commands:\n" ++
    "  get <INVENTORY> <ELEMENT> [VALUES]...  Print the resolved element for a key\n" ++
    "  list <INVENTORY> [--path <PATH>]       List resolved elements\n" ++
    "  layout-types <INVENTORY>               List grouping elements\n" ++
    "  check                                  Load every inventory\n" ++
    "  help [COMMAND]                         Print this message\n\n" ++
    "Options:\n" ++
    "  --workspace <WORKSPACE>    Workspace root directory\n" ++
    "  --config <CONFIG>          Configuration file path\n" ++
    "  --verbose                  Enable debug logging\n" ++
    "  --log-level <LOG_LEVEL>    Log level\n" ++
    "  --log-format <LOG_FORMAT>  Log format (json, text)\n" ++
    "  --log-output <LOG_OUTPUT>  Log output (stdout, stderr, file)"

/-! ## Environment -/

/-- The variables in a block of texts with a zero after each. -/
def variablesOf (block : ByteArray) : List (String × String) :=
  ((Text.Utf8.decodeLossy block).toList.splitOn '\x00').filterMap fun entry =>
    match entry.span (· != '=') with
    | (_, []) => none
    | (name, _ :: value) => some (String.ofList name, String.ofList value)

/-- What the program was started with. -/
def environment : IO Environment := do
  let block ← try IO.FS.readBinFile "/proc/self/environ" catch _ => pure .empty
  return ⟨.ofList (variablesOf block), none⟩

/-! ## Pictures of the files -/

/-- Adds one file to a picture. -/
def addFile (files : FileTree) (p : Path) : IO FileTree := do
  let place := (← IO.currentDir) / p.text
  let modified := (← place.metadata).modified
  let bytes ← IO.FS.readBinFile place
  return (files.placeFile p bytes (modified.sec * 1000000000 + modified.nsec.toNat)).2

/-- Adds a directory with the files directly inside it to a picture. -/
def addDirectory (files : FileTree) (p : Path) : IO FileTree := do
  let place := (← IO.currentDir) / p.text
  if !(← place.isDir) then return files
  let mut files := (files.makeDirectories p).2
  for entry in ← place.readDir do
    let inside := p.child entry.fileName
    if ← entry.path.isDir then files := (files.makeDirectories inside).2
    else files := ← try addFile files inside catch _ => pure files
  return files

/-- Adds several directories to a picture. -/
def addDirectories (files : FileTree) (ps : List Path) : IO FileTree := ps.foldlM addDirectory files

/-- The directories of settings files. -/
def settingsDirectories (env : Environment) (o : Options) : List Path :=
  (o.settings.toList ++ Settings.layerFiles env o.root).filterMap fun p =>
    p.parent.map fun d => if d.text = "" then ⟨"."⟩ else d

/-- The directories of all inventories. -/
def inventoryDirectories (c : CommandSession) : List Path :=
  c.settings.inventories.entries.flatMap fun (name, i) =>
    i.directoriesFrom c.root ++ (c.settings.userDirectory c.environment c.root name).toList

/-- Writes back what is in a picture but not in the earlier one. -/
def writeBack (earlier files : FileTree) : IO Unit := do
  for (place, entry) in files.entries.entries do
    let target := (← IO.currentDir) / ("/" ++ String.intercalate "/" place)
    match entry, earlier.entries.get? place with
    | .directory, none => IO.FS.createDirAll target
    | .file bytes (.written _), _ => IO.FS.writeBinFile target bytes
    | _, _ => pure ()

/-! ## Requests -/

/-- Prints why the program stops. -/
def fail (message : String) : IO UInt32 := do
  IO.eprintln message
  return 1

/-- Opens the log; gives the text of what prevents it. -/
def openLog (files : FileTree) (env : Environment) (o : Options) : IO (Option String) := do
  let s := o.logging files env
  let files ← addDirectories files s.file.parent.toList
  match Logging.Plan.make s env files with
  | (.error e, _) => return some e.message
  | (.ok _, after) =>
    writeBack files after
    return none

/-- Carries out a request. -/
def carryOut (q : Request) : IO UInt32 := do
  let env ← environment
  let here := Path.splitSlashes (← IO.currentDir).toString
  let files ← addDirectories (.ofWorkDir (here.filter (· != ""))) (settingsDirectories env q.options)
  let files ← addDirectory files q.options.root
  if let some message ← openLog files env q.options then
    return ← fail ("Failed to initialize logging: " ++ message)
  match CommandSession.start files env q.options with
  | .error e => fail ("Error: " ++ e.message)
  | .ok c =>
    let files ← addDirectories files (inventoryDirectories c)
    match c.run files q.command with
    | (.error e, after) =>
      writeBack files after
      fail ("Error: " ++ e.message)
    | (.ok out, after) =>
      writeBack files after
      if out != "" then IO.println out
      return 0

end TemplateInventory.Program

/-- Reads the command line and carries it out. -/
def main (words : List String) : IO UInt32 := do
  match TemplateInventory.Request.parse words with
  | .error .help =>
    IO.println TemplateInventory.Program.usage
    return 0
  | .error .usage =>
    IO.eprintln TemplateInventory.Program.usage
    return 2
  | .ok q => TemplateInventory.Program.carryOut q
