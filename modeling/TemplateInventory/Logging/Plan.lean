import TemplateInventory.FileTree
import TemplateInventory.Logging.Directive
import TemplateInventory.Settings.Basic
/-!
# Logging plans

What logging settings come to once the variables of the environment are taken
into account: a plan says how messages are written and where. `Plan.make` checks
the levels first, then the format, the output, and the file that is written to.
-/

namespace TemplateInventory.Logging

open TemplateInventory.Text

/-- How a message is written. -/
inductive Format where
  | json
  | text
  deriving DecidableEq, Repr

/-- Where messages go. -/
inductive Output where
  | stdout
  | stderr
  | file
  deriving DecidableEq, Repr

/-- How messages are written and where. -/
structure Plan where
  format : Format
  output : Output
  deriving DecidableEq, Repr

/-- The format of a name. -/
def Format.ofName? : String → Option Format
  | "json" => some .json
  | "text" => some .text
  | _ => none

/-- The output of a name. -/
def Output.ofName? : String → Option Output
  | "stdout" => some .stdout
  | "stderr" => some .stderr
  | "file" => some .file
  | _ => none

/-! ## Levels of modules -/

/-- The directive of a module and its level, if both are there. -/
def directiveOf (module level : List Char) : Option String :=
  let module := trimWhere isBlank module
  let level := trimWhere isBlank level
  if module.isEmpty || level.isEmpty then none
  else some (String.ofList (module ++ '=' :: level))

/-- The directive that an entry `module=level` makes; other entries make none. -/
def directiveOfEntry (entry : List Char) : Option String :=
  match entry.span (· != '=') with
  | (_, []) => none
  | (module, _ :: level) => directiveOf module level

/-- The directives of a list of entries with commas between them. -/
def directivesOfEntries (s : String) : List String :=
  (s.toList.splitOn ',').filterMap directiveOfEntry

/-- The directives for single modules, those of the settings first. -/
def moduleDirectives (s : LoggingSettings) (env : Environment) : List String :=
  s.modules.entries.map (fun (module, level) => module ++ "=" ++ level) ++
    ((env.get? "STRATA_LOG_MODULES").map directivesOfEntries).getD []

/-- Checks directives up to the first that is none. -/
def checkDirectives : List String → Except InventoryError Unit
  | [] => .ok ()
  | d :: ds =>
    match checkDirective d with
    | .error e => .error (.settings (.logDirective d e))
    | .ok () => checkDirectives ds

/-- Whether the environment has a filter that replaces all levels. -/
def hasFilter (env : Environment) : Bool :=
  match env.get? "STRATA_LOG" with
  | some s => isFilter s
  | none => false

/-- Checks the levels. Those of modules do not matter if the environment has a
filter, or if nothing is logged. -/
def checkLevels (s : LoggingSettings) (env : Environment) : Except InventoryError Unit :=
  if hasFilter env || s.level == "off" then .ok () else checkDirectives (moduleDirectives s env)

/-! ## Plans -/

/-- The format: that of the environment if it names one, else that of the settings. -/
def chooseFormat (s : LoggingSettings) (env : Environment) : Except InventoryError Format :=
  match (env.get? "STRATA_LOG_FORMAT").bind Format.ofName?, Format.ofName? s.format with
  | some f, _ => .ok f
  | none, some f => .ok f
  | none, none => .error (.settings (.logFormat s.format))

/-- The output: what the environment says, else what the settings say. -/
def chooseOutput (s : LoggingSettings) (env : Environment) : Except InventoryError Output :=
  let name := (env.get? "STRATA_LOG_OUTPUT").getD s.output
  match Output.ofName? name with
  | some o => .ok o
  | none => .error (.settings (.logOutput name))

/-- Makes the directories on the way to a log file. -/
def makeParents (files : FileTree) (p : Path) : Except FileError Unit × FileTree :=
  files.makeDirectories (p.parent.getD ⟨""⟩)

/-- Opens a log file, which is made if it is not there. -/
def openFile (p : Path) (files : FileTree) : Except InventoryError Unit × FileTree :=
  match makeParents files p with
  | (.error e, files) => (.error (.file e), files)
  | (.ok _, files) =>
    let (opened, files) := files.attempt (·.openToAppend p)
    (opened.mapError fun e => .settings (.logFile p e), files)

/-- The plan that settings and variables make, before any file is opened. -/
def Plan.choose (s : LoggingSettings) (env : Environment) : Except InventoryError Plan := do
  checkLevels s env
  let format ← chooseFormat s env
  let output ← chooseOutput s env
  return ⟨format, output⟩

/-- The plan that settings and variables make, with the log file opened if there
is one. -/
def Plan.make (s : LoggingSettings) (env : Environment) (files : FileTree) :
    Except InventoryError Plan × FileTree :=
  match Plan.choose s env with
  | .error e => (.error e, files)
  | .ok plan =>
    if plan.output = .file then
      let (opened, files) := openFile s.file files
      (opened.map fun _ => plan, files)
    else (.ok plan, files)

end TemplateInventory.Logging
