import TemplateInventory.Command.Parser
import TemplateInventory.Command.Report
import TemplateInventory.Settings.Layers
/-!
# Carrying out commands

A command is carried out in a session: the root of the workspace and its settings.
Every command checks the settings and loads all inventories first; then it prints
what it finds. The files come back as loading leaves them.
-/

namespace TemplateInventory

/-- A workspace with its settings. -/
structure CommandSession where
  root : Path
  settings : Settings
  environment : Environment

namespace CommandSession

/-- The session that options describe. -/
def start (files : FileTree) (env : Environment) (o : Options) :
    Except CommandError CommandSession :=
  let root := match files.canonical o.root with
    | .ok p => p
    | .error _ => o.root
  match o.settings with
  | some p =>
    match Settings.loadFile files p with
    | .ok s => .ok ⟨root, s, env⟩
    | .error e => .error (.loading p.text e)
  | none =>
    match Settings.load files env root with
    | .ok s => .ok ⟨root, s, env⟩
    | .error e => .error (.loading ("config for " ++ root.text) e)

/-- Checks the settings and loads all inventories. -/
def registry (c : CommandSession) (files : FileTree) :
    Except CommandError Registry × FileTree :=
  match c.settings.problemTexts with
  | [] =>
    let (r, files) := Registry.ofSettings c.settings c.environment c.root files
    (r.mapError .inventory, files)
  | texts => (.error (.problems texts), files)

/-- A named inventory of the project's scope. -/
def inventoryIn (c : CommandSession) (r : Registry) (name : String) :
    Except CommandError Inventory :=
  (r.get name c.settings.project.scope).mapError .inventory

/-- What a command prints once all inventories are loaded. -/
def answer (c : CommandSession) (r : Registry) : Command → Except CommandError String
  | .get inventory element words => do
    let i ← c.inventoryIn r inventory
    let values := words.map keyValueOf
    match (i.getElement element values).1 with
    | some found => .ok found.element.report
    | none => .error (.noElement element values)
  | .list inventory none => do
    let i ← c.inventoryIn r inventory
    return i.listing i.elements
  | .list inventory (some query) => do
    let i ← c.inventoryIn r inventory
    let found ← (i.query query).mapError .inventory
    return i.listing found
  | .groupings inventory => do
    let i ← c.inventoryIn r inventory
    return i.groupingReport
  | .check => .ok r.report

/-- Carries out a command. -/
def run (c : CommandSession) (files : FileTree) (command : Command) :
    Except CommandError String × FileTree :=
  match c.registry files with
  | (.error e, files) => (.error e, files)
  | (.ok r, files) => (c.answer r command, files)

end CommandSession

/-- Carries out a request: what it prints, and the files afterwards. -/
def Request.run (q : Request) (files : FileTree) (env : Environment) :
    Except CommandError String × FileTree :=
  match CommandSession.start files env q.options with
  | .error e => (.error e, files)
  | .ok c => c.run files q.command

/-- The settings of logging that a request is carried out with: those of the
workspace, or the usual ones if they cannot be loaded, changed by the options. -/
def Options.logging (o : Options) (files : FileTree) (env : Environment) : LoggingSettings :=
  let loaded := match o.settings with
    | some p => Settings.loadFile files p
    | none => Settings.load files env o.root
  let s : LoggingSettings := match loaded with
    | .ok s => s.logging
    | .error _ => {}
  { s with
    level := o.logLevel.getD (if o.verbose then "debug" else s.level)
    format := o.logFormat.getD s.format
    output := o.logOutput.getD s.output }

end TemplateInventory
