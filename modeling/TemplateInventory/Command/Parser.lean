import TemplateInventory.Command.Basic
/-!
# Reading command lines

A command line is options, a command, and the arguments of the command. An option
is written `--name value` or `--name=value` and given once; a value starts with a
dash only in the second form. After `--` everything is an argument. The first
thing that is wrong decides, as does the first call for help.
-/

namespace TemplateInventory

namespace Command

/-! ## Words -/

/-- Whether a word can stand for a value or an argument: it does not start with a
dash, or is one. -/
def isPlain (word : String) : Bool :=
  match word.toList with
  | '-' :: _ :: _ => false
  | _ => true

/-- Whether a word asks for help. -/
def asksHelp (word : String) : Bool :=
  match word.toList with
  | '-' :: 'h' :: _ => true
  | _ => word == "--help"

/-- The name of an option with the value that is joined to it. -/
def splitOption (word : String) : Option (String × Option String) :=
  match word.toList with
  | '-' :: '-' :: c :: cs =>
    match (c :: cs).span (· != '=') with
    | (name, []) => some (String.ofList name, none)
    | (name, _ :: value) => some (String.ofList name, some (String.ofList value))
  | _ => none

/-! ## Arguments of commands -/

/-- Reads arguments when there may be at most `most` of them. -/
def arguments : (most : Nat) → List String → Except Refusal (List String)
  | _, [] => .ok []
  | most, word :: rest =>
    if word = "--" then if rest.length ≤ most then .ok rest else .error .usage
    else if asksHelp word then .error .help
    else if isPlain word then
      match most with
      | 0 => .error .usage
      | most + 1 => (arguments most rest).map (word :: ·)
    else .error .usage

/-- Reads the arguments of a list command when its inventory or its query may be
there already. -/
def listArguments (inventory query : Option String) : List String → Except Refusal Command
  | [] =>
    match inventory with
    | some i => .ok (.list i query)
    | none => .error .usage
  | word :: rest =>
    if word = "--" then
      match inventory, rest with
      | some i, [] => .ok (.list i query)
      | none, [i] => .ok (.list i query)
      | _, _ => .error .usage
    else if asksHelp word then .error .help
    else
      match splitOption word, query with
      | some ("path", some value), none => listArguments inventory (some value) rest
      | some ("path", none), none =>
        match rest with
        | [] => .error .usage
        | value :: rest =>
          if isPlain value then listArguments inventory (some value) rest else .error .usage
      | some _, _ => .error .usage
      | none, _ =>
        if isPlain word && inventory.isNone then listArguments (some word) query rest
        else .error .usage

/-- The names of the commands. -/
def names : List String := ["get", "list", "layout-types", "check", "help"]

/-- Reads the arguments of a named command. -/
def ofArguments (name : String) (words : List String) : Except Refusal Command :=
  match name with
  | "get" =>
    match arguments words.length words with
    | .error e => .error e
    | .ok (inventory :: element :: values) => .ok (.get inventory element values)
    | .ok _ => .error .usage
  | "list" => listArguments none none words
  | "layout-types" =>
    match arguments 1 words with
    | .error e => .error e
    | .ok [inventory] => .ok (.groupings inventory)
    | .ok _ => .error .usage
  | "check" => (arguments 0 words).map fun _ => .check
  | "help" =>
    match words with
    | [] => .error .help
    | [word] => if word ∈ names then .error .help else .error .usage
    | _ => .error .usage
  | _ => .error .usage

end Command

/-! ## Options -/

namespace Options

/-- The path that an option gives, which is not empty. -/
def readPath (value : String) : Option Path := if value = "" then none else some ⟨value⟩

/-- Sets an option that is not set yet. -/
def set (o : Options) (name value : String) : Except Refusal Options :=
  match name, readPath value with
  | "workspace", some p =>
    if o.workspace.isNone then .ok { o with workspace := some p } else .error .usage
  | "config", some p =>
    if o.settings.isNone then .ok { o with settings := some p } else .error .usage
  | "log-level", _ =>
    if o.logLevel.isNone then .ok { o with logLevel := some value } else .error .usage
  | "log-format", _ =>
    if o.logFormat.isNone then .ok { o with logFormat := some value } else .error .usage
  | "log-output", _ =>
    if o.logOutput.isNone then .ok { o with logOutput := some value } else .error .usage
  | _, _ => .error .usage

/-- Whether there is an option with a value of this name. -/
def takesValue (name : String) : Bool :=
  name ∈ ["workspace", "config", "log-level", "log-format", "log-output"]

/-- Sets the flag that has no value. -/
def setVerbose (o : Options) : Except Refusal Options :=
  if o.verbose then .error .usage else .ok { o with verbose := true }

/-- Sets the option that was read last, if its value stood apart. -/
def settle (o : Options) : Option (String × String) → Except Refusal Options
  | none => .ok o
  | some (name, value) => o.set name value

end Options

namespace Request

/-- Reads a command line when the options `o` are set. The option `waiting` is set
as soon as anything but a command follows it, else after the command is read. -/
def ofWords (o : Options) (waiting : Option (String × String)) :
    List String → Except Refusal Request
  | [] => .error .usage
  | word :: rest =>
    if word ∈ Command.names then do
      let command ← Command.ofArguments word rest
      let options ← o.settle waiting
      return ⟨options, command⟩
    else
      match o.settle waiting with
      | .error e => .error e
      | .ok o =>
        if Command.asksHelp word then .error .help
        else
          match Command.splitOption word with
          | none => .error .usage
          | some ("verbose", none) =>
            match o.setVerbose with
            | .error e => .error e
            | .ok o => ofWords o none rest
          | some (name, some value) =>
            match o.set name value with
            | .error e => .error e
            | .ok o => ofWords o none rest
          | some (name, none) =>
            match rest with
            | [] => .error .usage
            | value :: rest =>
              if Options.takesValue name && Command.isPlain value then
                ofWords o (some (name, value)) rest
              else .error .usage

/-- Reads a command line. -/
def parse (words : List String) : Except Refusal Request := ofWords {} none words

end Request

end TemplateInventory
