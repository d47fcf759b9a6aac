import TemplateInventory.Decimal.Reader
import TemplateInventory.Error
import TemplateInventory.Logging.Pattern.Parser
/-!
# Log directives

A directive says from which level on messages are logged: `info` for all of them,
`module=debug` for those of one module, `module[span{field=value}]=trace` for those
inside a span with a field. A value is a number or a pattern. `checkDirective` tells
whether a text is a directive.

The places of a directive are counted in bytes after its leading white space but
looked up in the whole text, so white space before a level makes it a wrong one.
-/

namespace TemplateInventory.Logging

open TemplateInventory.Text

/-- The names of the levels. -/
def levelNames : List String := ["error", "warn", "info", "debug", "trace", "off"]

/-- A number without sign, or with a plus. -/
def readUnsigned : List Char → Option Nat
  | '+' :: cs => readDigits cs
  | cs => readDigits cs

/-- Whether a text names a level: nothing, a name in any case, or a number up to
five. -/
def isLevel (cs : List Char) : Bool :=
  match readUnsigned cs with
  | some n => n ≤ 5
  | none => cs.isEmpty || String.ofList (cs.map Char.toLower) ∈ levelNames

/-- Whether a directive can start with a character other than a bracket. -/
def startsTarget (c : Char) : Bool := c == '-' || c == ':' || c == '_' || isAlphanumeric c

/-- The characters of a text that start between two places; `here` is the place of
the first one. -/
def between (start stop here : Nat) : List Char → List Char
  | [] => []
  | c :: cs =>
    let rest := between start stop (here + c.utf8Size) cs
    if start ≤ here ∧ here < stop then c :: rest else rest

/-- The characters of a text from a place on. -/
def startingAt (start here : Nat) : List Char → List Char
  | [] => []
  | c :: cs => if start ≤ here then c :: cs else startingAt start (here + c.utf8Size) cs

/-- What is wrong with the value of a field: it has to be a number or a pattern. A
field without a value is fine. -/
def fieldFault (field : List Char) : Option PatternFault :=
  match field.splitOn '=' with
  | _ :: value :: _ => if (Double.read value).isSome then none else patternFault value
  | _ => none

/-- The part of a directive that is being read. -/
inductive Stage where
  | beginning
  | levelOrTarget
  | span
  /-- A field of a span, with its place. -/
  | field (start : Nat)
  | fields
  /-- What follows a span. -/
  | target
  /-- A level, with its place. -/
  | level (start : Nat)
  | complete
  deriving DecidableEq, Repr

namespace Stage

/-- The stage after the field that ends before `place`. -/
def closeField (whole : List Char) (start place : Nat) (next : Stage) :
    Except DirectiveFault Stage :=
  if start = place then .error .form
  else
    match fieldFault (between start place 0 whole) with
    | some cause => .error (.pattern cause)
    | none => .ok next

/-- The stage after the character at a place. All characters that end a part have one
byte. -/
def step (whole : List Char) (place : Nat) (c : Char) : Stage → Except DirectiveFault Stage
  | .beginning =>
    if c = '[' then .ok .span
    else if startsTarget c then .ok .levelOrTarget
    else .error .form
  | .levelOrTarget =>
    if c = '=' then .ok (.level (place + 1))
    else if c = '[' then .ok .span
    else if c = ',' then .ok .complete
    else .ok .levelOrTarget
  | .span =>
    if c = ']' then .ok .target
    else if c = '\x7b' then .ok (.field (place + 1))
    else .ok .span
  | .field start =>
    if c = '\x7d' then closeField whole start place .fields
    else if c = ',' then closeField whole start place (.field (place + 1))
    else .ok (.field start)
  | .fields => if c = ']' then .ok .target else .error .form
  | .target => if c = '=' then .ok (.level (place + 1)) else .error .form
  | .level start =>
    if c = ',' then
      if isLevel (between start place 0 whole) then .ok .complete else .error .level
    else .ok (.level start)
  | .complete => .error .form

/-- Whether a directive can end at a stage. -/
def finish (whole : List Char) : Stage → Except DirectiveFault Unit
  | .levelOrTarget | .target | .complete => .ok ()
  | .level start => if isLevel (startingAt start 0 whole) then .ok () else .error .level
  | .beginning | .span | .field _ | .fields => .error .form

/-- Reads the rest of a directive from a place on. -/
def run (whole : List Char) (place : Nat) (stage : Stage) : List Char → Except DirectiveFault Unit
  | [] => stage.finish whole
  | c :: cs =>
    match stage.step whole place c with
    | .error e => .error e
    | .ok next => run whole (place + c.utf8Size) next cs

end Stage

/-- Whether a text is a directive. -/
def checkDirective (s : String) : Except DirectiveFault Unit :=
  Stage.run s.toList 0 .beginning (trimWhere isBlank s.toList)

/-- Whether a text is a list of directives with commas between them; empty ones are
passed over. -/
def isFilter (s : String) : Bool :=
  ((s.toList.splitOn ',').filter (!·.isEmpty)).all fun cs =>
    match checkDirective (String.ofList cs) with
    | .ok () => true
    | .error _ => false

end TemplateInventory.Logging
