import TemplateInventory.Element
import TemplateInventory.Xml.Event
/-!
# Documents

A document is the element that the events of a text build: exactly one, closed
before the text ends. `Building` holds what is built so far; each event is one
step, and `Building.finish` looks at what is left at the end.
-/

namespace TemplateInventory.Xml

/-- The elements that are open, innermost first, and the document's element once
it is closed. -/
structure Building where
  opened : List Element
  root : Option Element

namespace Building

/-- Nothing is built yet. -/
def start : Building := ⟨[], none⟩

/-- Adds a closed element to the innermost open one, or as the document's. -/
def attach (b : Building) (e : Element) : Except Fault Building :=
  match b.opened with
  | parent :: rest => .ok { b with opened := parent.push e :: rest }
  | [] =>
    match b.root with
    | none => .ok { b with root := some e }
    | some _ => .error (.secondRoot e.name)

/-- Adds a piece of text to the innermost open element; outside of elements it
does not count. -/
def addText (b : Building) (piece : String) : Building :=
  match b.opened with
  | [] => b
  | e :: rest => { b with opened := { e with text := some (e.text.getD "" ++ piece) } :: rest }

/-- What one event does. -/
def step (b : Building) : Event → Except Fault Building
  | .opening name attributes => .ok { b with opened := ⟨name, attributes, [], none⟩ :: b.opened }
  | .empty name attributes => b.attach ⟨name, attributes, [], none⟩
  | .closing =>
    match b.opened with
    | [] => .error (.reported "unbalanced end tag")
    | e :: rest => attach { b with opened := rest } e
  | .text value => .ok (b.addText value)
  | .aside => .ok b

/-- What a list of events does. -/
def steps (b : Building) : List Event → Except Fault Building
  | [] => .ok b
  | e :: es =>
    match b.step e with
    | .error f => .error f
    | .ok b' => b'.steps es

/-- The document that is built once the events have ended. -/
def finish (b : Building) : Except Fault Element :=
  match b.opened with
  | e :: _ => .error (.openElement e.name)
  | [] =>
    match b.root with
    | some root => .ok root
    | none => .error .noRoot

end Building

/-- The document of a list of events; a fault that ends the list counts after
the faults of the events themselves. -/
def build (es : Events) : Except Fault Element :=
  match Building.start.steps es.1 with
  | .error e => .error e
  | .ok b =>
    match es.2 with
    | some e => .error e
    | none => b.finish

/-- Reads a document. -/
def parse (s : String) : Except Fault Element := build (events s)

end TemplateInventory.Xml
