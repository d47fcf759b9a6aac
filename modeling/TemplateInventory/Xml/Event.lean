import TemplateInventory.Xml.Attributes
import TemplateInventory.Xml.Markup
/-!
# Events of a document

A text read from left to right gives a list of events: elements that open and
close, and pieces of text. The list ends at the end of the text or at the first
fault, which is then given beside it. White space at the ends of a piece of text
does not count, nor does a piece of white space alone.
-/

namespace TemplateInventory.Xml

open TemplateInventory.Text

/-- One thing that happens while a document is read. -/
inductive Event where
  | opening (name : String) (attributes : Table String String)
  /-- An element without content. -/
  | empty (name : String) (attributes : Table String String)
  | closing
  /-- A piece of text, or a data section. -/
  | text (value : String)
  /-- Something that leaves no trace in the document. -/
  | aside
  deriving DecidableEq

/-- The events of a text and the fault that ends them, if one does. -/
abbrev Events := List Event × Option Fault

/-- The event of a start tag, and the names of the open elements after it. -/
def openEvent (opened : List (List Char)) (content : List Char) :
    Except Fault (Event × List (List Char)) :=
  let bare := content.getLast? == some '/'
  let inner := if bare then content.dropLast else content
  let name := tagName inner
  match tagAttributes inner with
  | .error e => .error e
  | .ok attributes =>
    if bare then .ok (.empty (String.ofList name) attributes, opened)
    else .ok (.opening (String.ofList name) attributes, name :: opened)

/-- The name of an end tag: white space after it does not count. -/
def closingName (content : List Char) : List Char :=
  if content.all isMarkupBlank then content else dropEndWhile isMarkupBlank content

/-- The event of an end tag whose `<` is at `pos`, and the names of the open
elements after it. -/
def closeEvent (pos : Nat) (opened : List (List Char)) (content : List Char) :
    Except Fault (Event × List (List Char)) :=
  let name := closingName content
  match opened with
  | [] => .error (.strayEnd pos (String.ofList name))
  | expected :: rest =>
    if name = expected then .ok (.closing, rest)
    else .error (.otherEnd pos (String.ofList expected) (String.ofList name))

/-- The event of a piece of markup whose `<` is at `pos`, and the names of the
open elements after it. -/
def markupEvent (pos : Nat) (opened : List (List Char)) :
    Markup → Except Fault (Event × List (List Char))
  | .opening content => openEvent opened content
  | .closing content => closeEvent pos opened content
  | .data content => .ok (.text (String.ofList content), opened)
  | .aside => .ok (.aside, opened)

/-- The events of a piece of text, which starts with a visible character or is
empty. -/
def textEvents (piece : List Char) : Except Fault (List Event) :=
  if piece.isEmpty then .ok []
  else (unescape (dropEndWhile isMarkupBlank piece)).map fun v => [.text (String.ofList v)]

/-- The events from the place `pos` on, with the names of the open elements,
innermost first. -/
def eventsFrom (opened : List (List Char)) (pos : Nat) (cs : List Char) : Events :=
  let blank := cs.takeWhile isMarkupBlank
  let visible := cs.dropWhile isMarkupBlank
  let piece := visible.takeWhile (· != '<')
  match textEvents piece with
  | .error e => ([], some e)
  | .ok texts =>
    match _h : visible.dropWhile (· != '<') with
    | [] => (texts, none)
    | _ :: after =>
      let at' := pos + byteLength blank + byteLength piece
      match _h' : Markup.read at' after with
      | .error e => (texts, some e)
      | .ok (m, taken, rest) =>
        match markupEvent at' opened m with
        | .error e => (texts, some e)
        | .ok (event, opened') =>
          let later := eventsFrom opened' (at' + 1 + taken) rest
          (texts ++ event :: later.1, later.2)
termination_by cs.length
decreasing_by
  have l₁ := Markup.read_shorter _h'
  have l₂ := length_dropWhile_le (· != '<') (cs.dropWhile isMarkupBlank)
  have l₃ := length_dropWhile_le isMarkupBlank cs
  simp only [visible] at _h
  simp only [_h, List.length_cons] at l₂
  omega

/-- The characters without a byte order mark at their start. -/
def dropMark : List Char → List Char
  | '\ufeff' :: cs => cs
  | cs => cs

/-- The events of a text. -/
def events (s : String) : Events := eventsFrom [] 0 (dropMark s.toList)

end TemplateInventory.Xml
