import TemplateInventory.Element
import TemplateInventory.Xml.Escape
/-!
# Printed elements

An element is written in one of two forms. The compact form has no white space
between tags and tells elements apart. The document form starts with a
declaration and puts each tag on a line of its own, two spaces further in for
each level, except that the tag after a text stays on the line of the text.

Elements are written from the last one to the first, each in front of what follows
it.
-/

namespace TemplateInventory.Xml

/-- One attribute with the space before it. -/
def printAttribute (e : String × String) : List Char :=
  ' ' :: e.1.toList ++ '=' :: '\x22' :: escape e.2.toList ++ ['\x22']

/-- The start of the tag that opens an element. -/
def printOpening (name : String) (attributes : Table String String) : List Char :=
  '<' :: name.toList ++ attributes.entries.flatMap printAttribute

/-- The tag that closes an element. -/
def printClosing (name : String) : List Char := '<' :: '/' :: name.toList ++ ['>']

/-- The text of an element; a missing one is written like an empty one. -/
def printText (text : Option String) : List Char := escape (text.getD "").toList

/-- Whether an element is written as one tag. -/
def isBare (children : List Element) (text : Option String) : Bool :=
  children.isEmpty && text.isNone

mutual

/-- The compact form of an element, and after it `rest`. -/
def compactThen (rest : List Char) : Element → List Char
  | ⟨name, attributes, children, text⟩ =>
    if isBare children text then printOpening name attributes ++ '/' :: '>' :: rest
    else
      printOpening name attributes ++ '>' :: printText text ++
        compactAllThen (printClosing name ++ rest) children

/-- The compact forms of elements, one after the other, and after them `rest`. -/
def compactAllThen (rest : List Char) : List Element → List Char
  | [] => rest
  | e :: es => compactThen (compactAllThen rest es) e

end

/-- The compact form of an element. -/
def compact (e : Element) : List Char := compactThen [] e

/-- A line end and the indentation of a level. -/
def newLine (depth : Nat) : List Char := '\n' :: List.replicate (2 * depth) ' '

mutual

/-- The document form of an element at a level, from its `<` to its last `>`, and
after it `rest`. -/
def prettyThen (depth : Nat) (rest : List Char) : Element → List Char
  | ⟨name, attributes, children, text⟩ =>
    if isBare children text then printOpening name attributes ++ '/' :: '>' :: rest
    else
      printOpening name attributes ++ '>' :: printText text ++
        prettyAllThen (depth + 1) text.isNone
          ((if children.isEmpty then [] else newLine depth) ++ printClosing name ++ rest) children

/-- The document forms of elements at a level, and after them `rest`. Each starts a
line; the first does so only if `fresh`. -/
def prettyAllThen (depth : Nat) (fresh : Bool) (rest : List Char) : List Element → List Char
  | [] => rest
  | e :: es =>
    (if fresh then newLine depth else []) ++
      prettyThen depth (prettyAllThen depth true rest es) e

end

/-- The first line of a document. -/
def declaration : String := "<?xml version=\"1.0\" encoding=\"utf-8\"?>"

/-- The compact form as a text. -/
def printCompact (e : Element) : String := String.ofList (compact e)

/-- The document of an element. -/
def printDocument (e : Element) : String :=
  String.ofList (declaration.toList ++ newLine 0 ++ prettyThen 0 [] e)

end TemplateInventory.Xml
