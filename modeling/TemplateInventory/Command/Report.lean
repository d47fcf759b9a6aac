import TemplateInventory.Registry
import TemplateInventory.Text.Blank
import TemplateInventory.Text.Lines
import TemplateInventory.Xml.Printer
/-!
# Reports

What commands print: elements as documents without a declaration, elements as
rows of their key values, and the sizes of inventories. A value that is missing is
shown as `~`, and read as missing when it is given that way.
-/

namespace TemplateInventory

open TemplateInventory.Text

/-! ## Key values -/

/-- The sign for a missing value. -/
def absentSign : String := "~"

/-- The key value that a word gives. -/
def keyValueOf (word : String) : Option String := if word = absentSign then none else some word

/-- The word for a key value. -/
def wordOf (value : Option String) : String := value.getD absentSign

/-! ## Elements -/

/-- Whether a line is that of a declaration. -/
def isDeclaration (line : String) : Bool := "<?xml".toList.isPrefixOf line.toList

/-- An element as a document without its declaration. -/
def Element.report (e : Element) : String :=
  String.intercalate "\n" ((lines (Xml.printDocument e)).dropWhile isDeclaration)

/-- The name and the key values of an element, with tabs between them. -/
def KeySchema.row (s : KeySchema) (e : Element) : String :=
  e.name ++ "\t" ++ String.intercalate "\t" ((s.valuesOf e).map wordOf)

/-- A text of lines, without white space at its end. -/
def joinLines (rows : List String) : String :=
  trimEnd (String.join (rows.map (· ++ "\n")))

/-- The rows of elements. -/
def Inventory.listing (i : Inventory) (elements : List Element) : String :=
  joinLines (elements.map i.schema.row)

/-- The grouping elements, one after the other. -/
def Inventory.groupingReport (i : Inventory) : String :=
  String.intercalate "\n" (i.groupings.map (·.element.report))

/-! ## Registries -/

/-- A key taken apart at its first `$`. -/
def splitKey (key : String) : String × Option String :=
  match key.toList.span (· != '$') with
  | (_, []) => (key, none)
  | (name, _ :: scope) => (String.ofList name, some (String.ofList scope))

/-- How much an inventory holds. -/
def Inventory.sizes (i : Inventory) : String :=
  toString i.elements.length ++ " elements from " ++ toString i.stamps.length ++ " files"

/-- How much each inventory holds that is found under the parts of its key. -/
def Registry.report (r : Registry) : String :=
  joinLines (r.keys.filterMap fun key =>
    let (name, scope) := splitKey key
    (r.get? name scope).map fun i => key ++ ": " ++ i.sizes)

end TemplateInventory
