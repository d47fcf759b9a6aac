import TemplateInventory.FilePattern
import TemplateInventory.Holdings.Add
import TemplateInventory.Merger
import TemplateInventory.Query.Parser
import TemplateInventory.Selection
import TemplateInventory.Suffix
import TemplateInventory.Unify.Memo
/-!
# Inventories

An inventory collects the elements of many files. `Inventory` holds how its
files are found and read, and what is loaded. The operations of this module
answer from what is loaded; each gives the inventory as it is afterwards, since
lookups resolve and remember.
-/

namespace TemplateInventory

/-- The names by which grouping elements and tagged layouts are known. -/
structure Conventions where
  groupingElement : String := "layoutType"
  /-- The attribute that tells grouping elements apart. -/
  groupingAttr : String := "layout"
  /-- The attribute of a grouping element that names files of named views. -/
  labelAttr : String := "label"
  /-- The attribute of a grouping element's first child that names its class. -/
  classAttr : String := "class"
  taggedElement : String := "layout"
  /-- The type that a tagged layout has. -/
  taggedType : String := "jtview"
  /-- The attribute that marks a layout as tagged. -/
  tagFlag : String := "tagForWs"
  /-- The attribute that copies of a tagged layout differ in. -/
  nameAttr : String := "name"
  deriving DecidableEq, Repr

/-- How the files of a directory are loaded. -/
inductive SourceKind where
  | shipped
  /-- Files that users saved. -/
  | userOverrides
  deriving DecidableEq, Repr

/-- A directory of an inventory. -/
structure Source where
  path : Path
  kind : SourceKind
  deriving DecidableEq, Repr

/-- A set of elements with how its files are found and read. -/
structure Inventory where
  selection : Selection
  pattern : FilePattern
  conventions : Conventions
  /-- The directories by the components of their paths, in loading order. -/
  sources : Table (List String) Source
  userDirectory : Option Path
  scope : Option String
  version : Int
  merger : Option Merger
  suffixRule : SuffixRule
  holdings : Holdings
  memo : UnifyMemo
  /-- The files that were read, with the times they had. -/
  stamps : List FileStamp
  /-- The tagged layouts that were read. -/
  tagged : List Handle
  /-- How many outdated elements were merged. -/
  merges : Nat

namespace Inventory

/-- Adds a directory; one that is there keeps its place and changes its kind. -/
def addSource (sources : Table (List String) Source) (directory : Path) (kind : SourceKind) :
    Table (List String) Source :=
  match sources.get? directory.components with
  | some source => sources.put directory.components { source with kind := kind }
  | none => sources.put directory.components ⟨directory, kind⟩

/-- An inventory over directories, before anything is loaded. The selection is
checked before the file pattern. -/
def make (directories : List Path) (pattern selection : String) (schema : KeySchema)
    (version : Int) : Except InventoryError Inventory :=
  match Selection.parse selection with
  | none => .error (.selectionPath selection)
  | some s =>
    match FilePattern.parse pattern with
    | .error e => .error (.filePattern pattern e)
    | .ok p =>
      .ok
        { selection := s
          pattern := p
          conventions := {}
          sources := directories.foldl (fun t d => addSource t d .shipped) .empty
          userDirectory := none
          scope := none
          version := version
          merger := none
          suffixRule := .usual
          holdings := .empty schema
          memo := .empty
          stamps := []
          tagged := []
          merges := 0 }

/-- The key attributes of each name. -/
def schema (i : Inventory) : KeySchema := i.holdings.schema

/-- The directories in loading order. -/
def directories (i : Inventory) : List Path := i.sources.entries.map (·.2.path)

/-- The elements that are served, in order. -/
def elements (i : Inventory) : List Element := i.holdings.main.elements

/-- The same without anything that was loaded. -/
def clear (i : Inventory) : Inventory :=
  { i with holdings := i.holdings.clear, memo := .empty, stamps := [], tagged := [] }

/-- What an inventory is, in one line. -/
def summary (i : Inventory) : String :=
  "Inventory \x7b selection: " ++ Text.quoted i.selection.text ++
    ", pattern: " ++ Text.quoted i.pattern.text ++
    ", scope: " ++ Text.quotedOption i.scope ++
    ", version: " ++ toString i.version ++
    ", main: " ++ toString i.holdings.main.size ++
    ", alterations: " ++ toString i.holdings.alterations.size ++
    ", bases: " ++ toString i.holdings.bases.size ++
    ", has_merger: " ++ toString i.merger.isSome ++ " \x7d"

/-! ## Lookups -/

/-- Runs an operation on the holdings. -/
def onHoldings {α : Type} (i : Inventory) (f : Holdings → α × Holdings) : α × Inventory :=
  let (result, h) := f i.holdings
  (result, { i with holdings := h })

/-- The handle of a new element. -/
def mint (i : Inventory) (e : Element) : Handle × Inventory := i.onHoldings (·.mint e)

/-- The element that is served for a name and key values. -/
def getElement (i : Inventory) (name : String) (values : List (Option String)) :
    Option Handle × Inventory :=
  i.onHoldings (·.getElement name values)

/-- The derived element of a name and key values as it was added. -/
def getAlteration (i : Inventory) (name : String) (values : List (Option String)) :
    Option Handle × Inventory :=
  i.onHoldings (·.getAlteration name values)

/-- What the derived element of a name and key values is based on. -/
def getBase (i : Inventory) (name : String) (values : List (Option String)) :
    Option Handle × Inventory :=
  i.onHoldings (·.getBase name values)

/-- The elements that a query selects. -/
def query (i : Inventory) (path : String) : Except InventoryError (List Element) :=
  match Query.parse path with
  | .error e => .error (.settings (.query path e))
  | .ok q => .ok (q.select i.elements)

/-- The elements of a name whose first key values are the given ones. -/
def matching (i : Inventory) (name : String) (values : List (Option String)) : List Element :=
  (i.holdings.main.allOf (.ofKey name (i.schema.attrsFor name) values)).map Handle.element

/-- The grouping elements. -/
def groupings (i : Inventory) : List Handle :=
  i.holdings.main.named i.conventions.groupingElement

/-- The element of `base` with the children of its unification with an
alteration. -/
def unified (i : Inventory) (base alteration : Handle) : Handle × Inventory :=
  let (result, memo) := i.memo.unifyInto i.schema i.holdings.nextSerial base alteration
  (result,
    { i with
      memo := memo
      holdings := { i.holdings with nextSerial := i.holdings.nextSerial + 1 } })

/-! ## Adding -/

/-- Adds an element. -/
def add (i : Inventory) (node : Handle) : Except InventoryError Unit × Inventory :=
  i.onHoldings (·.add node)

/-- Adds a grouping element; it takes the place of the one with its value of the
grouping attribute. -/
def addGrouping (i : Inventory) (node : Handle) : Except InventoryError Unit × Inventory :=
  match node.element.requiredAttr i.conventions.groupingAttr with
  | .error e => (.error e, i)
  | .ok value =>
    let extant := i.groupings.find? (·.element.attr i.conventions.groupingAttr == some value)
    (.ok (),
      { i with holdings := { i.holdings with main := i.holdings.main.replace extant node } })

/-- Adds an element as what its name says that it is. -/
def addAny (i : Inventory) (node : Handle) : Except InventoryError Unit × Inventory :=
  if node.element.name = i.conventions.groupingElement then i.addGrouping node else i.add node

/-- Whether a layout is tagged. -/
def isTagged (i : Inventory) (e : Element) : Bool :=
  e.name == i.conventions.taggedElement && e.attr "type" == some i.conventions.taggedType &&
    e.boolAttr i.conventions.tagFlag false

/-- Notes a tagged layout. -/
def noteTagged (i : Inventory) (node : Handle) : Inventory :=
  if i.isTagged node.element then { i with tagged := i.tagged ++ [node] } else i

/-- Adds elements that were read, one after the other, up to the first that
cannot be added. -/
def addRead (i : Inventory) : List Handle → Except InventoryError Unit × Inventory
  | [] => (.ok (), i)
  | node :: nodes =>
    match (i.noteTagged node).addAny node with
    | (.error e, i) => (.error e, i)
    | (.ok (), i) => i.addRead nodes

end Inventory

end TemplateInventory
