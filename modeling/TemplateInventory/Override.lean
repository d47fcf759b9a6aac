import TemplateInventory.Error
import TemplateInventory.Handle
/-!
# Overrides from display paths

A display path leads from a layout over the parts that invoke further layouts to
the part that a user edits. The override is a copy of the layout that follows the
last sublayout of the path, or of the first one, with the referenced parts of
the path nested in each other. A part that is there already is used again; a
part that is shown inside an indent comes inside one.

`Override.ofPath` makes the override. What it takes over from the layout and the
indents stays what it was, and only the nodes on the way to the edited part are
new, `Override.handle`.
-/

namespace TemplateInventory

/-- A node of a display path, with the element that holds it where it is shown. -/
structure PathNode where
  node : Handle
  holder : Option Handle

/-- What a node of a display path asks for: a part with a reference, inside of an
indent or not. -/
structure PartStep where
  ref : String
  param : Option String
  indent : Option Handle

namespace PartStep

/-- The reference of parts that are told apart by their parameter. -/
def customRef : String := "Custom"

/-- What a path node asks for, if it is a part with a reference. -/
def ofNode (n : PathNode) : Option PartStep :=
  if n.node.element.name = "part" then
    (n.node.element.attr "ref").map fun ref =>
      ⟨ref, n.node.element.attr "param", n.holder.filter (·.element.name = "indent")⟩
  else none

/-- Whether an element is the part that is asked for. -/
def isFor (s : PartStep) (e : Element) : Bool :=
  e.attr "ref" == some s.ref && (s.ref != customRef || e.attr "param" == s.param)

/-- A new part that is asked for. -/
def newPart (s : PartStep) : Element :=
  let part := (Element.bare "part").setAttr "ref" s.ref
  match s.param with
  | some param => if s.ref = customRef ∧ param ≠ "" then part.setAttr "param" param else part
  | none => part

end PartStep

/-- An element that is changed at one place below it. -/
structure Edit where
  element : Element
  /-- The child numbers that lead to the place. -/
  place : List Nat
  /-- The places on the way that were taken over from elsewhere, innermost first. -/
  taken : List (List Nat × Handle)

namespace Edit

/-- Changes the first child that meets a condition, or else `new`, which then
comes last and is taken over from `source`. -/
def within (isIt : Element → Bool) (new : Element) (source : Option Handle)
    (change : Element → Edit) (e : Element) : Edit :=
  match e.children.findIdx? isIt with
  | some i =>
    let r := change (e.children[i]?.getD new)
    ⟨{ e with children := e.children.set i r.element }, i :: r.place,
      r.taken.map fun (place, h) => (i :: place, h)⟩
  | none =>
    let i := e.children.length
    let r := change new
    ⟨e.push r.element, i :: r.place,
      r.taken.map (fun (place, h) => (i :: place, h)) ++ source.toList.map ([i], ·)⟩

/-- Sets an attribute on the part at the end of the steps. -/
def along (attr value : String) : List PartStep → Element → Edit
  | [], e => ⟨e.setAttr attr value, [], []⟩
  | s :: steps, e =>
    match s.indent with
    | none => within s.isFor s.newPart none (along attr value steps) e
    | some indent =>
      within (·.name = indent.element.name) indent.element (some indent)
        (within s.isFor s.newPart none (along attr value steps)) e

end Edit

/-- An override with the way to its edited part. -/
structure Override where
  /-- The layout that is overridden. -/
  source : Handle
  edit : Edit

namespace Override

/-- What follows the last sublayout of a path, if there is one. -/
def afterSublayout : List PathNode → Option (List PathNode)
  | [] => none
  | n :: ns =>
    match afterSublayout ns with
    | some rest => some rest
    | none => if n.node.element.name = "sublayout" then some ns else none

/-- The part of a path that an override is made for; a sublayout at the very
start of the path does not count. -/
def relevant : List PathNode → List PathNode
  | [] => []
  | first :: rest => (afterSublayout rest).getD (first :: rest)

/-- The override that sets an attribute on the last part of a display path, and
carries a version. -/
def ofPath (path : List PathNode) (attr value : String) (version : Int) :
    Except InventoryError Override :=
  match relevant path with
  | [] => .error (.overridePath .noLayout)
  | start :: rest =>
    let source := start.node
    match rest.filterMap PartStep.ofNode with
    | [] => .error (.overridePath (.noPart source.element.name))
    | steps =>
      let copy := source.element.setAttr Element.versionAttr (toString version)
      .ok ⟨source, Edit.along attr value steps copy⟩

/-- The element of an override. -/
def element (o : Override) : Element := o.edit.element

/-- The child numbers that lead to the edited part. -/
def partPlace (o : Override) : List Nat := o.edit.place

/-- The edited part. -/
def part (o : Override) : Option Element := o.element.at? o.partPlace

/-- The handle of an override: new on the way to the edited part, elsewhere what
it was taken over from. -/
def handle (o : Override) (serial : Nat) : Handle where
  element := o.element
  identity place :=
    if place.isPrefixOf o.partPlace then ⟨serial, place⟩
    else
      match o.edit.taken.find? (·.1.isPrefixOf place) with
      | some (above, h) => h.identity (place.drop above.length)
      | none => o.source.identity place

end Override

end TemplateInventory
