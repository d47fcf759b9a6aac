import TemplateInventory.Unify
/-!
# Handles

An element that is held in several places at once is one thing, and can be told
from another with the same content. A `Handle` is an element together with the
identity of every node in it; two handles are the same when the identities of
their roots are.

Making an element gives new identities to the nodes that are made, and keeps
those of the nodes that are taken over: `Handle.revise` for a changed copy,
`Handle.unify` and `Handle.unifyInto` for a unified element.
-/

namespace TemplateInventory

/-- The identity of a node: the number of the making that it comes from, and the
place that it had then. -/
structure NodeId where
  serial : Nat
  place : List Nat
  deriving DecidableEq, Repr

/-- The element at the end of a path of child numbers. -/
def Element.at? (e : Element) : List Nat → Option Element
  | [] => some e
  | i :: place =>
    match e.children[i]? with
    | some c => c.at? place
    | none => none

/-- An element with the identities of its nodes, given by their places. -/
structure Handle where
  element : Element
  identity : List Nat → NodeId

namespace Handle

/-- The identity of the element itself. -/
def id (h : Handle) : NodeId := h.identity []

/-- Whether two handles hold one thing. -/
def same (h h' : Handle) : Bool := h.id == h'.id

/-- The handle of an element that is made as a whole. -/
def fresh (serial : Nat) (e : Element) : Handle := ⟨e, fun place => ⟨serial, place⟩⟩

instance : Inhabited Handle := ⟨fresh 0 default⟩

/-- The handles of the children. -/
def children (h : Handle) : List Handle :=
  h.element.children.zipIdx.map fun (c, i) => ⟨c, fun place => h.identity (i :: place)⟩

/-- The handle at the end of a path of child numbers. -/
def at? (h : Handle) : List Nat → Option Handle
  | [] => some h
  | i :: place =>
    match h.children[i]? with
    | some c => c.at? place
    | none => none

/-- The handle of a changed copy. The element itself is new; a node below it that
did not change at its place is the old one. -/
def revise (h : Handle) (serial : Nat) (e : Element) : Handle where
  element := e
  identity place :=
    if place ≠ [] ∧ e.at? place = h.element.at? place then h.identity place else ⟨serial, place⟩

/-- The identity of a node of a unified element, by its place below the place
`made`. A pair makes a new node; a single child keeps its identities. -/
def unifiedIdentity (s : KeySchema) (serial : Nat) (made : List Nat) (a b : Handle) :
    List Nat → NodeId
  | [] => ⟨serial, made⟩
  | i :: place =>
    match (joinBy (s.classOf ·.element) a.element.reorders a.children b.children)[i]? with
    | some (.both x y) => unifiedIdentity s serial (made ++ [i]) x y place
    | some (.single x) => x.identity place
    | none => ⟨serial, made ++ i :: place⟩

/-- The handle of the unified element of an alteration and a base. -/
def unify (s : KeySchema) (serial : Nat) (a b : Handle) : Handle :=
  ⟨TemplateInventory.unify s a.element b.element, unifiedIdentity s serial [] a b⟩

/-- The handle of a base with the unified children. -/
def unifyInto (s : KeySchema) (serial : Nat) (base alteration : Handle) : Handle :=
  ⟨TemplateInventory.unifyInto s base.element alteration.element,
    unifiedIdentity s serial [] alteration base⟩

@[simp] theorem id_fresh (serial : Nat) (e : Element) : (fresh serial e).id = ⟨serial, []⟩ := rfl

@[simp] theorem id_revise (h : Handle) (serial : Nat) (e : Element) :
    (h.revise serial e).id = ⟨serial, []⟩ := by
  simp [revise, id]

@[simp] theorem id_unify (s : KeySchema) (serial : Nat) (a b : Handle) :
    (unify s serial a b).id = ⟨serial, []⟩ := rfl

@[simp] theorem id_unifyInto (s : KeySchema) (serial : Nat) (a b : Handle) :
    (unifyInto s serial a b).id = ⟨serial, []⟩ := rfl

/-- The handles of the children hold the children. -/
theorem map_element_children (h : Handle) :
    h.children.map Handle.element = h.element.children := by
  simp [children, List.map_map, Function.comp_def]

end Handle

end TemplateInventory
