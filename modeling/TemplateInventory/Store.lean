import TemplateInventory.Handle
import TemplateInventory.Query.Basic
/-!
# Stores

A store holds elements in an order of its own. An element is found by what it
is, or by its name and key values; putting one in the place of another keeps the
order.
-/

namespace TemplateInventory

/-- Elements in order. -/
structure Store where
  handles : List Handle

namespace Store

/-- The store that holds nothing. -/
def empty : Store := ⟨[]⟩

/-- How many elements are held. -/
def size (s : Store) : Nat := s.handles.length

/-- The elements that are held. -/
def elements (s : Store) : List Element := s.handles.map Handle.element

/-- The number of the place where `h` itself is held. -/
def position (s : Store) (h : Handle) : Option Nat := s.handles.findIdx? (·.same h)

/-- Whether `h` itself is held. -/
def contains (s : Store) (h : Handle) : Bool := (s.position h).isSome

/-- The store with one more element at the end. -/
def push (s : Store) (h : Handle) : Store := ⟨s.handles ++ [h]⟩

/-- Puts `h` in the place of `extant`; at the end if that is not held. -/
def replace (s : Store) (extant : Option Handle) (h : Handle) : Store :=
  match extant.bind s.position with
  | some i => ⟨s.handles.set i h⟩
  | none => s.push h

/-- The store without `h`. -/
def remove (s : Store) (h : Handle) : Store :=
  match s.position h with
  | some i => ⟨s.handles.eraseIdx i⟩
  | none => s

/-- The first element that a step leads to. -/
def firstOf (s : Store) (step : Step) : Option Handle := s.handles.find? (step.accepts ·.element)

/-- The elements that a step leads to. -/
def allOf (s : Store) (step : Step) : List Handle := s.handles.filter (step.accepts ·.element)

/-- The elements of a name. -/
def named (s : Store) (name : String) : List Handle := s.handles.filter (·.element.name == name)

/-- The first element of a name with exactly these values of the key attributes;
values that are not given are missing ones. -/
def findByKey (s : Store) (name : String) (attrs : List String) (values : List (Option String)) :
    Option Handle :=
  s.firstOf (.ofKey name attrs (values ++ List.replicate (attrs.length - values.length) none))

@[simp] theorem handles_push (s : Store) (h : Handle) : (s.push h).handles = s.handles ++ [h] := rfl

@[simp] theorem replace_none (s : Store) (h : Handle) : s.replace none h = s.push h := rfl

end Store

end TemplateInventory
