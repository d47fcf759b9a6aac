import TemplateInventory.Element
/-!
# Queries

A query is a path of steps from the elements of a store down to their children.
Each step asks for a name, or for any, and for conditions on attributes. What a
query selects comes in document order, `Query.select`.
-/

namespace TemplateInventory

/-- A condition on an attribute. -/
inductive Predicate where
  | equals (attr value : String)
  | absent (attr : String)
  | present (attr : String)
  deriving DecidableEq, Repr

namespace Predicate

/-- The condition that an attribute has a value, or is missing. -/
def ofValue (attr : String) : Option String → Predicate
  | some value => .equals attr value
  | none => .absent attr

/-- Whether an element meets the condition. -/
def holds (e : Element) : Predicate → Bool
  | .equals attr value => e.attr attr == some value
  | .absent attr => !e.hasAttr attr
  | .present attr => e.hasAttr attr

end Predicate

/-- One step of a query. -/
structure Step where
  /-- The name that is asked for; any name if missing. -/
  name : Option String
  predicates : List Predicate
  deriving DecidableEq, Repr

namespace Step

/-- The step to the elements of a name with given key values; as many attributes
count as there are values. -/
def ofKey (name : String) (attributes : List String) (values : List (Option String)) : Step :=
  ⟨some name, List.zipWith Predicate.ofValue attributes values⟩

/-- Whether the step leads to an element. -/
def accepts (s : Step) (e : Element) : Bool :=
  (match s.name with
  | some name => name == e.name
  | none => true) && s.predicates.all (·.holds e)

end Step

/-- A path of at least one step. -/
structure Query where
  first : Step
  rest : List Step
  deriving DecidableEq, Repr

namespace Query

/-- The steps of a query in order. -/
def steps (q : Query) : List Step := q.first :: q.rest

/-- The elements that a query reaches from the elements `roots`. -/
def select (q : Query) (roots : List Element) : List Element :=
  q.rest.foldl (fun found s => found.flatMap fun e => e.children.filter s.accepts)
    (roots.filter q.first.accepts)

end Query

/-- An element meets the condition that an attribute has a value exactly when it
has it. -/
theorem Predicate.holds_ofValue (e : Element) (attr : String) (value : Option String) :
    (Predicate.ofValue attr value).holds e = (e.attr attr == value) := by
  cases value with
  | some v => rfl
  | none =>
    simp only [ofValue, holds, Element.hasAttr, Table.contains, Element.attr]
    cases e.attributes.get? attr <;> rfl

end TemplateInventory
