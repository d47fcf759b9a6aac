import TemplateInventory.Element
import TemplateInventory.Text.Lowercase
/-!
# Keys

What identifies an element. A `KeySchema` lists, for each element name, the
attributes whose values tell elements of that name apart; the last of them is
the identity, which a `base` attribute refers to. An `ElementKey` is the name
with the lower-case values, addressed to one of three stores.
-/

namespace TemplateInventory

/-- One of the three stores of an inventory. -/
inductive StoreId where
  /-- The elements that are served. -/
  | main
  /-- Derived elements as they were added. -/
  | alterations
  /-- Elements that an override has taken the place of. -/
  | bases
  deriving DecidableEq, Repr

/-- The name of a store. -/
def StoreId.text : StoreId → String
  | .main => "main"
  | .alterations => "alterations"
  | .bases => "bases"

/-- The key attributes of each element name. -/
structure KeySchema where
  attributes : Table String (List String)
  deriving DecidableEq

namespace KeySchema

/-- The schema without names. -/
def empty : KeySchema := ⟨.empty⟩

/-- The schema of a list of names with their key attributes; a later entry of a
name replaces an earlier one. -/
def ofList (specs : List (String × List String)) : KeySchema := ⟨.ofList specs⟩

/-- The key attributes of a name; none for an unknown name. -/
def attrsFor (s : KeySchema) (name : String) : List String := (s.attributes.get? name).getD []

/-- The last key attribute of a name. -/
def identityAttr (s : KeySchema) (name : String) : Option String := (s.attrsFor name).getLast?

/-- The key values of an element, missing attributes as `none`. -/
def valuesOf (s : KeySchema) (e : Element) : List (Option String) := e.keyValues (s.attrsFor e.name)

/-- The values of a lookup for a name, padded or cut to its key attributes. -/
def fit (s : KeySchema) (name : String) (values : List (Option String)) : List (Option String) :=
  let n := (s.attrsFor name).length
  values.take n ++ List.replicate (n - values.length) none

theorem length_fit (s : KeySchema) (name : String) (values : List (Option String)) :
    (s.fit name values).length = (s.attrsFor name).length := by
  simp only [fit, List.length_append, List.length_take, List.length_replicate]
  omega

theorem length_valuesOf (s : KeySchema) (e : Element) :
    (s.valuesOf e).length = (s.attrsFor e.name).length := by
  simp [valuesOf, Element.keyValues]

/-- A lookup for the values of an element itself asks for just these. -/
theorem fit_valuesOf (s : KeySchema) (e : Element) :
    s.fit e.name (s.valuesOf e) = s.valuesOf e := by
  have hl := s.length_valuesOf e
  simp [fit, hl, List.take_of_length_le]

end KeySchema

/-- What a lookup asks for: a name and lower-case values in a store. A missing
value is not the same as an empty one. -/
structure ElementKey where
  element : String
  values : List (Option String)
  store : StoreId
  deriving DecidableEq, Repr

namespace ElementKey

/-- The key of a name and values in a store, whatever their case. -/
def of (element : String) (values : List (Option String)) (store : StoreId) : ElementKey :=
  ⟨element, values.map (·.map Text.lowercase), store⟩

/-- The same name and values in another store. -/
def inStore (k : ElementKey) (store : StoreId) : ElementKey := { k with store := store }

/-- The key as messages show it. -/
def text (k : ElementKey) : String :=
  k.element ++ ": " ++ String.intercalate "-" (k.values.map (·.getD "")) ++
    " (" ++ k.store.text ++ ")"

@[simp] theorem inStore_of (n : String) (vs : List (Option String)) (s s' : StoreId) :
    (of n vs s).inStore s' = of n vs s' := rfl

end ElementKey

end TemplateInventory
