import TemplateInventory.Error
import TemplateInventory.Lookup
import TemplateInventory.Store
/-!
# Holdings

The elements of an inventory, in three stores, with what lookups have found in
them. `Holdings.findIn` answers from what is remembered, or else searches a store
and remembers what it finds there, or that it finds nothing.
-/

namespace TemplateInventory

/-- The stores of an inventory with the memory of its lookups. -/
structure Holdings where
  schema : KeySchema
  /-- The elements that are served. -/
  main : Store
  /-- Derived elements as they were added. -/
  alterations : Store
  /-- Elements that an override has taken the place of. -/
  bases : Store
  cache : LookupCache
  /-- How often a store was searched. -/
  searches : Nat
  /-- How often the memory had the answer. -/
  hits : Nat
  /-- The number of the next element that is made. -/
  nextSerial : Nat

namespace Holdings

/-- Nothing is held. -/
def empty (schema : KeySchema) : Holdings :=
  ⟨schema, .empty, .empty, .empty, .empty, 0, 0, 0⟩

/-- The same without elements; numbers and counts go on. -/
def clear (h : Holdings) : Holdings :=
  { h with main := .empty, alterations := .empty, bases := .empty, cache := .empty }

/-- One of the three stores. -/
def store (h : Holdings) : StoreId → Store
  | .main => h.main
  | .alterations => h.alterations
  | .bases => h.bases

/-- The handle of an element that is new as a whole. -/
def mint (h : Holdings) (e : Element) : Handle × Holdings :=
  (.fresh h.nextSerial e, { h with nextSerial := h.nextSerial + 1 })

/-- Remembers what has a key, or that nothing has it. -/
def remember (h : Holdings) (k : ElementKey) (result : Option Handle) : Holdings :=
  { h with cache := h.cache.set k result }

/-- Searches a store for an element of a name with exactly these key values. -/
def search (h : Holdings) (store : StoreId) (name : String) (values : List (Option String)) :
    Option Handle :=
  (h.store store).findByKey name (h.schema.attrsFor name) values

/-- The same after an answer from memory. -/
def countHit (h : Holdings) : Holdings := { h with hits := h.hits + 1 }

/-- The same after a search, whose result is remembered. -/
def countSearch (h : Holdings) (k : ElementKey) (found : Option Handle) : Holdings :=
  { h.remember k found with searches := h.searches + 1 }

/-- The element of a store with a name and key values: the remembered answer, or
that of a search, which is remembered. -/
def findIn (h : Holdings) (store : StoreId) (name : String) (values : List (Option String)) :
    Option Handle × Holdings :=
  match h.cache.get (.of name values store) with
  | .found x => (some x, h.countHit)
  | .miss => (none, h.countHit)
  | .notQueried =>
    (h.search store name values,
      h.countSearch (.of name values store) (h.search store name values))

end Holdings

end TemplateInventory
