import TemplateInventory.Handle
/-!
# Remembered lookups

What lookups have found so far, by key. A lookup that found nothing is
remembered too, and is not the same as one that was never made.
-/

namespace TemplateInventory

/-- What is known about a key. -/
inductive Lookup where
  /-- The key was never looked up. -/
  | notQueried
  /-- Nothing has the key. -/
  | miss
  | found (h : Handle)

/-- The element of a key, if it is known to have one. -/
def Lookup.found? : Lookup → Option Handle
  | .found h => some h
  | _ => none

/-- The results of lookups. -/
structure LookupCache where
  entries : Table ElementKey (Option Handle)

namespace LookupCache

/-- Nothing was looked up. -/
def empty : LookupCache := ⟨.empty⟩

/-- How many keys are known. -/
def size (c : LookupCache) : Nat := c.entries.size

/-- What is known about a key. -/
def get (c : LookupCache) (k : ElementKey) : Lookup :=
  match c.entries.get? k with
  | none => .notQueried
  | some none => .miss
  | some (some h) => .found h

/-- Remembers the result of a lookup in place of an earlier one. -/
def set (c : LookupCache) (k : ElementKey) (result : Option Handle) : LookupCache :=
  ⟨c.entries.put k result⟩

/-- The keys of a store that are known to have an element. -/
def foundKeys (c : LookupCache) (store : StoreId) : List ElementKey :=
  c.entries.entries.filterMap fun e =>
    if e.1.store = store ∧ e.2.isSome then some e.1 else none

@[simp] theorem get_empty (k : ElementKey) : empty.get k = .notQueried := rfl

theorem get_set (c : LookupCache) (k k' : ElementKey) (r : Option Handle) :
    (c.set k r).get k' =
      if k = k' then (match r with
        | some h => .found h
        | none => .miss)
      else c.get k' := by
  by_cases h : k = k'
  · cases r <;> simp [get, set, h]
  · simp [get, set, h]

end LookupCache

end TemplateInventory
