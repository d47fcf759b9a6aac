/-!
# Ordered tables

A `Table` maps keys to values and remembers the order in which the keys were
first put. Putting a key again keeps its place and changes its value. No key
occurs twice: `Table.distinct` carries this, so no operation has to check it.

`get?_put` says what a put does to every lookup, `keys_put` what it does to the
order of the keys, and `get?_erase` what removing a key does.
-/

namespace TemplateInventory

section Entries
variable {κ α : Type} [DecidableEq κ]

/-- Puts `v` at `k`: in place if `k` is there, else at the end. -/
def putEntry (k : κ) (v : α) : List (κ × α) → List (κ × α)
  | [] => [(k, v)]
  | e :: es => if e.1 = k then (k, v) :: es else e :: putEntry k v es

/-- Drops the entry of `k`, if any. -/
def eraseEntry (k : κ) : List (κ × α) → List (κ × α)
  | [] => []
  | e :: es => if e.1 = k then es else e :: eraseEntry k es

/-- The value of the first entry of `k`. -/
def findEntry (k : κ) : List (κ × α) → Option α
  | [] => none
  | e :: es => if e.1 = k then some e.2 else findEntry k es

theorem keys_putEntry (k : κ) (v : α) (es : List (κ × α)) :
    (putEntry k v es).map Prod.fst =
      if k ∈ es.map Prod.fst then es.map Prod.fst else es.map Prod.fst ++ [k] := by
  induction es with
  | nil => simp [putEntry]
  | cons e es ih =>
    by_cases h : e.1 = k
    · simp [putEntry, h]
    · have h' : ¬ k = e.1 := fun hk => h hk.symm
      simp only [putEntry, h, if_false, List.map_cons, ih, List.mem_cons, h', false_or]
      split <;> simp

theorem nodup_putEntry (k : κ) (v : α) {es : List (κ × α)} (h : (es.map Prod.fst).Nodup) :
    ((putEntry k v es).map Prod.fst).Nodup := by
  rw [keys_putEntry]
  split
  · exact h
  · next hk =>
    rw [List.nodup_append]
    refine ⟨h, by simp, ?_⟩
    intro a ha b hb hab
    simp only [List.mem_singleton] at hb
    exact hk (hb ▸ hab ▸ ha)

theorem sublist_eraseEntry (k : κ) (es : List (κ × α)) : (eraseEntry k es).Sublist es := by
  induction es with
  | nil => exact List.Sublist.slnil
  | cons e es ih =>
    by_cases h : e.1 = k
    · simp only [eraseEntry, h, if_true]
      exact List.sublist_cons_self e es
    · simp only [eraseEntry, h, if_false]
      exact ih.cons_cons e

theorem nodup_eraseEntry (k : κ) {es : List (κ × α)} (h : (es.map Prod.fst).Nodup) :
    ((eraseEntry k es).map Prod.fst).Nodup :=
  ((sublist_eraseEntry k es).map Prod.fst).nodup h

theorem findEntry_putEntry (k k' : κ) (v : α) (es : List (κ × α)) :
    findEntry k' (putEntry k v es) = if k = k' then some v else findEntry k' es := by
  induction es with
  | nil => simp [putEntry, findEntry]
  | cons e es ih =>
    by_cases h : e.1 = k
    · by_cases hk : k = k'
      · simp [putEntry, findEntry, h, hk]
      · simp [putEntry, findEntry, h, hk]
    · simp only [putEntry, h, if_false, findEntry, ih]
      by_cases he : e.1 = k'
      · have : ¬ k = k' := fun hk => h (he.trans hk.symm)
        simp [he, this]
      · simp [he]

theorem findEntry_eq_none_iff (k : κ) (es : List (κ × α)) :
    findEntry k es = none ↔ k ∉ es.map Prod.fst := by
  induction es with
  | nil => simp [findEntry]
  | cons e es ih =>
    by_cases h : e.1 = k
    · simp [findEntry, h]
    · have h' : ¬ k = e.1 := fun hk => h hk.symm
      simp only [findEntry, h, if_false, ih, List.map_cons, List.mem_cons, h', false_or]

theorem findEntry_eraseEntry (k k' : κ) {es : List (κ × α)} (hn : (es.map Prod.fst).Nodup) :
    findEntry k' (eraseEntry k es) = if k = k' then none else findEntry k' es := by
  induction es with
  | nil => simp [eraseEntry, findEntry]
  | cons e es ih =>
    simp only [List.map_cons, List.nodup_cons] at hn
    by_cases h : e.1 = k
    · by_cases hk : k = k'
      · subst hk
        simp only [eraseEntry, h, if_true]
        exact (findEntry_eq_none_iff k es).2 (h ▸ hn.1)
      · simp [eraseEntry, findEntry, h, hk]
    · simp only [eraseEntry, h, if_false, findEntry, ih hn.2]
      by_cases he : e.1 = k'
      · have : ¬ k = k' := fun hk => h (he.trans hk.symm)
        simp [he, this]
      · simp [he]

end Entries

/-- A map from keys to values in the order in which the keys were first put. -/
structure Table (κ α : Type) where
  entries : List (κ × α)
  /-- No key has two entries. -/
  distinct : (entries.map Prod.fst).Nodup
  deriving DecidableEq

namespace Table
variable {κ α : Type}

/-- The table without entries. -/
def empty : Table κ α := ⟨[], List.nodup_nil⟩

instance : EmptyCollection (Table κ α) := ⟨empty⟩

instance : Inhabited (Table κ α) := ⟨empty⟩

/-- The keys, in the order of their first put. -/
def keys (t : Table κ α) : List κ := t.entries.map Prod.fst

/-- How many keys the table has. -/
def size (t : Table κ α) : Nat := t.entries.length

/-- Tables with the same entries in the same order are equal. -/
@[ext] theorem ext {t u : Table κ α} (h : t.entries = u.entries) : t = u := by
  cases t
  cases u
  simp_all

variable [DecidableEq κ]

/-- The value at `k`, if there is one. -/
def get? (t : Table κ α) (k : κ) : Option α := findEntry k t.entries

/-- Whether `k` has a value. -/
def contains (t : Table κ α) (k : κ) : Bool := (t.get? k).isSome

/-- The table with `v` at `k`; a key that is already there keeps its place. -/
def put (t : Table κ α) (k : κ) (v : α) : Table κ α :=
  ⟨putEntry k v t.entries, nodup_putEntry k v t.distinct⟩

/-- The table without `k`. -/
def erase (t : Table κ α) (k : κ) : Table κ α :=
  ⟨eraseEntry k t.entries, nodup_eraseEntry k t.distinct⟩

/-- The table with the entries of `es` put one after the other. -/
def putAll (t : Table κ α) (es : List (κ × α)) : Table κ α :=
  es.foldl (fun t e => t.put e.1 e.2) t

/-- The table of a list of entries; of two entries of one key the later value stays. -/
def ofList (es : List (κ × α)) : Table κ α := empty.putAll es

@[simp] theorem get?_empty (k : κ) : (empty : Table κ α).get? k = none := rfl

@[simp] theorem get?_put (t : Table κ α) (k k' : κ) (v : α) :
    (t.put k v).get? k' = if k = k' then some v else t.get? k' :=
  findEntry_putEntry k k' v t.entries

@[simp] theorem get?_erase (t : Table κ α) (k k' : κ) :
    (t.erase k).get? k' = if k = k' then none else t.get? k' :=
  findEntry_eraseEntry k k' t.distinct

theorem keys_put (t : Table κ α) (k : κ) (v : α) :
    (t.put k v).keys = if k ∈ t.keys then t.keys else t.keys ++ [k] :=
  keys_putEntry k v t.entries

theorem get?_eq_none_iff (t : Table κ α) (k : κ) : t.get? k = none ↔ k ∉ t.keys :=
  findEntry_eq_none_iff k t.entries

theorem contains_iff (t : Table κ α) (k : κ) : t.contains k = true ↔ k ∈ t.keys := by
  rw [contains, ← Option.isNone_eq_false_iff, ← Bool.not_eq_true, Option.isNone_iff_eq_none,
    get?_eq_none_iff, Classical.not_not]

end Table

end TemplateInventory
