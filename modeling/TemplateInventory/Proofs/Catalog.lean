import TemplateInventory.Holdings.Add
import TemplateInventory.Proofs.Keys
import TemplateInventory.Proofs.Listing
/-!
# Catalogs

An inventory without stores to search and without a memory of lookups: a
`Catalog` is three tables from keys to elements. It resolves and adds by the same
rules as holdings do, and makes its elements under the same numbers, so that the
two can be compared answer by answer.

`Catalog.grows_resolve` says what a lookup does to a catalog: it makes elements
served, and keeps everything else.
-/

namespace TemplateInventory

/-- The elements of an inventory by their keys. -/
structure Catalog where
  schema : KeySchema
  /-- The elements that are served. -/
  main : Table ElementKey Handle
  /-- Derived elements as they were added. -/
  alterations : Table ElementKey Handle
  /-- Elements that an override has taken the place of. -/
  bases : Table ElementKey Handle
  /-- The number of the next element that is made. -/
  nextSerial : Nat

namespace Catalog

/-- Nothing is held. -/
def empty (schema : KeySchema) : Catalog := ⟨schema, .empty, .empty, .empty, 0⟩

/-- One of the three tables. -/
def table (c : Catalog) : StoreId → Table ElementKey Handle
  | .main => c.main
  | .alterations => c.alterations
  | .bases => c.bases

/-- The same with another table in the place of one of the three. -/
def setTable (c : Catalog) (s : StoreId) (t : Table ElementKey Handle) : Catalog :=
  match s with
  | .main => { c with main := t }
  | .alterations => { c with alterations := t }
  | .bases => { c with bases := t }

@[simp] theorem table_setTable (c : Catalog) (s s' : StoreId) (t : Table ElementKey Handle) :
    (c.setTable s t).table s' = if s = s' then t else c.table s' := by
  cases s <;> cases s' <;> rfl

@[simp] theorem schema_setTable (c : Catalog) (s : StoreId) (t : Table ElementKey Handle) :
    (c.setTable s t).schema = c.schema := by
  cases s <;> rfl

@[simp] theorem nextSerial_setTable (c : Catalog) (s : StoreId) (t : Table ElementKey Handle) :
    (c.setTable s t).nextSerial = c.nextSerial := by
  cases s <;> rfl

/-- Serves an alteration with the base that was found for it. -/
def settle (c : Catalog) (k : ElementKey) (alteration : Handle) (base : Option Handle) :
    Handle × Catalog :=
  match base with
  | some b =>
    let x := Handle.unify c.schema c.nextSerial alteration b
    (x, { c with main := c.main.put k x, nextSerial := c.nextSerial + 1 })
  | none => (alteration, { c with main := c.main.put k alteration })

/-- The element of a key: the one that is served, or else the alteration of the
key, unified with the element of its base. A key that is `resolving` already
counts as having none. -/
def resolve (c : Catalog) (resolving : List ElementKey) (k : ElementKey) :
    Option Handle × Catalog :=
  match c.main.get? k with
  | some x => (some x, c)
  | none =>
    if _hk : k ∈ resolving then (none, c)
    else
      match _ha : c.alterations.get? k with
      | none => (none, c)
      | some a =>
        match a.element.base.bind k.based with
        | none =>
          let r := c.settle k a none
          (some r.1, r.2)
        | some k' =>
          let b := c.resolve (k :: resolving) k'
          let r := b.2.settle k a b.1
          (some r.1, r.2)
termination_by (itemsOutside resolving c.alterations.keys).length
decreasing_by exact length_outside_lt (fun _ hx => hx) (Table.mem_keys_of_get? _ha) _hk

/-- The element that is served for a name and key values. -/
def getElement (c : Catalog) (name : String) (values : List (Option String)) :
    Option Handle × Catalog :=
  c.resolve [] (.of name (c.schema.fit name values) .main)

/-- The derived element of a name and key values as it was added. -/
def getAlteration (c : Catalog) (name : String) (values : List (Option String)) :
    Option Handle × Catalog :=
  (c.alterations.get? (.of name (c.schema.fit name values) .main), c)

/-- What the derived element of a name and key values is based on. -/
def getBase (c : Catalog) (name : String) (values : List (Option String)) :
    Option Handle × Catalog :=
  let k := ElementKey.of name (c.schema.fit name values) .main
  match c.alterations.get? k with
  | none => (none, c)
  | some a =>
    match a.element.base with
    | none => (none, c)
    | some base =>
      match k.based base with
      | none => (none, c)
      | some k' =>
        if (c.schema.identityAttr name).bind a.element.attr = some base then (c.bases.get? k', c)
        else c.resolve [] k'

/-- The handle of an element that is new as a whole. -/
def mint (c : Catalog) (e : Element) : Handle × Catalog :=
  (.fresh c.nextSerial e, { c with nextSerial := c.nextSerial + 1 })

/-- Adds an override of `base`. -/
def addOverride (c : Catalog) (base : String) (node : Handle) :
    Except InventoryError Unit × Catalog :=
  let k := c.schema.keyOf node.element
  match c.resolve [] k with
  | (none, c) => (.error (.noBase base k), c)
  | (some extant, c) =>
    match c.bases.get? k with
    | some _ => (.error (.overrideDepth base k), c)
    | none =>
      (.ok (),
        { c with
          main := c.main.put k (Handle.unify c.schema c.nextSerial node extant)
          alterations := c.alterations.put k node
          bases := c.bases.put k extant
          nextSerial := c.nextSerial + 1 })

/-- Adds an element: a plain one takes the place of the one with its key, an
override is unified with it, and an ordinary alteration takes it away. -/
def add (c : Catalog) (node : Handle) : Except InventoryError Unit × Catalog :=
  let k := c.schema.keyOf node.element
  match node.element.base with
  | none => (.ok (), { c with main := c.main.put k node })
  | some base =>
    match c.schema.identityAttr node.element.name with
    | none => (.error (.baseWithoutKey node.element.name), c)
    | some attr =>
      match node.element.requiredAttr attr with
      | .error e => (.error e, c)
      | .ok identity =>
        if identity = base then c.addOverride base node
        else
          (.ok (),
            { c with main := c.main.erase k, alterations := c.alterations.put k node })

/-! ## Resolving by cases -/

section
variable {c : Catalog} {resolving : List ElementKey} {k k' : ElementKey} {a x : Handle}

theorem resolve_served (hm : c.main.get? k = some x) : c.resolve resolving k = (some x, c) := by
  rw [resolve, hm]

theorem resolve_open (hm : c.main.get? k = none) (hk : k ∈ resolving) :
    c.resolve resolving k = (none, c) := by
  rw [resolve, hm]
  exact dif_pos hk

theorem resolve_missing (hm : c.main.get? k = none) (ha : c.alterations.get? k = none) :
    c.resolve resolving k = (none, c) := by
  rw [resolve, hm]
  by_cases hk : k ∈ resolving
  · exact dif_pos hk
  · simp only [dif_neg hk]
    split
    · rfl
    · next h => rw [ha] at h; cases h

theorem resolve_alone (hm : c.main.get? k = none) (hk : k ∉ resolving)
    (ha : c.alterations.get? k = some a) (hb : a.element.base.bind k.based = none) :
    c.resolve resolving k = (some (c.settle k a none).1, (c.settle k a none).2) := by
  rw [resolve, hm]
  simp only [dif_neg hk]
  split
  · next h => rw [ha] at h; cases h
  · next a' h =>
    obtain rfl : a = a' := by rw [ha] at h; exact Option.some.inj h
    rw [hb]

theorem resolve_based (hm : c.main.get? k = none) (hk : k ∉ resolving)
    (ha : c.alterations.get? k = some a) (hb : a.element.base.bind k.based = some k') :
    c.resolve resolving k =
      (some ((c.resolve (k :: resolving) k').2.settle k a (c.resolve (k :: resolving) k').1).1,
        ((c.resolve (k :: resolving) k').2.settle k a (c.resolve (k :: resolving) k').1).2) := by
  rw [resolve, hm]
  simp only [dif_neg hk]
  split
  · next h => rw [ha] at h; cases h
  · next a' h =>
    obtain rfl : a = a' := by rw [ha] at h; exact Option.some.inj h
    rw [hb]

end

/-- Induction along the bases that a lookup resolves. -/
theorem resolve_induction {c : Catalog} {motive : List ElementKey → ElementKey → Prop}
    (served : ∀ {r k x}, c.main.get? k = some x → motive r k)
    (open_ : ∀ {r k}, c.main.get? k = none → k ∈ r → motive r k)
    (missing : ∀ {r k}, c.main.get? k = none → c.alterations.get? k = none → motive r k)
    (alone : ∀ {r k a}, c.main.get? k = none → k ∉ r → c.alterations.get? k = some a →
      a.element.base.bind k.based = none → motive r k)
    (based : ∀ {r k a k'}, c.main.get? k = none → k ∉ r → c.alterations.get? k = some a →
      a.element.base.bind k.based = some k' → motive (k :: r) k' → motive r k)
    (r : List ElementKey) (k : ElementKey) : motive r k := by
  cases hm : c.main.get? k with
  | some x => exact served hm
  | none =>
    by_cases hk : k ∈ r
    · exact open_ hm hk
    · cases ha : c.alterations.get? k with
      | none => exact missing hm ha
      | some a =>
        cases hb : a.element.base.bind k.based with
        | none => exact alone hm hk ha hb
        | some k' =>
          exact based hm hk ha hb (resolve_induction served open_ missing alone based (k :: r) k')
termination_by (itemsOutside r c.alterations.keys).length
decreasing_by exact length_outside_lt (fun _ hx => hx) (Table.mem_keys_of_get? ha) hk

/-! ## What resolving does to a catalog -/

/-- Only elements that are served have joined, at the end. -/
structure Grows (c c' : Catalog) : Prop where
  schema : c'.schema = c.schema
  alterations : c'.alterations = c.alterations
  bases : c'.bases = c.bases
  main : c.main.entries <+: c'.main.entries

theorem Grows.refl (c : Catalog) : Grows c c := ⟨rfl, rfl, rfl, List.prefix_refl _⟩

theorem Grows.trans {c₁ c₂ c₃ : Catalog} (h : Grows c₁ c₂) (h' : Grows c₂ c₃) : Grows c₁ c₃ :=
  ⟨h'.schema.trans h.schema, h'.alterations.trans h.alterations, h'.bases.trans h.bases,
    h.main.trans h'.main⟩

theorem Grows.get? {c c' : Catalog} (h : Grows c c') {k : ElementKey} {x : Handle}
    (hx : c.main.get? k = some x) : c'.main.get? k = some x :=
  Table.mem_entries_iff.1 (h.main.subset (Table.mem_entries_iff.2 hx))

theorem main_settle (c : Catalog) (k : ElementKey) (a : Handle) (b : Option Handle) :
    (c.settle k a b).2.main = c.main.put k (c.settle k a b).1 := by
  cases b <;> rfl

theorem grows_settle {c : Catalog} {k : ElementKey} (hk : c.main.get? k = none) (a : Handle)
    (b : Option Handle) : Grows c (c.settle k a b).2 := by
  have hput : (c.settle k a b).2.main.entries = c.main.entries ++ [(k, (c.settle k a b).1)] := by
    rw [main_settle]
    exact putEntry_of_not_mem _ ((Table.get?_eq_none_iff _ _).1 hk)
  refine ⟨?_, ?_, ?_, hput ▸ List.prefix_append _ _⟩ <;> cases b <;> rfl

/-- A lookup does not serve a key that is open. -/
theorem get?_resolve_of_mem {c : Catalog} {k₀ : ElementKey} (hk₀ : c.main.get? k₀ = none)
    (r : List ElementKey) (k : ElementKey) (hmem : k₀ ∈ r) :
    (c.resolve r k).2.main.get? k₀ = none := by
  induction r, k using resolve_induction (c := c) with
  | served hm => rwa [resolve_served hm]
  | open_ hm hk => rwa [resolve_open hm hk]
  | missing hm ha => rwa [resolve_missing hm ha]
  | @alone r k a hm hk ha hb =>
    have hne : k ≠ k₀ := fun h => hk (h ▸ hmem)
    rw [resolve_alone hm hk ha hb, main_settle, Table.get?_put, if_neg hne, hk₀]
  | @based r k a k' hm hk ha hb ih =>
    have hne : k ≠ k₀ := fun h => hk (h ▸ hmem)
    rw [resolve_based hm hk ha hb, main_settle, Table.get?_put, if_neg hne]
    exact ih (List.mem_cons_of_mem _ hmem)

/-- What is resolved joins the elements that are served; nothing else changes. -/
theorem grows_resolve (c : Catalog) (r : List ElementKey) (k : ElementKey) :
    Grows c (c.resolve r k).2 := by
  induction r, k using resolve_induction (c := c) with
  | served hm => rw [resolve_served hm]; exact .refl c
  | open_ hm hk => rw [resolve_open hm hk]; exact .refl c
  | missing hm ha => rw [resolve_missing hm ha]; exact .refl c
  | alone hm hk ha hb => rw [resolve_alone hm hk ha hb]; exact grows_settle hm _ _
  | based hm hk ha hb ih =>
    rw [resolve_based hm hk ha hb]
    exact ih.trans (grows_settle (get?_resolve_of_mem hm _ _ List.mem_cons_self) _ _)

/-- The answer of a lookup is served from then on. -/
theorem get?_resolve {c : Catalog} {r : List ElementKey} {k : ElementKey} {x : Handle}
    (hx : (c.resolve r k).1 = some x) : (c.resolve r k).2.main.get? k = some x := by
  induction r, k using resolve_induction (c := c) with
  | served hm => rw [resolve_served hm] at hx ⊢; rw [hm]; exact hx
  | open_ hm hk => rw [resolve_open hm hk] at hx; cases hx
  | missing hm ha => rw [resolve_missing hm ha] at hx; cases hx
  | alone hm hk ha hb =>
    rw [resolve_alone hm hk ha hb] at hx ⊢
    rw [main_settle, Table.get?_put, if_pos rfl]
    exact hx
  | based hm hk ha hb ih =>
    rw [resolve_based hm hk ha hb] at hx ⊢
    rw [main_settle, Table.get?_put, if_pos rfl]
    exact hx

/-- A key that has an alteration is answered, unless it is open. -/
theorem isSome_resolve_of_alteration {c : Catalog} {r : List ElementKey} {k : ElementKey}
    {a : Handle} (ha : c.alterations.get? k = some a) (hk : k ∉ r) :
    (c.resolve r k).1.isSome = true := by
  cases hm : c.main.get? k with
  | some x => rw [resolve_served hm]; rfl
  | none =>
    cases hb : a.element.base.bind k.based with
    | none => rw [resolve_alone hm hk ha hb]; rfl
    | some k' => rw [resolve_based hm hk ha hb]; rfl

/-! ## Adding by cases -/

/-- What adding an element to a catalog can come to. -/
theorem add_cases {c : Catalog} {node : Handle}
    {motive : Except InventoryError Unit × Catalog → Prop}
    (plain : node.element.base = none →
      motive (.ok (), { c with main := c.main.put (c.schema.keyOf node.element) node }))
    (refused : ∀ e, motive (.error e, c))
    (unfounded : ∀ e, motive (.error e, (c.resolve [] (c.schema.keyOf node.element)).2))
    (override : ∀ {base extant}, node.element.base = some base →
      c.schema.identityOf node.element = some base →
      (c.resolve [] (c.schema.keyOf node.element)).1 = some extant →
      (c.resolve [] (c.schema.keyOf node.element)).2.bases.get? (c.schema.keyOf node.element) = none →
      let d := (c.resolve [] (c.schema.keyOf node.element)).2
      motive (.ok (), { d with
        main := d.main.put (c.schema.keyOf node.element)
          (Handle.unify d.schema d.nextSerial node extant)
        alterations := d.alterations.put (c.schema.keyOf node.element) node
        bases := d.bases.put (c.schema.keyOf node.element) extant
        nextSerial := d.nextSerial + 1 }))
    (alteration : ∀ {base identity}, node.element.base = some base →
      c.schema.identityOf node.element = some identity → identity ≠ base →
      motive (.ok (), { c with
        main := c.main.erase (c.schema.keyOf node.element)
        alterations := c.alterations.put (c.schema.keyOf node.element) node })) :
    motive (c.add node) := by
  unfold add
  cases hb : node.element.base with
  | none => exact plain hb
  | some base =>
    simp only
    cases hi : c.schema.identityAttr node.element.name with
    | none => exact refused _
    | some attr =>
      simp only
      cases ha : node.element.attr attr with
      | none => simp only [Element.requiredAttr, ha]; exact refused _
      | some identity =>
        have hid : c.schema.identityOf node.element = some identity := by
          rw [KeySchema.identityOf, hi, Option.bind_some, ha]
        simp only [Element.requiredAttr, ha]
        split
        · next he =>
          subst he
          rw [addOverride]
          generalize hr : c.resolve [] (c.schema.keyOf node.element) = r at unfounded override
          obtain ⟨_ | extant, d⟩ := r
          · exact unfounded _
          · simp only
            cases hd : d.bases.get? (c.schema.keyOf node.element) with
            | some y => exact unfounded _
            | none => exact override hb hid rfl hd
        · next hne => exact alteration hb hid hne

end Catalog

end TemplateInventory
