import TemplateInventory.Proofs.Reachable
/-!
# The catalog of an inventory

`Holdings.catalog` reads the stores as tables and forgets the memory. While no
grouping elements are held it answers every sequence of operations as the
inventory does, and serves the same elements in the same order
(`answers_eq_catalog`).

With grouping elements the stores and the memory still agree on all others
(`stores_eq_memory`).
-/

namespace TemplateInventory

open Holdings

/-! ## Holdings as a catalog -/

namespace Holdings

/-- What the stores have of the names that meet `p`, as tables. -/
def catalogOf (p : String → Bool) (h : Holdings) : Catalog where
  schema := h.schema
  main := .ofList (h.listed p .main)
  alterations := .ofList (h.listed p .alterations)
  bases := .ofList (h.listed p .bases)
  nextSerial := h.nextSerial

/-- The stores as tables. -/
def catalog (h : Holdings) : Catalog := h.catalogOf fun _ => true

section
variable {p : String → Bool} {h : Holdings} {c : Catalog} {g : String}

/-- A catalog that agrees is that of the stores. -/
theorem Agrees.eq_catalogOf (ha : Agrees p h c) : c = h.catalogOf p := by
  have hentries : ∀ s, (Table.ofList (h.listed p s)).entries = (c.table s).entries := by
    intro s
    rw [← ha.entries s]
    exact Table.entries_ofList (c.table s).distinct
  obtain ⟨schema, main, alterations, bases, n⟩ := c
  obtain rfl : schema = h.schema := ha.schema
  obtain rfl : n = h.nextSerial := ha.serial
  have hmain : main = .ofList _ := Table.ext (hentries .main).symm
  have halterations : alterations = .ofList _ := Table.ext (hentries .alterations).symm
  have hbases : bases = .ofList _ := Table.ext (hentries .bases).symm
  rw [catalogOf, ← hmain, ← halterations, ← hbases]

/-- What agrees at all names but one that is not held agrees at all names. -/
theorem Agrees.everywhere (ha : Agrees (· ≠ g) h c) (hb : Backed h) (hg : ¬ h.Holds g) :
    Agrees (fun _ => true) h c where
  schema := ha.schema
  serial := ha.serial
  entries s := by
    rw [ha.entries]
    unfold listed keyed
    rw [List.filter_congr fun x hx => ?_]
    have hne : x.element.name ≠ g := fun he => hg ⟨s, x, hx, he⟩
    simpa using hne
  remembered k _ := by
    by_cases hk : k.element = g
    · have hm : h.remembered k = none := Option.eq_none_iff_forall_ne_some.2 fun x hx =>
        hg (hk ▸ hb k x hx)
      have ht : (c.table k.store).get? (k.inStore .main) = none := by
        refine Option.eq_none_iff_forall_ne_some.2 fun x hx => ?_
        obtain ⟨hmem, -, hkey⟩ := ha.get?_iff.1 hx
        have hn : x.element.name = g := (congrArg ElementKey.element hkey).trans hk
        exact hg ⟨_, x, hmem, hn⟩
      rw [hm, ht]
    · exact ha.remembered k (by simpa using hk)

end

end Holdings

/-- No grouping elements are held. -/
def Inventory.Ungrouped (i : Inventory) : Prop :=
  ∀ s, ∀ x ∈ (i.holdings.store s).handles, x.element.name ≠ i.conventions.groupingElement

theorem Reachable.agrees_catalog {w : Workspace} (hw : Reachable w) (hu : w.inventory.Ungrouped) :
    Agrees (fun _ => true) w.inventory.holdings w.inventory.holdings.catalog := by
  obtain ⟨c, ha⟩ := hw.agrees (p := (· ≠ w.inventory.conventions.groupingElement)) (by simp)
  have ha' := ha.everywhere hw.backed fun ⟨s, x, hx, hn⟩ => hu s x hx hn
  rwa [catalog, ← ha'.eq_catalogOf]

/-! ## Operations -/

/-- An element that is added, or a lookup. -/
inductive Operation where
  /-- An element is made and added. -/
  | add (e : Element)
  /-- An element is added that is known elsewhere too. -/
  | addShared (node : Handle)
  | getElement (name : String) (values : List (Option String))
  | getAlteration (name : String) (values : List (Option String))
  | getBase (name : String) (values : List (Option String))

/-- What an operation answers: an error, or the element that was found. -/
abbrev Answer := Except InventoryError (Option Handle)

/-- An element that is added is no answer. -/
def Answer.ofAdd : Except InventoryError Unit → Answer
  | .ok _ => .ok none
  | .error e => .error e

/-- The answer of an inventory to an operation. -/
def Inventory.perform (i : Inventory) : Operation → Answer × Inventory
  | .add e => let r := (i.mint e).2.add (i.mint e).1; (.ofAdd r.1, r.2)
  | .addShared node => let r := i.add node; (.ofAdd r.1, r.2)
  | .getElement name values => let r := i.getElement name values; (.ok r.1, r.2)
  | .getAlteration name values => let r := i.getAlteration name values; (.ok r.1, r.2)
  | .getBase name values => let r := i.getBase name values; (.ok r.1, r.2)

/-- The answers to operations, one after the other. -/
def Inventory.performAll (i : Inventory) : List Operation → List Answer × Inventory
  | [] => ([], i)
  | op :: ops =>
    let r := (i.perform op).2.performAll ops
    ((i.perform op).1 :: r.1, r.2)

/-- Whether the elements that are added are ones that were made before. -/
def Inventory.Allows (i : Inventory) : List Operation → Prop
  | [] => True
  | .addShared node :: ops => i.holdings.Admits node ∧ (i.perform (.addShared node)).2.Allows ops
  | op :: ops => (i.perform op).2.Allows ops

namespace Catalog

/-- The answer of a catalog to an operation. -/
def perform (c : Catalog) : Operation → Answer × Catalog
  | .add e => let r := (c.mint e).2.add (c.mint e).1; (.ofAdd r.1, r.2)
  | .addShared node => let r := c.add node; (.ofAdd r.1, r.2)
  | .getElement name values => let r := c.getElement name values; (.ok r.1, r.2)
  | .getAlteration name values => let r := c.getAlteration name values; (.ok r.1, r.2)
  | .getBase name values => let r := c.getBase name values; (.ok r.1, r.2)

/-- The answers to operations, one after the other. -/
def performAll (c : Catalog) : List Operation → List Answer × Catalog
  | [] => ([], c)
  | op :: ops =>
    let r := (c.perform op).2.performAll ops
    ((c.perform op).1 :: r.1, r.2)

end Catalog

section
variable {i : Inventory} {c : Catalog} {op : Operation} {ops : List Operation}

/-- One operation gets the same answer. -/
theorem Holdings.Agrees.perform (ha : Agrees (fun _ => true) i.holdings c)
    (hc : Coherent [] i.holdings) (ho : i.Allows (op :: ops)) :
    (i.perform op).1 = (c.perform op).1 ∧ (i.perform op).2.Allows ops ∧
      Coherent [] (i.perform op).2.holdings ∧
      Agrees (fun _ => true) (i.perform op).2.holdings (c.perform op).2 := by
  cases op with
  | add e =>
    have hc' := hc.make (x := .fresh i.holdings.nextSerial e) rfl
    have hx : (c.mint e).1 = .fresh i.holdings.nextSerial e := by rw [Catalog.mint, ha.serial]
    obtain ⟨hans, ha'⟩ := ha.make.add hc' rfl
    simp only [Catalog.perform, hx]
    exact ⟨congrArg Answer.ofAdd hans, ho, hc'.add.leave, ha'⟩
  | addShared node =>
    have hc' := ho.1.coherent hc
    obtain ⟨hans, ha'⟩ := ha.add hc' rfl
    exact ⟨congrArg Answer.ofAdd hans, ho.2, hc'.add.leave, ha'⟩
  | getElement name values =>
    obtain ⟨hans, ha'⟩ := ha.getElement hc rfl values
    exact ⟨congrArg Except.ok hans, ho, hc.resolve, ha'⟩
  | getAlteration name values =>
    obtain ⟨hans, ha'⟩ := ha.getAlteration rfl values
    exact ⟨congrArg Except.ok hans, ho, hc.findIn, ha'⟩
  | getBase name values =>
    obtain ⟨hans, ha'⟩ := ha.getBase hc rfl values
    exact ⟨congrArg Except.ok hans, ho, (leads_getBase (g := "") _ name values).coherent hc, ha'⟩

theorem Holdings.Agrees.performAll (ha : Agrees (fun _ => true) i.holdings c)
    (hc : Coherent [] i.holdings) (ho : i.Allows ops) :
    (i.performAll ops).1 = (c.performAll ops).1 ∧ Coherent [] (i.performAll ops).2.holdings ∧
      Agrees (fun _ => true) (i.performAll ops).2.holdings (c.performAll ops).2 := by
  induction ops generalizing i c with
  | nil => exact ⟨rfl, hc, ha⟩
  | cons op ops ih =>
    obtain ⟨hans, ho', hc', ha'⟩ := ha.perform hc ho
    obtain ⟨hrest, ha''⟩ := ih ha' hc' ho'
    exact ⟨List.cons_eq_cons.2 ⟨hans, hrest⟩, ha''⟩

/-- Elements that are served are the main table, in its order. -/
theorem Holdings.Agrees.handles_main {h : Holdings} (ha : Agrees (fun _ => true) h c) :
    h.main.handles = c.main.entries.map Prod.snd := by
  have hm := ha.entries .main
  change c.main.entries = keyed (fun _ => true) _ h.main.handles at hm
  rw [hm, keyed, List.map_map, List.filter_eq_self.2 fun _ _ => rfl]
  exact (List.map_id h.main.handles).symm

end

/-- An inventory that holds no grouping elements answers every sequence of
operations as three tables do, and serves their elements in their order. -/
theorem answers_eq_catalog {w : Workspace} (hw : Reachable w) (hu : w.inventory.Ungrouped)
    {ops : List Operation} (ho : w.inventory.Allows ops) :
    (w.inventory.performAll ops).1 = (w.inventory.holdings.catalog.performAll ops).1 ∧
      (w.inventory.performAll ops).2.holdings.main.handles =
        (w.inventory.holdings.catalog.performAll ops).2.main.entries.map Prod.snd ∧
      (w.inventory.performAll ops).2.elements =
        (w.inventory.holdings.catalog.performAll ops).2.main.entries.map (·.2.element) := by
  obtain ⟨hans, -, ha⟩ := (hw.agrees_catalog hu).performAll hw.coherent ho
  have hm := ha.handles_main
  refine ⟨hans, hm, ?_⟩
  rw [Inventory.elements, Store.elements, hm, List.map_map]
  rfl

theorem ungrouped_ofParts : Workspace.ofParts.inventory.Ungrouped := by
  have hmain : Workspace.ofParts.inventory.holdings.main.handles = [.fresh 0 redPart] := rfl
  have halt : Workspace.ofParts.inventory.holdings.alterations.handles = [.fresh 1 shortPart] := rfl
  have hbases : Workspace.ofParts.inventory.holdings.bases.handles = [] := rfl
  intro s x hx
  cases s with
  | main =>
    rw [Holdings.store, hmain, List.mem_singleton] at hx
    subst hx
    decide
  | alterations =>
    rw [Holdings.store, halt, List.mem_singleton] at hx
    subst hx
    decide
  | bases =>
    rw [Holdings.store, hbases] at hx
    cases hx

theorem answers_eq_catalog_ofParts :
    (Workspace.ofParts.inventory.performAll
      [.getElement "part" [some "SHORT"], .add redPart, .getBase "part" [some "short"]]).1 =
      (Workspace.ofParts.inventory.holdings.catalog.performAll
        [.getElement "part" [some "SHORT"], .add redPart, .getBase "part" [some "short"]]).1 :=
  (answers_eq_catalog reachable_ofParts ungrouped_ofParts (by trivial)).1

/-! ## Stores and memory -/

/-- What a store holds of names other than `g` has keys of its own, and the
memory knows exactly this. -/
structure Holdings.Remembers (h : Holdings) (g : String) (s : StoreId) : Prop where
  distinct : (((h.store s).handles.filter (·.element.name ≠ g)).map
    (h.schema.keyOf ·.element)).Nodup
  found : ∀ x ∈ (h.store s).handles, x.element.name ≠ g →
    h.cache.get ((h.schema.keyOf x.element).inStore s) = .found x
  held : ∀ k x, k.store = s → k.element ≠ g → h.cache.get k = .found x →
    x ∈ (h.store s).handles ∧ (h.schema.keyOf x.element).inStore s = k
  missing : ∀ k, k.store = s → k.element ≠ g → h.cache.get k = .miss →
    ∀ x ∈ (h.store s).handles, (h.schema.keyOf x.element).inStore s ≠ k

theorem Holdings.remembered_eq_some {h : Holdings} {k : ElementKey} {x : Handle} :
    h.remembered k = some x ↔ h.cache.get k = .found x := by
  unfold Holdings.remembered
  cases h.cache.get k <;> simp [Lookup.found?]

theorem Holdings.Agrees.remembers {h : Holdings} {c : Catalog} {g : String}
    (ha : Agrees (· ≠ g) h c) (s : StoreId) : h.Remembers g s := by
  have hfound : ∀ x ∈ (h.store s).handles, x.element.name ≠ g →
      h.cache.get ((h.schema.keyOf x.element).inStore s) = .found x := by
    intro x hx hn
    have hp : decide (x.element.name ≠ g) = true := by simpa using hn
    rw [← remembered_eq_some, ha.remembered _ hp]
    exact ha.get?_iff.2 ⟨hx, hp, rfl⟩
  refine ⟨?_, hfound, fun k x hs hk hx => ?_, fun k hs hk hm x hx he => ?_⟩
  · have hd := (c.table s).distinct
    rw [ha.entries, listed, keyed, List.map_map] at hd
    exact hd
  · subst hs
    rw [← remembered_eq_some, ha.remembered k (by simpa using hk)] at hx
    obtain ⟨hmem, -, hkey⟩ := ha.get?_iff.1 hx
    exact ⟨hmem, by rw [hkey]; rfl⟩
  · have hn : x.element.name ≠ g := fun h => hk (he ▸ h)
    have := hfound x hx hn
    rw [he, hm] at this
    cases this

/-- In every reachable state the stores and the memory agree on all elements but
grouping elements. In particular nothing that is held is remembered to be
missing. -/
theorem stores_eq_memory {w : Workspace} (hw : Reachable w) (s : StoreId) :
    w.inventory.holdings.Remembers w.inventory.conventions.groupingElement s := by
  obtain ⟨c, ha⟩ := hw.agrees (p := (· ≠ w.inventory.conventions.groupingElement)) (by simp)
  exact ha.remembers s

theorem stores_eq_memory_ofParts :
    Workspace.ofParts.inventory.holdings.alterations.handles.length = 1 ∧
      Workspace.ofParts.inventory.holdings.Remembers "layoutType" .alterations :=
  ⟨rfl, stores_eq_memory reachable_ofParts .alterations⟩

end TemplateInventory
