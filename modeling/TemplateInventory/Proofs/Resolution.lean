import Mathlib.Logic.Relation
import TemplateInventory.Proofs.Reference
/-!
# What keys resolve to

`Catalog.Value c k v` says by recursion along bases what the key `k` stands for.
While no key waits for itself, a lookup of any key answers its value
(`value_resolve`), and what it serves on the way leaves the values of all keys as
they are (`Value.resolve`). So an element does not depend on the lookups before
it (`getElement_eq_value`).
-/

namespace TemplateInventory

open Holdings Relation

namespace Catalog

/-- Whether a key without element has an alteration that is based on `k'`. -/
def Waits (c : Catalog) (k k' : ElementKey) : Prop :=
  c.main.get? k = none ∧
    ∃ a, c.alterations.get? k = some a ∧ a.element.base.bind k.based = some k'

/-- An alteration with the value of its base, if that has one. -/
def unifyWith (schema : KeySchema) (alteration : Element) : Option Element → Element
  | some base => unify schema alteration base
  | none => alteration

/-- What a key stands for. -/
inductive Value (c : Catalog) : ElementKey → Option Element → Prop
  | served {k : ElementKey} {x : Handle} (hm : c.main.get? k = some x) : Value c k (some x.element)
  | missing {k : ElementKey} (hm : c.main.get? k = none) (ha : c.alterations.get? k = none) :
      Value c k none
  | alone {k : ElementKey} {a : Handle} (hm : c.main.get? k = none)
      (ha : c.alterations.get? k = some a) (hb : a.element.base.bind k.based = none) :
      Value c k (some a.element)
  | based {k k' : ElementKey} {a : Handle} {v : Option Element} (hm : c.main.get? k = none)
      (ha : c.alterations.get? k = some a) (hb : a.element.base.bind k.based = some k')
      (hv : Value c k' v) : Value c k (some (unifyWith c.schema a.element v))

section
variable {c c' : Catalog} {k k' q : ElementKey} {v v' : Option Element} {x a : Handle}
  {r r' : List ElementKey} {e : Element}

theorem element_settle (c : Catalog) (k : ElementKey) (a : Handle) (b : Option Handle) :
    (c.settle k a b).1.element = unifyWith c.schema a.element (b.map Handle.element) := by
  cases b <;> rfl

/-- A key stands for one thing at most. -/
theorem Value.unique (hv : c.Value k v) (hv' : c.Value k v') : v = v' := by
  induction hv generalizing v' with
  | served hm =>
    cases hv' with
    | served hm' => rw [hm] at hm'; cases hm'; rfl
    | missing hm' | alone hm' | based hm' => rw [hm] at hm'; cases hm'
  | missing hm ha =>
    cases hv' with
    | served hm' => rw [hm] at hm'; cases hm'
    | missing => rfl
    | alone _ ha' | based _ ha' => rw [ha] at ha'; cases ha'
  | alone hm ha hb =>
    cases hv' with
    | served hm' => rw [hm] at hm'; cases hm'
    | missing _ ha' => rw [ha] at ha'; cases ha'
    | alone _ ha' => rw [ha] at ha'; cases ha'; rfl
    | based _ ha' hb' => rw [ha] at ha'; cases ha'; rw [hb] at hb'; cases hb'
  | based hm ha hb _ ih =>
    cases hv' with
    | served hm' => rw [hm] at hm'; cases hm'
    | missing _ ha' => rw [ha] at ha'; cases ha'
    | alone _ ha' hb' => rw [ha] at ha'; cases ha'; rw [hb] at hb'; cases hb'
    | based _ ha' hb' hv' =>
      rw [ha] at ha'
      cases ha'
      rw [hb] at hb'
      cases hb'
      rw [ih hv']

/-- Serving the value of a key leaves every value as it is. -/
theorem Value.serve (hv : c.Value k v) (hq : c.Value q (some x.element))
    (hm : c'.main = c.main.put q x) (ha : c'.alterations = c.alterations)
    (hs : c'.schema = c.schema) : c'.Value k v := by
  have hserved : ∀ {w}, c.Value q w → c'.Value q w := fun hw => by
    rw [hw.unique hq]
    exact .served (by rw [hm, Table.get?_put, if_pos rfl])
  have hother : ∀ {k}, ¬ q = k → c'.main.get? k = c.main.get? k := fun hk => by
    rw [hm, Table.get?_put, if_neg hk]
  -- At `q` the value is what is served there now, elsewhere it comes about as before.
  induction hv with
  | @served k y hm' =>
    by_cases hk : q = k
    · exact hk ▸ hserved (hk ▸ .served hm')
    · exact .served ((hother hk).trans hm')
  | @missing k hm' ha' =>
    by_cases hk : q = k
    · exact hk ▸ hserved (hk ▸ .missing hm' ha')
    · exact .missing ((hother hk).trans hm') (ha ▸ ha')
  | @alone k b hm' ha' hb =>
    by_cases hk : q = k
    · exact hk ▸ hserved (hk ▸ .alone hm' ha' hb)
    · exact .alone ((hother hk).trans hm') (ha ▸ ha') hb
  | @based k k' b w hm' ha' hb hw ih =>
    by_cases hk : q = k
    · exact hk ▸ hserved (hk ▸ .based hm' ha' hb hw)
    · exact hs ▸ .based ((hother hk).trans hm') (ha ▸ ha') hb ih

/-! ## Keys that wait -/

theorem Grows.waits (hg : Grows c c') (hw : c'.Waits k k') : c.Waits k k' := by
  obtain ⟨hm, a, ha, hb⟩ := hw
  refine ⟨?_, a, hg.alterations ▸ ha, hb⟩
  cases hx : c.main.get? k with
  | none => rfl
  | some x => rw [hg.get? hx] at hm; cases hm

/-- A lookup depends only on those open keys that the key can wait for. -/
theorem resolve_congr (k : ElementKey)
    (hr : ∀ x, ReflTransGen c.Waits k x → (x ∈ r ↔ x ∈ r')) : c.resolve r k = c.resolve r' k := by
  induction r, k using resolve_induction (c := c) generalizing r' with
  | served hm => rw [resolve_served hm, resolve_served hm]
  | open_ hm hk => rw [resolve_open hm hk, resolve_open hm ((hr _ .refl).1 hk)]
  | missing hm ha => rw [resolve_missing hm ha, resolve_missing hm ha]
  | alone hm hk ha hb =>
    rw [resolve_alone hm hk ha hb, resolve_alone hm (fun h => hk ((hr _ .refl).2 h)) ha hb]
  | @based r k a k' hm hk ha hb ih =>
    have hih : c.resolve (k :: r) k' = c.resolve (k :: r') k' := ih fun x hx => by
      rw [List.mem_cons, List.mem_cons, hr x (.head ⟨hm, a, ha, hb⟩ hx)]
    rw [resolve_based hm hk ha hb, resolve_based hm (fun h => hk ((hr _ .refl).2 h)) ha hb, hih]

/-! ## Resolving answers values -/

/-- While no key waits for itself and the open keys do not matter, a lookup
answers the value of its key and keeps those of all keys. -/
theorem value_and_keeps (hacyclic : ∀ k, ¬ TransGen c.Waits k k) (k : ElementKey)
    (hr : ∀ x, ReflTransGen c.Waits k x → x ∉ r) :
    c.Value k ((c.resolve r k).1.map Handle.element) ∧
      ∀ q v, c.Value q v → (c.resolve r k).2.Value q v := by
  induction r, k using resolve_induction (c := c) with
  | served hm => rw [resolve_served hm]; exact ⟨.served hm, fun _ _ hv => hv⟩
  | open_ hm hk => exact absurd hk (hr _ .refl)
  | missing hm ha => rw [resolve_missing hm ha]; exact ⟨.missing hm ha, fun _ _ hv => hv⟩
  | alone hm hk ha hb =>
    rw [resolve_alone hm hk ha hb]
    exact ⟨.alone hm ha hb, fun q v hv => hv.serve (.alone hm ha hb) rfl rfl rfl⟩
  | @based r k a k' hm hk ha hb ih =>
    have hw : c.Waits k k' := ⟨hm, a, ha, hb⟩
    -- A key that is open and that the base waits for would wait for itself.
    obtain ⟨hv', hkeep⟩ := ih fun x hx hmem => by
      rcases List.mem_cons.1 hmem with rfl | hmem
      · exact hacyclic _ (.head' hw hx)
      · exact hr x (.head hw hx) hmem
    have hgrows := grows_resolve c (k :: r) k'
    have hv : c.Value k (some ((c.resolve (k :: r) k').2.settle k a
        (c.resolve (k :: r) k').1).1.element) := by
      rw [element_settle, hgrows.schema]
      exact .based hm ha hb hv'
    rw [resolve_based hm hk ha hb]
    refine ⟨hv, fun q v hq => (hkeep q v hq).serve (hkeep k _ hv) (main_settle _ _ _ _) ?_ ?_⟩
    · exact (grows_settle (get?_resolve_of_mem hm _ _ List.mem_cons_self) _ _).alterations
    · exact (grows_settle (get?_resolve_of_mem hm _ _ List.mem_cons_self) _ _).schema

theorem value_resolve (hacyclic : ∀ k, ¬ TransGen c.Waits k k) (k : ElementKey) :
    c.Value k ((c.resolve [] k).1.map Handle.element) :=
  (value_and_keeps hacyclic k fun _ _ => List.not_mem_nil).1

theorem Value.resolve (hv : c.Value q v) (hacyclic : ∀ k, ¬ TransGen c.Waits k k)
    (k : ElementKey) : (c.resolve [] k).2.Value q v :=
  (value_and_keeps hacyclic k fun _ _ => List.not_mem_nil).2 q v hv

/-- No key waits for itself where all bases are served. -/
theorem acyclic_of_served (h : ∀ k k', c.Waits k k' → (c.main.get? k').isSome = true)
    (k : ElementKey) : ¬ TransGen c.Waits k k := by
  intro hk
  obtain ⟨k', hw, -⟩ := TransGen.head'_iff.1 hk
  obtain ⟨k'', -, hw'⟩ := TransGen.tail'_iff.1 hk
  have hs := h k'' k hw'
  rw [hw.1] at hs
  cases hs

theorem Grows.acyclic (hg : Grows c c') (hacyclic : ∀ k, ¬ TransGen c.Waits k k) (k : ElementKey) :
    ¬ TransGen c'.Waits k k :=
  fun h => hacyclic k (TransGen.mono (fun _ _ => hg.waits) k k h)

end

end Catalog

/-! ## Runs of lookups -/

/-- Whether an operation adds nothing. -/
def Operation.IsLookup : Operation → Prop
  | .add _ => False
  | .addShared _ => False
  | .getElement _ _ => True
  | .getAlteration _ _ => True
  | .getBase _ _ => True

section
variable {c : Catalog} {op : Operation} {ops : List Operation} {q : ElementKey} {v : Option Element}

/-- A lookup resolves one key at most. -/
theorem Catalog.perform_lookup (h : op.IsLookup) :
    (c.perform op).2 = c ∨ ∃ k, (c.perform op).2 = (c.resolve [] k).2 := by
  cases op with
  | add e => exact h.elim
  | addShared node => exact h.elim
  | getElement name values => exact .inr ⟨_, rfl⟩
  | getAlteration name values => exact .inl rfl
  | getBase name values =>
    simp only [Catalog.perform, Catalog.getBase]
    split
    · exact .inl rfl
    · split
      · exact .inl rfl
      · split
        · exact .inl rfl
        · split
          · exact .inl rfl
          · exact .inr ⟨_, rfl⟩

/-- Lookups keep the values of all keys. -/
theorem Catalog.lookups_keep (hacyclic : ∀ k, ¬ TransGen c.Waits k k)
    (hops : ∀ op ∈ ops, op.IsLookup) :
    Catalog.Grows c (c.performAll ops).2 ∧
      ∀ q v, c.Value q v → (c.performAll ops).2.Value q v := by
  induction ops generalizing c with
  | nil => exact ⟨.refl c, fun _ _ hv => hv⟩
  | cons op ops ih =>
    have hstep : Catalog.Grows c (c.perform op).2 ∧
        ∀ q v, c.Value q v → (c.perform op).2.Value q v := by
      rcases perform_lookup (c := c) (hops op List.mem_cons_self) with he | ⟨k, he⟩
      · rw [he]
        exact ⟨.refl c, fun _ _ hv => hv⟩
      · rw [he]
        exact ⟨grows_resolve c [] k, fun _ _ hv => hv.resolve hacyclic k⟩
    obtain ⟨hg, hkeep⟩ := ih (hstep.1.acyclic hacyclic) fun op hop =>
      hops op (List.mem_cons_of_mem _ hop)
    exact ⟨hstep.1.trans hg, fun q v hv => hkeep q v (hstep.2 q v hv)⟩

theorem Inventory.allows_lookups {i : Inventory} (hops : ∀ op ∈ ops, op.IsLookup) :
    i.Allows ops := by
  induction ops generalizing i with
  | nil => trivial
  | cons op ops ih =>
    have hrest : (i.perform op).2.Allows ops := ih fun op hop =>
      hops op (List.mem_cons_of_mem _ hop)
    cases op with
    | addShared node => exact (hops _ List.mem_cons_self).elim
    | _ => exact hrest

end

/-- In a reachable state without grouping elements in which no key waits for
itself, every key stands for one thing, and that is what a lookup of it answers
after any other lookups. -/
theorem getElement_eq_value {w : Workspace} (hw : Reachable w) (hu : w.inventory.Ungrouped)
    (hacyclic : ∀ k, ¬ TransGen w.inventory.holdings.catalog.Waits k k) (name : String)
    (values : List (Option String)) :
    ∃ v, w.inventory.holdings.catalog.Value (.of name (w.inventory.schema.fit name values) .main) v ∧
      (∀ v', w.inventory.holdings.catalog.Value
        (.of name (w.inventory.schema.fit name values) .main) v' → v' = v) ∧
      ∀ ops : List Operation, (∀ op ∈ ops, op.IsLookup) →
        ((w.inventory.performAll ops).2.getElement name values).1.map Handle.element = v := by
  refine ⟨_, Catalog.value_resolve hacyclic _, fun v' hv' => hv'.unique (Catalog.value_resolve
    hacyclic _), fun ops hops => ?_⟩
  obtain ⟨-, hc, ha⟩ := (hw.agrees_catalog hu).performAll hw.coherent
    (Inventory.allows_lookups hops)
  -- The value is that of the catalog at the start, and lookups keep it.
  obtain ⟨hg, hkeep⟩ := Catalog.lookups_keep hacyclic hops
  have hkept := hkeep _ _ (Catalog.value_resolve hacyclic
    (.of name (w.inventory.schema.fit name values) .main))
  have hfit : w.inventory.schema = (w.inventory.holdings.catalog.performAll ops).2.schema :=
    hg.schema.symm
  rw [hfit] at hkept ⊢
  have hans : ((w.inventory.performAll ops).2.holdings.getElement name values).1 = _ :=
    (ha.getElement hc rfl values).1
  change Option.map _ ((w.inventory.performAll ops).2.holdings.getElement name values).1 = _
  rw [hans]
  exact (Catalog.value_resolve (hg.acyclic hacyclic) _).unique hkept

theorem alterations_ofParts : Workspace.ofParts.inventory.holdings.catalog.alterations.entries =
    [(KeySchema.parts.keyOf shortPart, .fresh 1 shortPart)] := rfl

theorem based_shortPart : (Handle.fresh 1 shortPart).element.base.bind
    (KeySchema.parts.keyOf shortPart).based = some (KeySchema.parts.keyOf redPart) := by
  decide

theorem acyclic_ofParts (k : ElementKey) :
    ¬ TransGen Workspace.ofParts.inventory.holdings.catalog.Waits k k := by
  refine Catalog.acyclic_of_served (fun k k' ⟨_, a, ha, hb⟩ => ?_) k
  have hmem := Table.mem_entries_iff.2 ha
  rw [alterations_ofParts, List.mem_singleton] at hmem
  cases hmem
  rw [based_shortPart] at hb
  cases hb
  decide

theorem getElement_eq_value_ofParts :
    ((Workspace.ofParts.inventory.performAll [.getBase "part" [some "short"]]).2.getElement "part"
      [some "Short"]).1.map Handle.element = some (unify .parts shortPart redPart) := by
  obtain ⟨v, -, huniq, hops⟩ := getElement_eq_value reachable_ofParts ungrouped_ofParts
    acyclic_ofParts "part" [some "Short"]
  have hkey : ElementKey.of "part" (Workspace.ofParts.inventory.schema.fit "part" [some "Short"]) .main =
      KeySchema.parts.keyOf shortPart := by decide +kernel
  have hred : Workspace.ofParts.inventory.holdings.catalog.main.get? (KeySchema.parts.keyOf redPart) =
      some (.fresh 0 redPart) := rfl
  rw [hops _ (by simp [Operation.IsLookup])]
  refine (huniq _ ?_).symm
  rw [hkey]
  refine .based (Option.isNone_iff_eq_none.1 (by decide +kernel)) (Table.mem_entries_iff.1 ?_)
    based_shortPart (.served hred)
  rw [alterations_ofParts]
  exact List.mem_cons_self

end TemplateInventory
