import TemplateInventory.Proofs.Catalog
import TemplateInventory.Proofs.Names
/-!
# Holdings and catalogs

Holdings find elements by a memory with three states and a search that minds
letter case, and replace them by identity; a catalog has tables. `Agrees p h c`
relates the two for the names that meet `p`: the stores are the entries of the
tables, in order, and the memory knows exactly what they have.

Coherent holdings and a catalog that agree give equal answers and agree again
after every lookup (`Agrees.findIn`, `Agrees.resolve`) and add (`Agrees.add`).
Misses never matter, and searches never find anything: whatever the stores have
is remembered.
-/

namespace TemplateInventory

namespace Holdings

/-- A catalog has what is held of the names that meet `p`. -/
structure Agrees (p : String → Bool) (h : Holdings) (c : Catalog) : Prop where
  schema : c.schema = h.schema
  serial : c.nextSerial = h.nextSerial
  entries : ∀ s, (c.table s).entries = h.listed p s
  remembered : ∀ k, p k.element = true →
    h.remembered k = (c.table k.store).get? (k.inStore .main)

/-- Within a store, what is the same is one element. -/
def Alike (h : Holdings) (s : StoreId) (x : Handle) : Prop :=
  ∀ y ∈ (h.store s).handles, y.same x = true → y.element = x.element

theorem Coherent.alike {outside : List Handle} {h : Holdings} {s : StoreId} {x : Handle}
    (hc : Coherent outside h) (hx : h.Sees x) : h.Alike s x :=
  fun _ hy he => hc.element_eq (.inr hx) (.inr (.inl ⟨s, hy⟩)) he

namespace Agrees

section
variable {p : String → Bool} {h h' : Holdings} {c : Catalog} {s : StoreId} {k : ElementKey}
  {x a node : Handle} {outside : List Handle}

theorem empty (p : String → Bool) (schema : KeySchema) :
    Agrees p (.empty schema) (.empty schema) :=
  ⟨rfl, rfl, fun s => by cases s <;> rfl, fun k _ => by cases hk : k.store <;> rfl⟩

theorem beside (ha : Agrees p h c) (hb : Beside p h h') :
    Agrees p h' { c with nextSerial := h'.nextSerial } where
  schema := ha.schema.trans hb.schema.symm
  serial := rfl
  entries s := by rw [hb.listed, ← ha.entries]; cases s <;> rfl
  remembered k hk := by rw [hb.remembered k hk, ha.remembered k hk]; cases k.store <;> rfl

theorem make (ha : Agrees p h c) : Agrees p { h with nextSerial := h.nextSerial + 1 }
    { c with nextSerial := c.nextSerial + 1 } := by
  rw [ha.serial]
  exact ha.beside (Beside.serial (h.nextSerial + 1))

/-- A table has the elements of its store by their keys. -/
theorem get?_iff (ha : Agrees p h c) : (c.table s).get? k = some x ↔
    x ∈ (h.store s).handles ∧ p x.element.name = true ∧ h.schema.keyOf x.element = k := by
  rw [← Table.mem_entries_iff, ha.entries, listed, mem_keyed]

theorem sees (ha : Agrees p h c) (hx : (c.table s).get? k = some x) : h.Sees x :=
  .inl ⟨s, (ha.get?_iff.1 hx).1⟩

/-- What is the same as the element of a key is what has the key. -/
theorem same_iff (ha : Agrees p h c) (hs : h.Alike s x) (hx : (c.table s).get? k = some x) :
    ∀ y ∈ (h.store s).handles,
      y.same x = true ↔ p y.element.name = true ∧ h.schema.keyOf y.element = k := by
  refine Store.same_iff (ha.entries s).symm hx hs fun y he => ?_
  rw [he]
  exact ⟨rfl, rfl⟩

/-! ## Single changes -/

variable {o : Option Handle}

/-- Replacing by identity is putting at the key. -/
theorem entries_replace (ha : Agrees p h c) (hx : (c.table s).get? k = o)
    (hs : ∀ x, o = some x → h.Alike s x) (hp : p node.element.name = true)
    (hk : h.schema.keyOf node.element = k) :
    keyed (fun x => p x.element.name) (fun x => h.schema.keyOf x.element)
      ((h.store s).replace o node).handles = ((c.table s).put k node).entries := by
  refine Store.keyed_replace_get? (ha.entries s).symm hx (fun x ho => ?_) hp hk
  exact ha.same_iff (hs x ho) (hx.trans ho)

/-- An element that takes the place of what is remembered of its key. -/
theorem put (ha : Agrees p h c) (hx : (c.table s).get? k = o)
    (hs : ∀ x, o = some x → h.Alike s x) (hp : p node.element.name = true)
    (hk : h.schema.keyOf node.element = k) :
    Agrees p ((h.setStore s ((h.store s).replace o node)).remember (k.inStore s) (some node))
      (c.setTable s ((c.table s).put k node)) where
  schema := by rw [schema_remember, schema_setStore, Catalog.schema_setTable, ha.schema]
  serial := by rw [nextSerial_remember, nextSerial_setStore, Catalog.nextSerial_setTable, ha.serial]
  entries s' := by
    rw [Catalog.table_setTable, listed, schema_remember, schema_setStore, store_remember,
      store_setStore]
    split
    · exact (ha.entries_replace hx hs hp hk).symm
    · exact ha.entries s'
  remembered k' hk' := by
    rw [remembered_remember, Catalog.table_setTable, remembered_setStore, ha.remembered k' hk']
    have hmain : k.inStore .main = k := hk ▸ rfl
    by_cases hs' : s = k'.store
    · subst hs'
      rw [if_pos rfl, Table.get?_put]
      by_cases he : k = k'.inStore .main
      · rw [if_pos he, if_pos (by rw [he]; rfl)]
      · rw [if_neg he, if_neg (fun h => he (by rw [← h]; exact hmain.symm))]
    · rw [if_neg hs', if_neg (fun h => hs' (by rw [← h]; rfl))]

/-- An element that is taken away, and remembered to be away. -/
theorem erase (ha : Agrees p h c) (hs : h.Alike .main x) (hx : c.main.get? k = some x)
    (hk : k.store = .main) :
    Agrees p ({ h with main := h.main.remove x }.remember k none)
      { c with main := c.main.erase k } where
  schema := ha.schema
  serial := ha.serial
  entries s := by
    cases s with
    | main =>
      change eraseEntry k (c.table .main).entries = _
      rw [ha.entries]
      exact (Store.keyed_remove (ha.same_iff hs hx)).symm
    | alterations => exact ha.entries .alterations
    | bases => exact ha.entries .bases
  remembered k' hk' := by
    rw [remembered_remember]
    change (if k = k' then none else h.remembered k') = _
    rw [ha.remembered k' hk']
    obtain ⟨n, vs, st⟩ := k
    obtain ⟨n', vs', st'⟩ := k'
    subst hk
    cases st' <;> simp [Catalog.table, ElementKey.inStore]

/-! ## Lookups -/

variable {name : String} {values : List (Option String)} {r : List ElementKey}

/-- A search that gives a value for each key attribute finds only what has the
key. -/
theorem get?_of_search (ha : Agrees p h c) (hp : p name = true)
    (hv : values.length = (h.schema.attrsFor name).length)
    (hx : h.search s name values = some x) :
    (c.table s).get? (.of name values .main) = some x := by
  have hn := name_of_search hx
  refine ha.get?_iff.2 ⟨mem_of_search hx, hn ▸ hp, ?_⟩
  rw [KeySchema.keyOf, valuesOf_of_search hv hx, hn]

/-- Finding in a store is reading its table, which stays. -/
theorem findIn (ha : Agrees p h c) (hp : p name = true)
    (hv : values.length = (h.schema.attrsFor name).length) :
    (h.findIn s name values).1 = (c.table s).get? (.of name values .main) ∧
      Agrees p (h.findIn s name values).2 c := by
  have hr : h.remembered (.of name values s) = (c.table s).get? (.of name values .main) :=
    ha.remembered (.of name values s) hp
  have hans : (h.findIn s name values).1 = (c.table s).get? (.of name values .main) := by
    cases hx : (c.table s).get? (.of name values .main) with
    | some x => exact findIn_remembered (hr.trans hx)
    | none =>
      refine Option.eq_none_iff_forall_ne_some.2 fun y hy => ?_
      rcases remembered_or_search hy with hy | hy
      · rw [hr, hx] at hy
        cases hy
      · rw [ha.get?_of_search hp hv hy] at hx
        cases hx
  refine ⟨hans, ⟨ha.schema.trans (schema_findIn h s name values).symm,
    ha.serial.trans (nextSerial_findIn h s name values).symm, fun s' => ?_, fun k hk => ?_⟩⟩
  · rw [ha.entries, listed, listed, schema_findIn, store_findIn]
  · rw [remembered_findIn]
    split
    · next he => subst he; exact hans
    · exact ha.remembered k hk

theorem afterFind (ha : Agrees p h c) (hp : p name = true)
    (hv : values.length = (h.schema.attrsFor name).length) :
    (h.findIn .main name values).1 = c.main.get? (.of name values .main) ∧
      ((h.findIn .main name values).2.findIn .alterations name values).1 =
        c.alterations.get? (.of name values .main) ∧
      Agrees p (h.afterFind name values) c := by
  obtain ⟨hm, ha'⟩ := ha.findIn (s := .main) hp hv
  exact ⟨hm, ha'.findIn (s := .alterations) hp (by rwa [schema_findIn])⟩

theorem identified (ha : Agrees p h c) (hc : Coherent outside h)
    (hx : c.alterations.get? k = some a) : (h.schema.identityOf a.element).isSome = true :=
  hc.identified a ((ha.get?_iff (s := .alterations)).1 hx).1

/-- What joins the elements that are served, at a key where nothing is. -/
theorem serve (ha : Agrees p h c) (hm : c.main.get? k = none) (hp : p node.element.name = true)
    (hk : h.schema.keyOf node.element = k) :
    Agrees p ({ h with main := h.main.push node }.remember k (some node))
      { c with main := c.main.put k node } := by
  have hmain : k.inStore .main = k := hk ▸ rfl
  have hput := ha.put (s := .main) hm nofun hp hk
  rwa [hmain] at hput

/-- Serving an alteration that is held at its key, with the base that was found. -/
theorem settle (ha : Agrees p h c) (hm : c.main.get? k = none)
    (hx : c.alterations.get? k = some a) (hi : (h.schema.identityOf a.element).isSome = true)
    (hb : ∀ b, o = some b → ∃ base, k.based base = some (h.schema.keyOf b.element)) :
    (h.settle k a o).1 = (c.settle k a o).1 ∧
      Agrees p (h.settle k a o).2 (c.settle k a o).2 := by
  obtain ⟨-, hp, hk⟩ := (ha.get?_iff (s := .alterations)).1 hx
  cases o with
  | none => exact ⟨rfl, ha.serve hm hp hk⟩
  | some b =>
    obtain ⟨base, hbase⟩ := hb b rfl
    have hx' : Handle.unify h.schema h.nextSerial a b = Handle.unify c.schema c.nextSerial a b := by
      rw [ha.schema, ha.serial]
    -- What an alteration inherits never changes its key, because it has an identity.
    have hkey : h.schema.keyOf (unify h.schema a.element b.element) = k :=
      (keyOf_unify hi (hk.symm ▸ hbase)).trans hk
    refine ⟨hx', ?_⟩
    simp only [Catalog.settle, ← hx']
    exact ha.make.serve hm ((congrArg p (name_unify _ _ _)).trans hp) hkey

/-- The base that was resolved for a key has the key that the `base` leads to. -/
theorem based {c' : Catalog} {k' : ElementKey} {base? : Option String}
    (ha : Agrees p h (c'.resolve r k').2) (hb : base?.bind k.based = some k')
    (hx : (c'.resolve r k').1 = some x) :
    ∃ base, k.based base = some (h.schema.keyOf x.element) := by
  obtain ⟨base, -, hbase⟩ := Option.bind_eq_some_iff.1 hb
  have hkey := ((ha.get?_iff (s := .main)).1 (Catalog.get?_resolve hx)).2.2
  exact ⟨base, by rw [hbase, hkey]⟩

/-- Resolving goes through the stores as it goes through the tables. -/
theorem resolve (hc : Coherent outside h) (ha : Agrees p h c) (hp : p name = true)
    (hv : values.length = (h.schema.attrsFor name).length) :
    (h.resolve r name values).1 = (c.resolve r (.of name values .main)).1 ∧
      Agrees p (h.resolve r name values).2 (c.resolve r (.of name values .main)).2 := by
  induction h, r, values using resolve_induction (n := name) generalizing outside c with
  | found hm =>
    obtain ⟨hans, ha'⟩ := ha.findIn (s := .main) hp hv
    rw [resolve_found hm, Catalog.resolve_served (hans.symm.trans hm)]
    exact ⟨rfl, ha'⟩
  | open_ hm hk =>
    obtain ⟨hans, ha'⟩ := ha.findIn (s := .main) hp hv
    rw [resolve_open hm hk, Catalog.resolve_open (hans.symm.trans hm) hk]
    exact ⟨rfl, ha'⟩
  | missing hm hk hx =>
    obtain ⟨hm', hx', ha'⟩ := ha.afterFind hp hv
    rw [resolve_missing hm hk hx, Catalog.resolve_missing (hm'.symm.trans hm) (hx'.symm.trans hx)]
    exact ⟨rfl, ha'⟩
  | alone hm hk hx hb =>
    obtain ⟨hm', hx', ha'⟩ := ha.afterFind hp hv
    rw [hm] at hm'
    rw [hx] at hx'
    rw [resolve_alone hm hk hx hb, Catalog.resolve_alone hm'.symm hk hx'.symm
      (by rw [bind_based, hb]; rfl)]
    obtain ⟨hans, ha''⟩ := ha'.settle hm'.symm hx'.symm (ha'.identified hc.afterFind hx'.symm)
      (o := none) nofun
    exact ⟨congrArg some hans, ha''⟩
  | @based h r values a values' hm hk hx hb ih =>
    obtain ⟨hm', hx', ha'⟩ := ha.afterFind hp hv
    rw [hm] at hm'
    rw [hx] at hx'
    have hb' : a.element.base.bind (ElementKey.of name values .main).based =
        some (.of name values' .main) := by rw [bind_based, hb]; rfl
    rw [resolve_based hm hk hx hb, Catalog.resolve_based hm'.symm hk hx'.symm hb']
    have hv' : values'.length = ((h.afterFind name values).schema.attrsFor name).length := by
      obtain ⟨base, -, hbase⟩ := Option.bind_eq_some_iff.1 hb
      rw [length_baseValues hbase, hv, schema_afterFind]
    obtain ⟨hans, ha''⟩ := ih hc.afterFind ha' hv'
    -- The key itself is open while its base is resolved, so it is not served meanwhile, also not
    -- on a cycle.
    have hopen := Catalog.get?_resolve_of_mem hm'.symm (.of name values .main :: r)
      (.of name values' .main) List.mem_cons_self
    have hgrows := Catalog.grows_resolve c (.of name values .main :: r) (.of name values' .main)
    have hx'' := hgrows.alterations ▸ hx'.symm
    obtain ⟨hans', ha'''⟩ := ha''.settle hopen hx'' (ha''.identified hc.afterFind.resolve hx'')
      fun b hb₁ => ha''.based hb' hb₁
    simp only [hans]
    exact ⟨congrArg some hans', ha'''⟩

theorem getElement (hc : Coherent outside h) (ha : Agrees p h c) (hp : p name = true)
    (values : List (Option String)) :
    (h.getElement name values).1 = (c.getElement name values).1 ∧
      Agrees p (h.getElement name values).2 (c.getElement name values).2 := by
  unfold Holdings.getElement Catalog.getElement
  rw [ha.schema]
  exact ha.resolve hc hp (KeySchema.length_fit _ _ _)

theorem getAlteration (ha : Agrees p h c) (hp : p name = true) (values : List (Option String)) :
    (h.getAlteration name values).1 = (c.getAlteration name values).1 ∧
      Agrees p (h.getAlteration name values).2 (c.getAlteration name values).2 := by
  unfold Holdings.getAlteration Catalog.getAlteration
  rw [ha.schema]
  exact ha.findIn (s := .alterations) hp (KeySchema.length_fit _ _ _)

theorem getBase (hc : Coherent outside h) (ha : Agrees p h c) (hp : p name = true)
    (values : List (Option String)) :
    (h.getBase name values).1 = (c.getBase name values).1 ∧
      Agrees p (h.getBase name values).2 (c.getBase name values).2 := by
  have hv := KeySchema.length_fit h.schema name values
  unfold Holdings.getBase Catalog.getBase
  rw [ha.schema]
  obtain ⟨hans, ha'⟩ := ha.findIn (s := .alterations) hp hv
  rcases hf : h.findIn .alterations name (h.schema.fit name values) with ⟨_ | a, h'⟩
  all_goals
    rw [hf] at hans ha'
    have hx : c.alterations.get? (.of name (h.schema.fit name values) .main) = _ := hans.symm
    simp only [hf, hx]
  · exact ⟨trivial, ha'⟩
  · have hs : h'.schema = h.schema := by
      rw [← schema_findIn h .alterations name (h.schema.fit name values), hf]
    have hc' : Coherent outside h' := by
      have : Coherent outside (h.findIn .alterations name (h.schema.fit name values)).2 := hc.findIn
      rwa [hf] at this
    cases hbase : a.element.base with
    | none => exact ⟨rfl, ha'⟩
    | some base =>
      have hb := map_baseValues name (h.schema.fit name values) base .main
      cases hvs : baseValues (h.schema.fit name values) base with
      | none =>
        rw [hvs] at hb
        simp only [hvs, ← hb]
        exact ⟨rfl, ha'⟩
      | some values' =>
        rw [hvs] at hb
        have hv' : values'.length = (h'.schema.attrsFor name).length := by
          rw [length_baseValues hvs, hv, hs]
        simp only [hvs, ← hb, Option.map_some, hs]
        split
        · exact ha'.findIn (s := .bases) hp hv'
        · exact ha'.resolve hc' hp hv'

/-! ## Adding -/

theorem addPlain (hc : Coherent outside h) (ha : Agrees p h c) (hp : p node.element.name = true) :
    Agrees p (h.addPlain (h.schema.keyOf node.element) node)
      { c with main := c.main.put (h.schema.keyOf node.element) node } := by
  unfold Holdings.addPlain
  rw [ha.remembered _ hp]
  exact ha.put (s := .main) rfl (fun x hx => hc.alike (ha.sees hx)) hp rfl

theorem addAlteration (hc : Coherent outside h) (ha : Agrees p h c)
    (hp : p node.element.name = true) :
    Agrees p (h.addAlteration (h.schema.keyOf node.element) node)
      { c with alterations := c.alterations.put (h.schema.keyOf node.element) node } := by
  unfold Holdings.addAlteration
  simp only
  rw [ha.remembered _ hp]
  exact ha.put (s := .alterations) rfl (fun x hx => hc.alike (ha.sees hx)) hp rfl

theorem displace (hc : Coherent outside h) (ha : Agrees p h c) (hk : p k.element = true)
    (hs : k.store = .main) : Agrees p (h.displace k) { c with main := c.main.erase k } := by
  have hr : h.remembered k = c.main.get? k := by
    rw [ha.remembered k hk, hs]
    obtain ⟨n, vs, st⟩ := k
    subst hs
    rfl
  unfold Holdings.displace
  rw [hr]
  split
  · next x hx => exact ha.erase (hc.alike (ha.sees (s := .main) hx)) hx hs
  · next hx =>
    have he : c.main.erase k = c.main :=
      Table.ext (eraseEntry_of_not_mem ((Table.get?_eq_none_iff _ _).1 hx))
    rw [he]
    exact ha

/-- An override takes the place of what is served at its key, which is kept as its
base. -/
theorem applyOverride (hc : Coherent outside h) (ha : Agrees p h c)
    (hp : p node.element.name = true) (hx : c.main.get? (h.schema.keyOf node.element) = some x)
    (hn : c.bases.get? (h.schema.keyOf node.element) = none) {base : String}
    (hb : h.schema.identityOf node.element = some base) :
    Agrees p (h.applyOverride (h.schema.keyOf node.element) node x)
      { c with
        main := c.main.put (h.schema.keyOf node.element)
          (Handle.unify h.schema h.nextSerial node x)
        bases := c.bases.put (h.schema.keyOf node.element) x
        nextSerial := c.nextSerial + 1 } := by
  obtain ⟨-, hpx, hkx⟩ := (ha.get?_iff (s := .main)).1 hx
  have hkey : h.schema.keyOf (unify h.schema node.element x.element) =
      h.schema.keyOf node.element :=
    keyOf_unify (by rw [hb]; rfl) (by rw [hkx]; exact based_identityOf hb)
  have hbases := ha.make.put (s := .bases) hn nofun hpx hkx
  have hkey' : h.schema.keyOf (Handle.unify h.schema h.nextSerial node x).element = _ := hkey
  exact hbases.put (s := .main) hx
    (fun y hy => Option.some.inj hy ▸ hc.alike (s := .main) (ha.sees (s := .main) hx))
    ((congrArg p (name_unify _ _ _)).trans hp) hkey'

theorem overridden (hc : Coherent outside h) (ha : Agrees p h c) (hp : p name = true)
    (hv : values.length = (h.schema.attrsFor name).length) :
    (h.overridden name values).1 = (c.resolve [] (.of name values .main)).1 ∧
      Agrees p (h.overridden name values).2 (c.resolve [] (.of name values .main)).2 := by
  have hr : h.remembered (.of name values .main) = c.main.get? (.of name values .main) :=
    ha.remembered (.of name values .main) hp
  unfold Holdings.overridden
  rw [hr]
  split
  · next x hx => rw [Catalog.resolve_served hx]; exact ⟨rfl, ha⟩
  · exact ha.resolve hc hp hv

theorem addOverride (hc : Coherent (node :: outside) h) (ha : Agrees p h c)
    (hp : p node.element.name = true) {base : String}
    (hb : h.schema.identityOf node.element = some base) :
    (h.addOverride base node).1 = (c.addOverride base node).1 ∧
      Agrees p (h.addOverride base node).2 (c.addOverride base node).2 := by
  obtain ⟨hans, ha'⟩ := ha.overridden hc hp (h.schema.length_valuesOf node.element)
  have hc' : Coherent (node :: outside)
      (h.overridden node.element.name (h.schema.valuesOf node.element)).2 := hc.overridden
  have hs := schema_overridden h node.element.name (h.schema.valuesOf node.element)
  have hserved : ∀ x, (c.resolve [] (h.schema.keyOf node.element)).1 = some x →
      (c.resolve [] (h.schema.keyOf node.element)).2.main.get? (h.schema.keyOf node.element) =
        some x := fun _ => Catalog.get?_resolve
  unfold Holdings.addOverride Catalog.addOverride
  rw [ha.schema]
  simp only [KeySchema.keyOf] at hserved ⊢
  -- From here on only what was found matters, not how: both sides go on from there.
  generalize h.overridden node.element.name (h.schema.valuesOf node.element) = o at *
  generalize c.resolve [] (.of node.element.name (h.schema.valuesOf node.element) .main) = o' at *
  obtain ⟨x?, h'⟩ := o
  obtain ⟨y?, cs, main, alterations, bases, n⟩ := o'
  obtain rfl : x? = y? := hans
  obtain rfl : cs = h'.schema := ha'.schema
  obtain rfl : n = h'.nextSerial := ha'.serial
  cases x? with
  | none => exact ⟨rfl, ha'⟩
  | some x =>
    have hr : h'.remembered (.of node.element.name (h.schema.valuesOf node.element) .bases) =
        bases.get? (.of node.element.name (h.schema.valuesOf node.element) .main) :=
      ha'.remembered (.of node.element.name (h.schema.valuesOf node.element) .bases) hp
    simp only [ElementKey.inStore_of, hr]
    cases hn : bases.get? (.of node.element.name (h.schema.valuesOf node.element) .main) with
    | some y => exact ⟨rfl, ha'⟩
    | none =>
      replace hs : h'.schema = h.schema := hs
      have hx := hserved x rfl
      rw [← hs] at hb hx hn ⊢
      have happ := ha'.applyOverride hc' hp hx hn hb
      have hx' : h'.remembered (h'.schema.keyOf node.element) = some x :=
        (ha'.remembered _ hp).trans hx
      exact ⟨rfl, happ.addAlteration (hc'.applyOverride rfl hx') hp⟩

/-- Adding gives the same answer, and the stores have again what the tables
have. -/
theorem add (hc : Coherent (node :: outside) h) (ha : Agrees p h c)
    (hp : p node.element.name = true) :
    (h.add node).1 = (c.add node).1 ∧ Agrees p (h.add node).2 (c.add node).2 := by
  obtain ⟨cs, main, alterations, bases, n⟩ := c
  obtain rfl : cs = h.schema := ha.schema
  unfold Holdings.add Catalog.add
  cases hb : node.element.base with
  | none => exact ⟨rfl, ha.addPlain hc hp⟩
  | some base =>
    simp only
    cases hi : h.schema.identityAttr node.element.name with
    | none => exact ⟨rfl, ha⟩
    | some attr =>
      simp only
      cases hr : node.element.attr attr with
      | none => simp only [Element.requiredAttr, hr]; exact ⟨trivial, ha⟩
      | some identity =>
        have hid : h.schema.identityOf node.element = some identity := by
          rw [KeySchema.identityOf, hi, Option.bind_some, hr]
        simp only [Element.requiredAttr, hr]
        split
        · next he => exact ha.addOverride hc hp (he ▸ hid)
        · have ha' := ha.displace hc (k := h.schema.keyOf node.element) hp rfl
          have := ha'.addAlteration (hc.displace (k := h.schema.keyOf node.element)) hp
          rw [schema_displace] at this
          exact ⟨rfl, this⟩

end

end Agrees

end Holdings

end TemplateInventory
