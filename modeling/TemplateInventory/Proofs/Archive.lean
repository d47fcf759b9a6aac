import TemplateInventory.Proofs.Overrides
import TemplateInventory.Proofs.Questions
import TemplateInventory.Proofs.Reference
/-!
# What an override took the place of

An override is unified with the element that is served at its key, which moves to the
bases. From then on it stays there: bases are put once and never replaced, whatever is
added or looked up (`Catalog.Archived`), and so the key has no room for a second
override. A question for the base finds it as long as the override is the derived
element of its key, and only an ordinary alteration of the key takes that place
(`override_archives`).
-/

namespace TemplateInventory

/-- Whether an element is an ordinary alteration at a key: it has a base and an identity,
and these are not spelled alike. -/
def Element.AltersAt (s : KeySchema) (k : ElementKey) (e : Element) : Prop :=
  s.keyOf e = k ∧ e.base.isSome ∧ (s.identityOf e).isSome ∧ s.identityOf e ≠ e.base

instance (s : KeySchema) (k : ElementKey) (e : Element) : Decidable (e.AltersAt s k) :=
  inferInstanceAs (Decidable (_ ∧ _))

/-- Whether an ordinary alteration is added at a key. -/
def Operation.AltersAt (s : KeySchema) (k : ElementKey) : Operation → Prop
  | .add e => e.AltersAt s k
  | .addShared node => node.element.AltersAt s k
  | _ => False

instance (s : KeySchema) (k : ElementKey) : (op : Operation) → Decidable (op.AltersAt s k)
  | .add e => inferInstanceAs (Decidable (e.AltersAt s k))
  | .addShared node => inferInstanceAs (Decidable (node.element.AltersAt s k))
  | .getElement _ _ | .getAlteration _ _ | .getBase _ _ => inferInstanceAs (Decidable False)

/-- A value takes the place of the one of its key, in the order of the values. -/
theorem Table.values_put {κ α : Type} [DecidableEq κ] {t : Table κ α} {k : κ} {v : α}
    (h : t.get? k = some v) :
    ∃ before after, t.entries.map Prod.snd = before ++ v :: after ∧
      ∀ u, (t.put k u).entries.map Prod.snd = before ++ u :: after := by
  obtain ⟨before, after, hsplit, hput⟩ := putEntry_of_findEntry h
  refine ⟨before.map Prod.snd, after.map Prod.snd, ?_, fun u => ?_⟩
  · rw [hsplit, List.map_append, List.map_cons]
  · rw [show (t.put k u).entries = _ from hput u, List.map_append, List.map_cons]

namespace Catalog

/-- A key that was overridden: what the override took the place of is kept. -/
structure Archived (c : Catalog) (k : ElementKey) (extant : Handle) : Prop where
  base : c.bases.get? k = some extant
  derived : (c.alterations.get? k).isSome = true

section
variable {c c' : Catalog} {k : ElementKey} {extant node : Handle} {e : Handle} {base : String}
  {op : Operation} {name : String} {values : List (Option String)}

theorem Grows.get?_alterations (hg : Grows c c') (k : ElementKey) :
    c'.alterations.get? k = c.alterations.get? k := by
  rw [hg.alterations]

theorem Archived.grows (ha : c.Archived k extant) (hg : Grows c c') : c'.Archived k extant where
  base := by rw [hg.bases, ha.base]
  derived := by rw [hg.alterations, ha.derived]

/-- No add ends it: where a base is kept already, none is put. -/
theorem Archived.add (ha : c.Archived k extant) (node : Handle) :
    (c.add node).2.Archived k extant := by
  have hgrows := ha.grows (grows_resolve c [] (c.schema.keyOf node.element))
  have hput : ∀ {d : Catalog} {q : ElementKey}, d.Archived k extant →
      ((d.alterations.put q node).get? k).isSome = true := by
    intro d q hd
    rw [Table.get?_put]
    split
    · rfl
    · exact hd.derived
  refine add_cases (motive := fun r => r.2.Archived k extant) ?plain ?refused ?unfounded ?override
    ?alteration
  case plain => exact fun _ => ⟨ha.base, ha.derived⟩
  case refused => exact fun _ => ha
  case unfounded => exact fun _ => hgrows
  case override =>
    intro base x _ _ _ hnone d
    have hne : c.schema.keyOf node.element ≠ k := by
      intro he
      rw [he] at hnone hgrows
      rw [hgrows.base] at hnone
      cases hnone
    exact ⟨by rw [Table.get?_put, if_neg hne, hgrows.base], hput hgrows⟩
  case alteration => exact fun _ _ _ => ⟨ha.base, hput ha⟩

/-- The derived element of a key stays unless an ordinary alteration is added there. -/
theorem alteration_add (ha : c.Archived k extant) (hx : c.alterations.get? k = some e)
    (hn : ¬ node.element.AltersAt c.schema k) : (c.add node).2.alterations.get? k = some e := by
  have hgrows := grows_resolve c [] (c.schema.keyOf node.element)
  refine add_cases (motive := fun r => r.2.alterations.get? k = some e) ?plain ?refused ?unfounded
    ?override ?alteration
  case plain => exact fun _ => hx
  case refused => exact fun _ => hx
  case unfounded => exact fun _ => (hgrows.get?_alterations k).trans hx
  case override =>
    intro base x _ _ _ hnone d
    have hne : c.schema.keyOf node.element ≠ k := by
      intro he
      rw [he] at hnone hgrows
      rw [hgrows.bases, ha.base] at hnone
      cases hnone
    rw [Table.get?_put, if_neg hne, hgrows.alterations, hx]
  case alteration =>
    intro base identity hb hid hneq
    have hne : c.schema.keyOf node.element ≠ k := fun he =>
      hn ⟨he, by rw [hb]; rfl, by rw [hid]; rfl, by simpa [hb, hid] using hneq⟩
    rw [Table.get?_put, if_neg hne, hx]

theorem schema_add (c : Catalog) (node : Handle) : (c.add node).2.schema = c.schema := by
  have hgrows := grows_resolve c [] (c.schema.keyOf node.element)
  exact add_cases (motive := fun r => r.2.schema = c.schema) (fun _ => rfl) (fun _ => rfl)
    (fun _ => hgrows.schema) (fun _ _ _ _ => hgrows.schema) (fun _ _ _ => rfl)

/-- A lookup makes elements served at most. -/
theorem grows_getBase (c : Catalog) (name : String) (values : List (Option String)) :
    Grows c (c.getBase name values).2 := by
  unfold getBase
  simp only
  split
  · exact .refl c
  · split
    · exact .refl c
    · split
      · exact .refl c
      · split
        · exact .refl c
        · exact grows_resolve c [] _

/-- One operation. -/
theorem Archived.perform (ha : c.Archived k extant) (op : Operation) :
    (c.perform op).2.Archived k extant := by
  cases op with
  | add e => exact Archived.add (c := (c.mint e).2) ⟨ha.base, ha.derived⟩ _
  | addShared node => exact ha.add node
  | getElement name values => exact ha.grows (grows_resolve c [] _)
  | getAlteration name values => exact ha
  | getBase name values => exact ha.grows (grows_getBase c name values)

theorem alteration_perform (ha : c.Archived k extant) (hx : c.alterations.get? k = some e)
    (hn : ¬ op.AltersAt c.schema k) : (c.perform op).2.alterations.get? k = some e := by
  cases op with
  | add e' => exact alteration_add (c := (c.mint e').2) ⟨ha.base, ha.derived⟩ hx hn
  | addShared node => exact alteration_add ha hx hn
  | getElement name values => exact ((grows_resolve c [] _).get?_alterations k).trans hx
  | getAlteration name values => exact hx
  | getBase name values => exact ((grows_getBase c name values).get?_alterations k).trans hx

theorem schema_perform (c : Catalog) (op : Operation) : (c.perform op).2.schema = c.schema := by
  cases op with
  | add e => exact schema_add (c.mint e).2 _
  | addShared node => exact schema_add c node
  | getElement name values => exact (grows_resolve c [] _).schema
  | getAlteration name values => rfl
  | getBase name values => exact (grows_getBase c name values).schema

/-- Any operations. -/
theorem Archived.performAll (ha : c.Archived k extant) (ops : List Operation) :
    (c.performAll ops).2.Archived k extant ∧ (c.performAll ops).2.schema = c.schema ∧
      (c.alterations.get? k = some e → (∀ op ∈ ops, ¬ op.AltersAt c.schema k) →
        (c.performAll ops).2.alterations.get? k = some e) := by
  induction ops generalizing c with
  | nil => exact ⟨ha, rfl, fun hx _ => hx⟩
  | cons op ops ih =>
    obtain ⟨hrest, hs, hkeeps⟩ := ih (ha.perform op)
    refine ⟨hrest, hs.trans (schema_perform c op), fun hx hn => ?_⟩
    refine hkeeps (alteration_perform ha hx (hn op List.mem_cons_self)) fun op' hop => ?_
    rw [schema_perform]
    exact hn op' (List.mem_cons_of_mem op hop)

/-- The base of a key is asked for, while the override is its derived element. -/
theorem Archived.getBase (ha : c.Archived k extant) (hx : c.alterations.get? k = some node)
    (hk : c.schema.keyOf node.element = k) (hb : node.element.base = some base)
    (hid : c.schema.identityOf node.element = some base)
    (hv : c.schema.keyAt node.element.name values = k) :
    (c.getBase node.element.name values).1 = some extant := by
  have hbased : (ElementKey.of node.element.name (c.schema.fit node.element.name values) .main).based
      base = some k := by
    rw [show ElementKey.of _ _ _ = k from hv, ← hk]
    exact based_identityOf hid
  unfold Catalog.getBase
  simp only [show ElementKey.of node.element.name (c.schema.fit node.element.name values) .main = k
    from hv] at hbased ⊢
  rw [hx]
  simp only [hb, hbased]
  have hown : (c.schema.identityAttr node.element.name).bind node.element.attr = some base := hid
  rw [if_pos hown, ha.base]

theorem add_eq_addOverride (hb : node.element.base = some base)
    (hid : c.schema.identityOf node.element = some base) : c.add node = c.addOverride base node := by
  obtain ⟨attr, hattr, hv⟩ := Option.bind_eq_some_iff.1 hid
  unfold add
  simp only [hb, hattr, Element.requiredAttr, hv, if_true]

/-- There is no room for another override. -/
theorem Archived.add_override (ha : c.Archived k extant) (hk : c.schema.keyOf node.element = k)
    (hb : node.element.base = some base) (hid : c.schema.identityOf node.element = some base) :
    (c.add node).1 = .error (.overrideDepth base k) := by
  subst hk
  obtain ⟨a, hx⟩ := Option.isSome_iff_exists.1 ha.derived
  obtain ⟨x, hans⟩ := Option.isSome_iff_exists.1
    (isSome_resolve_of_alteration (r := []) hx List.not_mem_nil)
  have hbase := (ha.grows (grows_resolve c [] (c.schema.keyOf node.element))).base
  rw [add_eq_addOverride hb hid, Catalog.addOverride]
  generalize c.resolve [] (c.schema.keyOf node.element) = r at hans hbase
  obtain ⟨y?, d⟩ := r
  obtain rfl : y? = some x := hans
  simp only [hbase]

/-- What an override that is added leaves: it is unified with the element of its key, in the
place of that, which is kept. -/
theorem add_override_ok (hb : node.element.base = some base)
    (hid : c.schema.identityOf node.element = some base) (hok : (c.add node).1 = .ok ())
    (hx : (c.resolve [] (c.schema.keyOf node.element)).1 = some extant) :
    let k := c.schema.keyOf node.element
    let d := (c.resolve [] k).2
    let after := (c.add node).2
    after.Archived k extant ∧ after.alterations.get? k = some node ∧
      after.main = d.main.put k (Handle.unify c.schema d.nextSerial node extant) := by
  intro k d after
  have hs : d.schema = c.schema := (grows_resolve c [] k).schema
  have hr : c.resolve [] k = (some extant, d) := Prod.ext hx rfl
  have hadd : c.add node = c.addOverride base node := add_eq_addOverride hb hid
  unfold addOverride at hadd
  simp only [show c.resolve [] (c.schema.keyOf node.element) = _ from hr] at hadd
  cases hn : d.bases.get? k with
  | some y =>
    simp only [show d.bases.get? (c.schema.keyOf node.element) = _ from hn] at hadd
    rw [hadd] at hok
    cases hok
  | none =>
    simp only [show d.bases.get? (c.schema.keyOf node.element) = _ from hn] at hadd
    refine ⟨⟨?_, ?_⟩, ?_, ?_⟩ <;> simp [after, hadd, hs, k]

/-- A lookup with values that have a key resolves that key. -/
theorem getElement_at {s : KeySchema} (hs : c.schema = s) (hv : s.keyAt name values = k) :
    c.getElement name values = c.resolve [] k := by
  rw [getElement, hs, show ElementKey.of name (s.fit name values) .main = k from hv]

end

end Catalog

open Holdings

/-- While the override is the derived element of its key, a lookup of the base gives what
it took the place of. -/
theorem Holdings.Agrees.getBase_archived {h : Holdings} {c : Catalog} {s : KeySchema}
    {node extant : Handle} {base : String} {values : List (Option String)}
    (ha : Agrees (fun _ => true) h c) (hc : Coherent [] h) (hs : c.schema = s)
    (harchived : c.Archived (s.keyOf node.element) extant)
    (hderived : c.alterations.get? (s.keyOf node.element) = some node)
    (hb : node.element.base = some base) (hid : s.identityOf node.element = some base)
    (hv : s.keyAt node.element.name values = s.keyOf node.element) :
    (h.getBase node.element.name values).1 = some extant := by
  subst hs
  have hall : (fun _ => true) node.element.name = true := rfl
  exact (ha.getBase hc hall values).1.trans (harchived.getBase hderived rfl hb hid hv)

/-- An override that is added is unified with the element that a lookup of its key would
give, which may have to be resolved for it, and takes its place among the served
elements. That element is the base of the key from then on, through any adds and
lookups, until an ordinary alteration is added at the key; and the key takes no other
override any more, not even after one. -/
theorem override_archives {w : Workspace} (hw : Reachable w) (hu : w.inventory.Ungrouped)
    {node extant : Handle} {base : String} {values : List (Option String)}
    (ha : w.Accepts (.add node)) (hb : node.element.base = some base)
    (hid : w.inventory.schema.identityOf node.element = some base)
    (hv : w.inventory.schema.keyAt node.element.name values =
      w.inventory.schema.keyOf node.element)
    (hx : (w.inventory.getElement node.element.name values).1 = some extant)
    (hok : (w.inventory.add node).1 = .ok ()) :
    let schema := w.inventory.schema
    let name := node.element.name
    let k := schema.keyOf node.element
    let i := (w.inventory.add node).2
    (∃ unified before after, unified.element = unify schema node.element extant.element ∧
      (w.inventory.getElement name values).2.holdings.main.handles = before ++ extant :: after ∧
      i.holdings.main.handles = before ++ unified :: after ∧
      ∀ values', schema.keyAt name values' = k → (i.getElement name values').1 = some unified) ∧
    (∀ values', schema.keyAt name values' = k →
      (i.getAlteration name values').1 = some node ∧ (i.getBase name values').1 = some extant) ∧
    ∀ ops, i.Allows ops →
      let later := (i.performAll ops).2
      ((∀ op ∈ ops, ¬ op.AltersAt schema k) → ∀ values', schema.keyAt name values' = k →
        (later.getBase name values').1 = some extant) ∧
      ∀ (node' : Handle) (base' : String), later.holdings.Admits node' →
        schema.keyOf node'.element = k → node'.element.base = some base' →
        schema.identityOf node'.element = some base' →
        (later.add node').1 = .error (.overrideDepth base' k) := by
  intro schema name k i
  -- All of it is about the tables that the inventory has.
  let c := w.inventory.holdings.catalog
  have hagree := hw.agrees_catalog hu
  have hall : (fun _ => true) name = true := rfl
  have hcoherent : Coherent [node] w.inventory.holdings := ha.coherent hw.coherent
  obtain ⟨hfound, hlooked⟩ := hagree.getElement hw.coherent hall values
  rw [Catalog.getElement_at (c := c) rfl hv] at hfound hlooked
  obtain ⟨hans, hadded⟩ := hagree.add hcoherent rfl
  have hcoherent' : Coherent [] i.holdings := hcoherent.add.leave
  have hserved : (c.resolve [] k).1 = some extant := hfound.symm.trans hx
  obtain ⟨harchived, hderived, hmain⟩ :=
    Catalog.add_override_ok (c := c) hb hid (hans.symm.trans hok) hserved
  have hs : (c.add node).2.schema = schema := Catalog.schema_add c node
  refine ⟨?served, fun values' hv' => ⟨?derived, ?base⟩,
    fun ops ho => ⟨fun hn values' hv' => ?kept, ?refused⟩⟩
  case served =>
    let unified := Handle.unify schema (c.resolve [] k).2.nextSerial node extant
    have hput : (c.add node).2.main = (c.resolve [] k).2.main.put k unified := hmain
    have hunified : (c.add node).2.main.get? k = some unified := by
      rw [hput, Table.get?_put, if_pos rfl]
    obtain ⟨before, after, hbefore, hafter⟩ := Table.values_put (Catalog.get?_resolve hserved)
    refine ⟨unified, before, after, rfl, hlooked.handles_main.trans hbefore, ?_, fun values' hv' => ?_⟩
    · exact hadded.handles_main.trans (hput ▸ hafter unified)
    · refine (hadded.getElement hcoherent' hall values').1.trans ?_
      have hget : (c.add node).2.getElement name values' = _ := Catalog.getElement_at hs hv'
      exact congrArg Prod.fst (hget.trans (Catalog.resolve_served hunified))
  case derived =>
    refine (hadded.getAlteration hall values').1.trans ?_
    rw [Catalog.getAlteration, hs, show ElementKey.of name (schema.fit name values') .main = k from hv']
    exact hderived
  case base => exact hadded.getBase_archived hcoherent' hs harchived hderived hb hid hv'
  case kept =>
    obtain ⟨-, hc', ha'⟩ := hadded.performAll hcoherent' ho
    obtain ⟨harch, hs', hkeeps⟩ := harchived.performAll ops
    exact ha'.getBase_archived hc' (hs'.trans hs) harch
      (hkeeps hderived (by rw [hs]; exact hn)) hb hid hv'
  case refused =>
    intro node' base' hm hk' hb' hid'
    obtain ⟨-, hc', ha'⟩ := hadded.performAll hcoherent' ho
    obtain ⟨harch, hs', -⟩ := harchived.performAll (e := node) ops
    refine (ha'.add (hm.coherent hc') rfl).1.trans (harch.add_override ?_ hb' ?_)
    · rw [hs'.trans hs]
      exact hk'
    · rw [hs'.trans hs]
      exact hid'

/-- A workspace with the red part, and its override made. -/
def Workspace.ofLarge : Workspace :=
  (((Workspace.blank .parts).run (.make redPart)).run (.add (.fresh 0 redPart))).run (.make largePart)

theorem ungrouped_ofLarge : Workspace.ofLarge.inventory.Ungrouped := by
  have hmain : Workspace.ofLarge.inventory.holdings.main.handles = [.fresh 0 redPart] := rfl
  have halt : Workspace.ofLarge.inventory.holdings.alterations.handles = [] := rfl
  have hbases : Workspace.ofLarge.inventory.holdings.bases.handles = [] := rfl
  intro s x hx
  cases s with
  | main =>
    rw [Holdings.store, hmain, List.mem_singleton] at hx
    subst hx
    decide
  | alterations => rw [Holdings.store, halt] at hx; cases hx
  | bases => rw [Holdings.store, hbases] at hx; cases hx

/-- What is done after the override: the part is replaced, and overridden again. -/
def largeOperations : List Operation :=
  [.getElement "part" [some "NORMAL"], .add redPart, .add largePart, .getBase "part" [some "normal"]]

/-- The red part is the base of the large one, also when the part was replaced. -/
theorem override_archives_largePart :
    let i := (Workspace.ofLarge.inventory.add (.fresh 1 largePart)).2
    let later := (i.performAll largeOperations).2
    (i.getElement "part" [some "Normal"]).1.map Handle.element =
        some (unify .parts largePart redPart) ∧
      (later.getBase "part" [some "Normal"]).1 = some (.fresh 0 redPart) := by
  have hreach : Reachable .ofLarge := reachable_redPart.step (r := .make largePart) trivial
  have hmade := reachable_redPart.made largePart
  have hx : (Workspace.ofLarge.inventory.getElement "part" [some "Normal"]).1 =
      some (.fresh 0 redPart) := resolve_of_found rfl []
  have hbase : (Handle.fresh 1 largePart).element.base = some "normal" := rfl
  obtain ⟨⟨unified, -, -, he, -, -, hget⟩, -, hlater⟩ :=
    override_archives hreach ungrouped_ofLarge hmade hbase rfl rfl hx rfl
  obtain ⟨hkept, -⟩ := hlater largeOperations trivial
  intro i later
  refine ⟨?_, hkept (by decide) [some "Normal"] rfl⟩
  exact (congrArg (Option.map Handle.element) (hget [some "Normal"] rfl)).trans (congrArg some he)

end TemplateInventory
