import TemplateInventory.Proofs.Archive
import TemplateInventory.Proofs.Groupings
import TemplateInventory.Proofs.Saving
/-!
# Adds that fail

`Inventory.Refuses` lists why an element with a `base` cannot be added. The last two
reasons are only seen once the key of the element has been looked up, and the lookup may
have served a whole chain of derived elements. But nothing is put anywhere before the last
of them is ruled out. So a failed add leaves the inventory as it was, or as a question for
the element leaves it (`Inventory.add_error_iff_refuses`).

A lookup makes elements served, after those that are, and puts nothing into the other two
stores: `Holdings.Extends`.
-/

namespace TemplateInventory

open Holdings

/-! ## What a lookup does to the stores -/

namespace Holdings

/-- Elements have joined those that are served, at the end, and the other stores have
stayed. -/
structure Extends (h h' : Holdings) : Prop where
  main : h.main.handles <+: h'.main.handles
  alterations : h'.alterations = h.alterations
  bases : h'.bases = h.bases

section
variable {h h' h'' : Holdings}

theorem Extends.refl (h : Holdings) : Extends h h := ⟨List.prefix_refl _, rfl, rfl⟩

theorem Extends.trans (hx : Extends h h') (hx' : Extends h' h'') : Extends h h'' :=
  ⟨hx.main.trans hx'.main, hx'.alterations.trans hx.alterations, hx'.bases.trans hx.bases⟩

theorem extends_of_store (hs : ∀ s, h'.store s = h.store s) : Extends h h' where
  main := (show h'.main = h.main from hs .main) ▸ List.prefix_refl _
  alterations := hs .alterations
  bases := hs .bases

theorem extends_findIn (h : Holdings) (s : StoreId) (name : String)
    (values : List (Option String)) : Extends h (h.findIn s name values).2 :=
  extends_of_store fun s' => store_findIn h s s' name values

theorem extends_afterFind (h : Holdings) (name : String) (values : List (Option String)) :
    Extends h (h.afterFind name values) :=
  (extends_findIn h .main name values).trans (extends_findIn _ .alterations name values)

theorem extends_settle (h : Holdings) (k : ElementKey) (a : Handle) (b : Option Handle) :
    Extends h (h.settle k a b).2 := by
  cases b <;> exact ⟨List.prefix_append _ _, rfl, rfl⟩

theorem extends_resolve (h : Holdings) (r : List ElementKey) (name : String)
    (values : List (Option String)) : Extends h (h.resolve r name values).2 := by
  induction h, r, values using resolve_induction (n := name) with
  | found hm => rw [resolve_found hm]; exact extends_findIn _ _ _ _
  | open_ hm hk => rw [resolve_open hm hk]; exact extends_findIn _ _ _ _
  | missing hm hk ha => rw [resolve_missing hm hk ha]; exact extends_afterFind _ _ _
  | alone hm hk ha hb =>
    rw [resolve_alone hm hk ha hb]
    exact (extends_afterFind _ name _).trans (extends_settle _ _ _ none)
  | based hm hk ha hb ih =>
    rw [resolve_based hm hk ha hb]
    exact (extends_afterFind _ _ _).trans (ih.trans (extends_settle _ _ _ _))

/-- An add that fails does to the stores what a lookup does. -/
theorem extends_add_error {node : Handle} {err : InventoryError}
    (hr : (h.add node).1 = .error err) : Extends h (h.add node).2 := by
  rcases add_refused hr with hsame | hresolved
  · rw [hsame]
    exact .refl h
  · rw [hresolved]
    exact extends_resolve h [] _ _

end

end Holdings

/-! ## Reasons -/

/-- Why an element with a `base` is not added, where a lookup of its key has found `found`,
and `overridden` says that there is a base with its key: its name has no key attributes; it
lacks the last of them, which is its identity; or its `base` is its identity, and there is no
element to take the place of, or one has been taken the place of before. -/
inductive AddRefusal (s : KeySchema) (e : Element) (found : Option Handle) (overridden : Prop) :
    InventoryError → Prop
  | unkeyed {base : String} (hb : e.base = some base) (hk : s.attrsFor e.name = []) :
      AddRefusal s e found overridden (.baseWithoutKey e.name)
  | anonymous {base attr : String} (hb : e.base = some base)
      (hk : s.identityAttr e.name = some attr) (hi : e.attr attr = none) :
      AddRefusal s e found overridden (.missingAttribute e.name attr)
  | unfounded {base : String} (hb : e.base = some base) (hi : s.identityOf e = some base)
      (hf : found = none) : AddRefusal s e found overridden (.noBase base (s.keyOf e))
  | second {base : String} (hb : e.base = some base) (hi : s.identityOf e = some base)
      (hf : found.isSome = true) (ho : overridden) :
      AddRefusal s e found overridden (.overrideDepth base (s.keyOf e))

/-- Why an inventory does not add an element. -/
def Inventory.Refuses (i : Inventory) (e : Element) : InventoryError → Prop :=
  AddRefusal i.schema e (i.getElement e.name (i.schema.valuesOf e)).1
    (∃ x ∈ i.holdings.bases.handles, i.schema.keyOf x.element = i.schema.keyOf e)

section
variable {c : Catalog} {i : Inventory} {node : Handle} {base : String} {err : InventoryError}
  {outside : List Handle}

namespace Catalog

/-- An override is refused when its key has no element, or has a base already. -/
theorem addOverride_error_iff : (c.addOverride base node).1 = .error err ↔
    (c.resolve [] (c.schema.keyOf node.element)).1 = none ∧
        err = .noBase base (c.schema.keyOf node.element) ∨
      (c.resolve [] (c.schema.keyOf node.element)).1.isSome = true ∧
        (c.bases.get? (c.schema.keyOf node.element)).isSome = true ∧
        err = .overrideDepth base (c.schema.keyOf node.element) := by
  have hbases := (grows_resolve c [] (c.schema.keyOf node.element)).bases
  simp only [addOverride]
  generalize c.resolve [] (c.schema.keyOf node.element) = r at hbases ⊢
  obtain ⟨_ | x, d⟩ := r
  · simp [eq_comm (a := err)]
  · replace hbases : d.bases = c.bases := hbases
    simp only [hbases]
    cases c.bases.get? (c.schema.keyOf node.element) <;> simp [eq_comm (a := err)]

theorem add_error_iff : (c.add node).1 = .error err ↔
    AddRefusal c.schema node.element (c.resolve [] (c.schema.keyOf node.element)).1
      ((c.bases.get? (c.schema.keyOf node.element)).isSome = true) err := by
  constructor
  · intro hr
    cases hb : node.element.base with
    | none =>
      rw [add, hb] at hr
      cases hr
    | some base =>
      cases hk : c.schema.identityAttr node.element.name with
      | none =>
        rw [add, hb] at hr
        simp only [hk] at hr
        cases hr
        exact .unkeyed hb (List.getLast?_eq_none_iff.1 hk)
      | some attr =>
        cases hi : node.element.attr attr with
        | none =>
          rw [add, hb] at hr
          simp only [hk, Element.requiredAttr, hi] at hr
          cases hr
          exact .anonymous hb hk hi
        | some identity =>
          have hid : c.schema.identityOf node.element = some identity := by
            rw [KeySchema.identityOf, hk, Option.bind_some, hi]
          by_cases he : identity = base
          · subst he
            rw [add_eq_addOverride hb hid, addOverride_error_iff] at hr
            rcases hr with ⟨hf, rfl⟩ | ⟨hf, ho, rfl⟩
            · exact .unfounded hb hid hf
            · exact .second hb hid hf ho
          · rw [add, hb] at hr
            simp only [hk, Element.requiredAttr, hi, if_neg he] at hr
            cases hr
  · intro h
    cases h with
    | unkeyed hb hk =>
      have hnone : c.schema.identityAttr node.element.name = none :=
        List.getLast?_eq_none_iff.2 hk
      rw [add, hb]
      simp only [hnone]
    | anonymous hb hk hi =>
      rw [add, hb]
      simp only [hk, Element.requiredAttr, hi]
    | unfounded hb hi hf =>
      rw [add_eq_addOverride hb hi, addOverride_error_iff]
      exact .inl ⟨hf, rfl⟩
    | second hb hi hf ho =>
      rw [add_eq_addOverride hb hi, addOverride_error_iff]
      exact .inr ⟨hf, ho, rfl⟩

end Catalog

/-! ## Failed adds -/

/-- The reasons are read off a catalog as off the inventory that it agrees with. -/
theorem Holdings.Agrees.refuses_iff (ha : Agrees (fun _ => true) i.holdings c)
    (hc : Coherent outside i.holdings) (node : Handle) :
    i.Refuses node.element err ↔
      AddRefusal c.schema node.element (c.resolve [] (c.schema.keyOf node.element)).1
        ((c.bases.get? (c.schema.keyOf node.element)).isSome = true) err := by
  obtain ⟨cs, main, alterations, bases, n⟩ := c
  obtain rfl : cs = i.holdings.schema := ha.schema
  have hfound : (i.getElement node.element.name (i.schema.valuesOf node.element)).1 =
      (Catalog.resolve ⟨i.holdings.schema, main, alterations, bases, n⟩ []
        (i.holdings.schema.keyOf node.element)).1 := by
    refine (ha.getElement hc rfl (i.schema.valuesOf node.element)).1.trans ?_
    rw [Catalog.getElement, show i.schema = i.holdings.schema from rfl, KeySchema.fit_valuesOf]
    rfl
  have hbases : (∃ x ∈ i.holdings.bases.handles,
      i.schema.keyOf x.element = i.schema.keyOf node.element) ↔
        (bases.get? (i.holdings.schema.keyOf node.element)).isSome = true := by
    rw [Option.isSome_iff_exists]
    exact exists_congr fun x => ⟨fun h => (ha.get?_iff (s := .bases)).2 ⟨h.1, rfl, h.2⟩,
      fun hx => ((ha.get?_iff (s := .bases)).1 hx).imp_right And.right⟩
  rw [Inventory.Refuses, hfound, propext hbases]
  rfl

/-- Without grouping elements, an add fails for the reasons of `Inventory.Refuses` and with
their errors, and for no others. After a failure the inventory is as it was, or as it is
when the element of the key is asked for. So derived elements and bases stay, and those
that are served keep their places, with what a lookup makes served after them. -/
theorem Inventory.add_error_iff_refuses {w : Workspace} (hw : Reachable w)
    (hu : w.inventory.Ungrouped) {node : Handle} (ha : w.Accepts (.add node)) :
    let i := w.inventory
    let after := (i.add node).2
    (∀ err, (i.add node).1 = .error err ↔ i.Refuses node.element err) ∧
      ∀ err, (i.add node).1 = .error err →
        (after = i ∨
          after = (i.getElement node.element.name (i.schema.valuesOf node.element)).2) ∧
        after.holdings.alterations = i.holdings.alterations ∧
        after.holdings.bases = i.holdings.bases ∧
        i.holdings.main.handles <+: after.holdings.main.handles := by
  intro i after
  have hagree := hw.agrees_catalog hu
  have hcoherent : Coherent [node] i.holdings := ha.coherent hw.coherent
  have hans : (i.add node).1 = (i.holdings.catalog.add node).1 := (hagree.add hcoherent rfl).1
  refine ⟨fun err => ?_, fun err hr => ?_⟩
  · rw [hans, Catalog.add_error_iff]
    exact (hagree.refuses_iff hcoherent node).symm
  · have hextends : Extends i.holdings after.holdings := extends_add_error hr
    refine ⟨?_, hextends.alterations, hextends.bases, hextends.main⟩
    have hfit : i.holdings.getElement node.element.name (i.schema.valuesOf node.element) =
        i.holdings.resolve [] node.element.name (i.holdings.schema.valuesOf node.element) :=
      congrArg (i.holdings.resolve [] node.element.name) (i.schema.fit_valuesOf node.element)
    rcases Holdings.add_refused (h := i.holdings) hr with hsame | hresolved
    · exact .inl (congrArg (fun h => { i with holdings := h }) hsame)
    · exact .inr (congrArg (fun h => { i with holdings := h })
        (hresolved.trans (congrArg Prod.snd hfit).symm))

end

/-! ## A second override on a cycle -/

theorem reachable_ofCycle : Reachable .ofCycle :=
  ((((reachable_ofUser .parts).adding _).adding _).adding _).adding _

/-- An override of the normal part. -/
def normalOverride : Element := .part [("id", "normal"), ("base", "normal")]

/-- The workspace of two parts that are based on each other, with another override made. -/
def Workspace.ofSecondOverride : Workspace := Workspace.ofCycle.run (.make normalOverride)

theorem ungrouped_ofSecondOverride : Workspace.ofSecondOverride.inventory.Ungrouped := by
  have hnames : ∀ s, (Workspace.ofSecondOverride.inventory.holdings.store s).handles.all
      (·.element.name == "part") = true := fun s => by cases s <;> rfl
  intro s x hx
  rw [beq_iff_eq.1 (List.all_eq_true.1 (hnames s) x hx)]
  decide

/-- The part is not served, and resolving it leads to the other one and back. -/
theorem isSome_getElement_ofSecondOverride :
    (Workspace.ofSecondOverride.inventory.getElement "part" [some "normal"]).1.isSome = true := by
  let h := Workspace.ofSecondOverride.inventory.holdings
  let blue := Handle.fresh 3 (.part [("id", "normal"), ("base", "short"), ("color", "blue")])
  have hm : (h.findIn .main "part" [some "normal"]).1 = none := rfl
  have ha : ((h.findIn .main "part" [some "normal"]).2.findIn .alterations "part"
      [some "normal"]).1 = some blue := rfl
  have hb : blue.element.base.bind (baseValues [some "normal"]) = some [some "short"] := rfl
  change (h.resolve [] "part" [some "normal"]).1.isSome = true
  rw [resolve_based hm List.not_mem_nil ha hb]
  rfl

/-- The override is refused, as the key has been overridden, once the part was resolved. -/
theorem add_secondOverride :
    let i := Workspace.ofSecondOverride.inventory
    let node := Handle.fresh Workspace.ofCycle.inventory.holdings.nextSerial normalOverride
    (i.add node).1 = .error (.overrideDepth "normal" ⟨"part", [some "normal"], .main⟩) ∧
      (i.add node).2.holdings.alterations = i.holdings.alterations ∧
      (i.add node).2.holdings.bases.handles = [.fresh 0 redPart] := by
  intro i node
  obtain ⟨hreasons, heffect⟩ := Inventory.add_error_iff_refuses
    (reachable_ofCycle.step (r := .make normalOverride) trivial) ungrouped_ofSecondOverride
    (reachable_ofCycle.made normalOverride)
  have hbase : (Handle.fresh 0 redPart) ∈ i.holdings.bases.handles := List.mem_cons_self
  have herror := (hreasons _).2 (.second rfl rfl isSome_getElement_ofSecondOverride ⟨_, hbase, rfl⟩)
  obtain ⟨-, halterations, hbases, -⟩ := heffect _ herror
  exact ⟨herror, halterations, congrArg Store.handles hbases⟩

end TemplateInventory
