import Mathlib.Data.List.Nodup
import TemplateInventory.Proofs.Expansion
import TemplateInventory.Proofs.Refusals
/-!
# Expanding again

Once an expansion has succeeded, every layout that was noted has a copy, or something else of the
key of its copy. So the same expansion finds all of them and adds nothing. It may still resolve
copies that are derived, since these are held as they are when they are added; they join the
elements that are served, after those that are there (`expandTagged_again`).

What an expansion leaves is keys that are ready (`Holdings.Ready`): there is an answer, or a
derived element to make one from. A key stays ready while others are resolved and added, and a
copy is added only where there was no answer, so at another key.
-/

namespace TemplateInventory

open Holdings Inventory

namespace Holdings

section
variable {h h' h'' : Holdings} {name : String} {values : List (Option String)}
  {r : List ElementKey} {outside added added' : List Handle}

/-! ## What lookups append -/

/-- The elements `added` have joined those that are served, at the end, each at the key of an
alteration, and the other stores have stayed. -/
structure Resolves (h h' : Holdings) (added : List Handle) : Prop extends Extends h h' where
  handles : h'.main.handles = h.main.handles ++ added
  derived : ∀ x ∈ added, h.schema.keyOf x.element ∈ h.alterationKeys

namespace Resolves

theorem refl (h : Holdings) : Resolves h h [] :=
  ⟨.refl h, (List.append_nil _).symm, fun _ hx => absurd hx List.not_mem_nil⟩

theorem trans (hx : Resolves h h' added) (hx' : Resolves h' h'' added') (hs : h'.schema = h.schema) :
    Resolves h h'' (added ++ added') := by
  refine ⟨hx.toExtends.trans hx'.toExtends, ?_, fun x hmem => ?_⟩
  · rw [hx'.handles, hx.handles, List.append_assoc]
  · rcases List.mem_append.1 hmem with hmem | hmem
    · exact hx.derived x hmem
    · have hkey := hx'.derived x hmem
      rwa [alterationKeys, hx.alterations, hs] at hkey

end Resolves

theorem exists_resolves_resolve (hr : Recalls h) (hc : Coherent outside h)
    (hv : values.length = (h.schema.attrsFor name).length) :
    ∃ added, Resolves h (h.resolve r name values).2 added := by
  obtain ⟨added, hpushes, hderived⟩ := exists_derived_pushes_resolve (r := r) hr hc hv
  exact ⟨added, extends_resolve h r name values, hpushes.handles, hderived⟩

end

end Holdings

namespace Inventory

/-! ## One copy -/

/-- Whether no name has a key attribute twice. -/
def KeysDiffer (i : Inventory) : Prop := ∀ name, (i.schema.attrsFor name).Nodup

section
variable {i i' j : Inventory} {tag : String} {node : Handle} {k : ElementKey} {isNew : Bool}
  {added n : Nat} {nodes : List Handle}

theorem KeysDiffer.count_le (hd : i.KeysDiffer) (name attr : String) :
    (i.schema.attrsFor name).count attr ≤ 1 := List.nodup_iff_count_le_one.1 (hd name) attr

theorem keysDiffer_of_moves (hm : Moves [] i j) (hd : i.KeysDiffer) : j.KeysDiffer := by
  rwa [KeysDiffer, show j.schema = i.schema from hm.leads.schema]

/-- A copy that was made, or was there, makes its key ready; and the layout has a name. -/
theorem ready_of_expandOne (hd : i.KeysDiffer) (hok : (i.expandOne tag node).1 = .ok isNew) :
    (node.element.attr i.conventions.nameAttr).isSome = true ∧
      (i.expandOne tag node).2.holdings.Ready (i.copyKey tag node) := by
  refine expandOne_cases (motive := fun r => r.1 = .ok isNew →
    (node.element.attr i.conventions.nameAttr).isSome = true ∧
      r.2.holdings.Ready (i.copyKey tag node)) (hd.count_le _ _)
    (fun _ _ h => by cases h) (fun hnamed hx _ => ⟨hnamed, ?_⟩) (fun _ _ _ h => by cases h)
    (fun _ hcopyable h => ⟨hcopyable.named, ?_⟩) hok
  · rw [copyKey_eq]
    exact .of_resolve hx
  · have hstands : Stands ((i.askCopy tag node).2.addCopy tag node).2.holdings
        ((i.askCopy tag node).2.copyHandle tag node) := Stands.of_add (ok_of_map_ok h)
    have hready := hstands.ready
    rw [show ((i.askCopy tag node).2.addCopy tag node).2.holdings.schema =
      (i.askCopy tag node).2.schema from schema_add _ _] at hready
    rwa [keyOf_copyHandle] at hready

theorem ready_expandOne (hd : i.KeysDiffer) (hr : Recalls i.holdings) (hk : i.holdings.Ready k)
    (hs : k.store = .main) : (i.expandOne tag node).2.holdings.Ready k := by
  have hasked : (i.askCopy tag node).2.holdings.Ready k := hk.resolve hs
  refine expandOne_cases (motive := fun r => r.2.holdings.Ready k) (hd.count_le _ _)
    (fun _ _ => hk) (fun _ _ => hasked) (fun _ _ _ => hasked) fun hnone _ => ?_
  exact Ready.add (h := ((i.askCopy tag node).2.mint _).2.holdings) hasked hs
    (keyOf_copyHandle_ne hr hk hnone)

/-- Where the key of a copy is ready, an element is found, and nothing is added. -/
theorem expandOne_of_ready (hd : i.KeysDiffer) (hr : Recalls i.holdings)
    (hnamed : (node.element.attr i.conventions.nameAttr).isSome = true)
    (hk : i.holdings.Ready (i.copyKey tag node)) :
    i.expandOne tag node = (.ok false, (i.askCopy tag node).2) := by
  rw [copyKey_eq] at hk
  have hsome : (i.askCopy tag node).1.isSome = true :=
    hk.isSome_resolve hr (i.length_copyValues tag node)
  refine expandOne_cases (motive := fun r => r = (.ok false, (i.askCopy tag node).2))
    (hd.count_le _ _) (fun hnone => ?_) (fun _ _ => rfl) (fun hnone => ?_) (fun hnone => ?_)
  · rw [hnone] at hnamed
    cases hnamed
  all_goals
    rw [hnone] at hsome
    cases hsome

theorem tagged_expandOne (hd : i.KeysDiffer) : (i.expandOne tag node).2.tagged = i.tagged :=
  expandOne_cases (motive := fun r => r.2.tagged = i.tagged) (hd.count_le _ _)
    (fun _ _ => rfl) (fun _ _ => rfl) (fun _ _ _ => rfl) fun _ _ => rfl

/-! ## All copies -/

theorem ready_expandAll (hd : i.KeysDiffer) (hc : Coherent [] i.holdings)
    (hr : Recalls i.holdings) (hk : i.holdings.Ready k) (hs : k.store = .main) :
    (i.expandAll tag added nodes).2.holdings.Ready k := by
  refine (expandAll_keeps (P := fun j => Moves [] i j ∧ j.holdings.Ready k) (fun j hj x _ => ?_)
    ⟨.stay hc rfl rfl, hk⟩).2
  obtain ⟨hm, hkept⟩ := hj
  exact ⟨hm.trans (moves_expandOne hm.coherent tag x),
    ready_expandOne (keysDiffer_of_moves hm hd) (hm.leads.recalls hc hr) hkept hs⟩

theorem tagged_expandAll (hd : i.KeysDiffer) (hc : Coherent [] i.holdings) :
    (i.expandAll tag added nodes).2.tagged = i.tagged := by
  refine (expandAll_keeps (P := fun j => Moves [] i j ∧ j.tagged = i.tagged) (fun j hj x _ => ?_)
    ⟨.stay hc rfl rfl, rfl⟩).2
  obtain ⟨hm, hkept⟩ := hj
  exact ⟨hm.trans (moves_expandOne hm.coherent tag x),
    (tagged_expandOne (keysDiffer_of_moves hm hd)).trans hkept⟩

/-- After an expansion, every layout that was gone through has a name, and its copy a key that
is ready. -/
theorem ready_of_expandAll (hd : i.KeysDiffer) (hc : Coherent [] i.holdings)
    (hr : Recalls i.holdings) (hok : i.expandAll tag added nodes = (.ok n, i')) :
    ∀ x ∈ nodes, (x.element.attr i.conventions.nameAttr).isSome = true ∧
      i'.holdings.Ready (i.copyKey tag x) := by
  induction nodes generalizing i added with
  | nil => exact fun x hx => absurd hx List.not_mem_nil
  | cons node nodes ih =>
    have hm := moves_expandOne hc tag node
    obtain ⟨isNew, added', hone, hrest⟩ := expandAll_cons_ok hok
    obtain ⟨hnamed, hready⟩ := ready_of_expandOne hd hone
    have hd₁ := keysDiffer_of_moves hm hd
    have hr₁ := hm.leads.recalls hc hr
    refine List.forall_mem_cons.2 ⟨⟨hnamed, ?_⟩, fun x hx => ?_⟩
    · -- The copies of the later layouts leave the key ready.
      have hkept : ((i.expandOne tag node).2.expandAll tag added' nodes).2.holdings.Ready
          (i.copyKey tag node) := ready_expandAll hd₁ hm.coherent hr₁ hready rfl
      rwa [hrest] at hkept
    · obtain ⟨hnamed, hready⟩ := ih hd₁ hm.coherent hr₁ hrest x hx
      rw [hm.conventions] at hnamed
      rw [copyKey_of_moves hm] at hready
      exact ⟨hnamed, hready⟩

/-- Where all copies have keys that are ready, an expansion only looks them up. -/
theorem expandAll_of_ready (hd : i.KeysDiffer) (hc : Coherent [] i.holdings)
    (hr : Recalls i.holdings)
    (hx : ∀ x ∈ nodes, (x.element.attr i.conventions.nameAttr).isSome = true ∧
      i.holdings.Ready (i.copyKey tag x)) :
    ∃ i' joined, i.expandAll tag added nodes = (.ok added, i') ∧
      Resolves i.holdings i'.holdings joined := by
  induction nodes generalizing i with
  | nil => exact ⟨i, [], rfl, .refl _⟩
  | cons node nodes ih =>
    obtain ⟨⟨hnamed, hready⟩, hrest⟩ := List.forall_mem_cons.1 hx
    have hone := expandOne_of_ready hd hr hnamed hready
    have hm := moves_expandOne hc tag node
    rw [hone] at hm
    obtain ⟨joined, hjoined⟩ : ∃ joined,
        Resolves i.holdings (i.askCopy tag node).2.holdings joined :=
      exists_resolves_resolve hr hc (i.length_copyValues tag node)
    obtain ⟨i', joined', hall, hjoined'⟩ := ih (keysDiffer_of_moves hm hd) hm.coherent
      (hm.leads.recalls hc hr) fun x hx => by
        obtain ⟨hnamed, hready⟩ := hrest x hx
        rw [hm.conventions, copyKey_of_moves hm]
        exact ⟨hnamed, hready.resolve rfl⟩
    refine ⟨i', joined ++ joined', ?_, hjoined.trans hjoined' hm.leads.schema⟩
    rw [expandAll, hone]
    exact hall

end

end Inventory

/-! ## The same expansion again -/

/-- After an expansion that succeeded, the same one adds nothing. It leaves the alterations and
the bases as they are, and what is served in its places, with elements after it that it resolved,
each at the key of an alteration. And every layout that was noted has an element at the key of
its copy. -/
theorem expandTagged_again {w : Workspace} (hw : Reachable w) (hd : w.inventory.KeysDiffer)
    {tag : String} {n : Nat} {i : Inventory} (hok : w.inventory.expandTagged tag = (.ok n, i)) :
    (∃ again joined, i.expandTagged tag = (.ok 0, again) ∧
      again.holdings.alterations = i.holdings.alterations ∧
      again.holdings.bases = i.holdings.bases ∧
      again.holdings.main.handles = i.holdings.main.handles ++ joined ∧
      ∀ x ∈ joined, ∃ a ∈ i.holdings.alterations.handles,
        i.schema.keyOf a.element = i.schema.keyOf x.element) ∧
    ∀ x ∈ w.inventory.tagged, ∃ name, x.element.attr i.conventions.nameAttr = some name ∧
      (i.getElement x.element.name ((i.schema.attrsFor x.element.name).map fun a =>
        if i.conventions.nameAttr = a then some (name ++ "-" ++ tag)
        else x.element.attr a)).1.isSome = true := by
  have hc : Coherent [] w.inventory.holdings := hw.coherent
  have hr := hw.recalls
  have hm : Moves [] w.inventory (w.inventory.expandTagged tag).2 := moves_expandAll hc tag 0 _
  have htagged : (w.inventory.expandTagged tag).2.tagged = w.inventory.tagged :=
    tagged_expandAll hd hc
  rw [hok] at hm htagged
  have hd' := keysDiffer_of_moves hm hd
  have hr' := hm.leads.recalls hc hr
  have hready : ∀ x ∈ w.inventory.tagged, (x.element.attr i.conventions.nameAttr).isSome = true ∧
      i.holdings.Ready (i.copyKey tag x) := by
    intro x hx
    rw [hm.conventions, copyKey_of_moves hm]
    exact ready_of_expandAll hd hc hr hok x hx
  constructor
  · obtain ⟨again, joined, hagain, hjoined⟩ : ∃ again joined,
        i.expandTagged tag = (.ok 0, again) ∧ Resolves i.holdings again.holdings joined :=
      expandAll_of_ready hd' hm.coherent hr' (htagged ▸ hready)
    refine ⟨again, joined, hagain, hjoined.alterations, hjoined.bases, hjoined.handles, ?_⟩
    exact fun x hx => List.mem_map.1 (hjoined.derived x hx)
  · intro x hx
    obtain ⟨hnamed, hkey⟩ := hready x hx
    obtain ⟨name, hname⟩ := Option.isSome_iff_exists.1 hnamed
    refine ⟨name, hname, ?_⟩
    have hfit := i.schema.fit_valuesOf (i.conventions.copyOf tag x.element)
    rw [Conventions.name_copyOf] at hfit
    rw [copyKey_eq] at hkey
    change (i.holdings.resolve [] _ (i.schema.fit _ _)).1.isSome = true
    rw [show name ++ "-" ++ tag = withTag name tag from rfl, ← valuesOf_copyOf i.schema hname, hfit]
    exact hkey.isSome_resolve hr' (i.length_copyValues tag x)

/-! ## A derived layout -/

/-- A workspace that has read a tagged layout and one that is derived from it. -/
def Workspace.ofSideLayout : Workspace :=
  (Workspace.blank .layouts).run
    (.loadText ("<Inventory><layout type=\"jtview\" name=\"Main\" tagForWs=\"true\"/>" ++
      "<layout type=\"jtview\" name=\"Side\" base=\"Main\" tagForWs=\"true\"/></Inventory>") 0)

theorem reachable_ofSideLayout : Reachable .ofSideLayout :=
  (reachable_blank .layouts).step (r := .loadText _ 0) trivial

theorem keysDiffer_layouts {i : Inventory} (hs : i.schema = .layouts) : i.KeysDiffer := by
  intro name
  rw [hs]
  by_cases hn : name = "layout"
  · rw [hn]
    decide
  · have hnone : KeySchema.layouts.attrsFor name = [] := by
      simp [KeySchema.layouts, KeySchema.attrsFor, KeySchema.ofList, Table.ofList, Table.putAll,
        Ne.symm hn]
    rw [hnone]
    exact List.nodup_nil

theorem expand_sideLayout :
    let i := Workspace.ofSideLayout.inventory
    i.conventions = {} ∧ i.schema = .layouts ∧ (i.expandTagged "en").1 = .ok 2 ∧
      (i.expandTagged "en").2.elements.map (·.attr "name") = [some "Main", some "Main-en"] ∧
      ((i.expandTagged "en").2.expandTagged "en").2.elements.map (·.attr "name") =
        [some "Main", some "Main-en", some "Side-en"] := by
  decide +kernel

/-- The copies for English are found again, and that of the derived layout is resolved. -/
theorem expandTagged_again_sideLayout :
    Reachable .ofSideLayout ∧ Workspace.ofSideLayout.inventory.KeysDiffer ∧
      ∃ i again x, Workspace.ofSideLayout.inventory.expandTagged "en" = (.ok 2, i) ∧
        i.expandTagged "en" = (.ok 0, again) ∧
        again.holdings.alterations = i.holdings.alterations ∧
        again.holdings.main.handles = i.holdings.main.handles ++ [x] ∧
        x.element.attr "name" = some "Side-en" := by
  obtain ⟨-, hschema, hok, hmain, hagain⟩ := expand_sideLayout
  have hd : Workspace.ofSideLayout.inventory.KeysDiffer := keysDiffer_layouts hschema
  rcases hi : Workspace.ofSideLayout.inventory.expandTagged "en" with ⟨result, i⟩
  rw [hi] at hok hmain hagain
  obtain rfl : result = .ok 2 := hok
  obtain ⟨⟨again, joined, hnone, halterations, -, hhandles, -⟩, -⟩ :=
    expandTagged_again reachable_ofSideLayout hd hi
  -- One element has joined the two that were served.
  have hnames : i.elements.map (·.attr "name") ++
      (joined.map Handle.element).map (·.attr "name") =
        [some "Main", some "Main-en", some "Side-en"] := by
    rw [← hagain, hnone, Inventory.elements, Inventory.elements, Store.elements, Store.elements,
      hhandles, List.map_append, List.map_append]
  rw [hmain] at hnames
  have hjoined : (joined.map Handle.element).map (·.attr "name") = [some "Side-en"] :=
    List.append_cancel_left hnames
  rw [List.map_map] at hjoined
  obtain ⟨x, rfl, hx⟩ := List.map_eq_singleton_iff.1 hjoined
  exact ⟨reachable_ofSideLayout, hd, i, again, x, rfl, hnone, halterations, hhandles, hx⟩

end TemplateInventory
