import TemplateInventory.Proofs.Copying
import TemplateInventory.Proofs.Tagging
/-!
# Copies of tagged layouts

What was added stands at its key (`Holdings.Stands`): it is served, and held, or if it is
derived it is the derived element of its key. It does so while others are added at other
keys, and a lookup of its key finds an element (`Holdings.Ready`).

An expansion goes through the layouts that were noted, in the order in which they were read. It
makes a copy of the first one of each key of copies and leaves the others, since there is
a copy then. So it copies the first definition of a layout that was read, which is not the
one that is served where a later one took its place (`first_definition_copied`).
-/

namespace TemplateInventory

open Holdings Inventory

namespace Holdings

/-! ## What was added -/

/-- Whether an element is where lookups of its key find it. -/
structure Stands (h : Holdings) (c : Handle) : Prop where
  plain : c.element.base = none →
    h.Answered (h.schema.keyOf c.element) (some c) ∧ c ∈ h.main.handles
  derived : c.element.base ≠ none →
    h.cache.get ((h.schema.keyOf c.element).inStore .alterations) = .found c

section
variable {h h' : Holdings} {k q : ElementKey} {name : String} {values : List (Option String)}
  {r : List ElementKey} {c x node : Handle} {e : Element} {outside : List Handle}

theorem get_afterFind_known (name : String) (values : List (Option String))
    (hq : h.cache.get q ≠ .notQueried) :
    (h.afterFind name values).cache.get q = h.cache.get q := by
  have hmain := get_findIn_known .main name values hq
  exact (get_findIn_known .alterations name values (hmain ▸ hq)).trans hmain

theorem get_settle_other (a : Handle) (b : Option Handle) (hne : k ≠ q) :
    (h.settle k a b).2.cache.get q = h.cache.get q := by
  cases b with
  | none => exact (get_remember { h with main := _ } k q _).trans (if_neg hne)
  | some b => exact (get_remember { h with main := _, nextSerial := _ } k q _).trans (if_neg hne)

/-- What the memory knows of another store stays there while keys are resolved. -/
theorem get_resolve_known (hs : q.store ≠ .main) (hq : h.cache.get q ≠ .notQueried) :
    (h.resolve r name values).2.cache.get q = h.cache.get q := by
  have hne : ∀ values, ElementKey.of name values .main ≠ q := by
    rintro values rfl
    exact hs rfl
  induction h, r, values using resolve_induction (n := name) with
  | found hm => rw [resolve_found hm]; exact get_findIn_known _ _ _ hq
  | open_ hm hk => rw [resolve_open hm hk]; exact get_findIn_known _ _ _ hq
  | missing hm hk ha => rw [resolve_missing hm hk ha]; exact get_afterFind_known _ _ hq
  | alone hm hk ha hb =>
    rw [resolve_alone hm hk ha hb]
    exact (get_settle_other _ none (hne _)).trans (get_afterFind_known _ _ hq)
  | @based h r values a values' hm hk ha hb ih =>
    have hfind := get_afterFind_known name values hq
    rw [resolve_based hm hk ha hb]
    exact (get_settle_other _ _ (hne _)).trans ((ih (by rwa [hfind])).trans hfind)

/-- An alteration that is known stays so while others are added at other keys. -/
theorem get_alteration_add (hs : k.store = .main) (hne : h.schema.keyOf node.element ≠ k)
    (hd : h.cache.get (k.inStore .alterations) = .found x) :
    (h.add node).2.cache.get (k.inStore .alterations) = .found x := by
  have hapart : Apart (h.schema.keyOf node.element) k := .of_ne hs.symm hne
  rw [get_add_apart (hapart.inStore .alterations), hd]
  unfold Holdings.overridden
  split
  · rfl
  · exact get_resolve_known (by simp) (by rw [hd]; simp)

/-! ## Keys that will be answered -/

/-- Whether a key has an answer, or a derived element to make one from. -/
def Ready (h : Holdings) (k : ElementKey) : Prop :=
  (∃ x, h.Answered k (some x)) ∨ ∃ a, h.cache.get (k.inStore .alterations) = .found a

namespace Ready

theorem of_resolve (hx : (h.resolve [] name values).1.isSome = true) :
    (h.resolve [] name values).2.Ready (.of name values .main) := by
  obtain ⟨x, hx⟩ := Option.isSome_iff_exists.1 hx
  exact .inl ⟨x, hx ▸ answered_resolve h name values⟩

theorem resolve (hk : h.Ready k) (hs : k.store = .main) : (h.resolve r name values).2.Ready k := by
  rcases hk with ⟨x, hx⟩ | ⟨a, ha⟩
  · exact .inl ⟨x, hx.resolve hs r name values⟩
  · exact .inr ⟨a, (get_resolve_known (by simp) (by rw [ha]; simp)).trans ha⟩

theorem add (hk : h.Ready k) (hs : k.store = .main) (hne : h.schema.keyOf node.element ≠ k) :
    (h.add node).2.Ready k := by
  rcases hk with ⟨x, hx⟩ | ⟨a, ha⟩
  · exact .inl ⟨x, hx.add hs hne⟩
  · exact .inr ⟨a, get_alteration_add hs hne ha⟩

/-- A lookup of a key that is ready finds an element. -/
theorem isSome_resolve (hk : h.Ready (.of name values .main)) (hr : Recalls h)
    (hv : values.length = (h.schema.attrsFor name).length) :
    (h.resolve [] name values).1.isSome = true := by
  rcases hk with ⟨x, hx⟩ | ⟨a, ha⟩
  · rw [hx.resolve_eq]
    rfl
  · have hrem : h.remembered (.of name values .alterations) = some a := congrArg Lookup.found? ha
    have hkey := congrArg (ElementKey.inStore · .main) (hr.keyed _ a hrem)
    exact Holdings.isSome_resolve hr hv List.not_mem_nil
      (List.mem_map.2 ⟨a, hr.held _ a rfl hrem, hkey⟩)

end Ready

/-! ## Elements that stand -/

/-- Elements that are served stay so while keys are resolved. -/
theorem mem_resolve (hr : Recalls h) (hc : Coherent outside h)
    (hv : values.length = (h.schema.attrsFor name).length) (hx : x ∈ h.main.handles) :
    x ∈ (h.resolve r name values).2.main.handles := by
  obtain ⟨added, hadded⟩ := exists_pushes_resolve (r := r) hr hc hv
  rw [hadded.handles]
  exact List.mem_append_left _ hx

/-- Elements that are served stay so while others are added at other keys. -/
theorem mem_add_other_key (hr : Recalls h) (hc : Coherent (node :: outside) h)
    (hx : x ∈ h.main.handles) (hne : h.schema.keyOf node.element ≠ h.schema.keyOf x.element) :
    x ∈ (h.add node).2.main.handles := by
  have hlen := h.schema.length_valuesOf node.element
  -- The element that gives way has the key of the one that is added.
  have hkeep : ∀ {h' : Holdings} {y : Handle}, h'.schema = h.schema → Recalls h' →
      Coherent (node :: outside) h' → x ∈ h'.main.handles →
      h'.remembered (h.schema.keyOf node.element) = some y → x.same y = false := by
    intro h' y hs hr' hc' hx' hy
    rw [← Bool.not_eq_true]
    intro hsame
    have heq := hc'.element_eq (.inr (.inr ⟨_, hy⟩)) (.inr (.inl ⟨.main, hx'⟩)) hsame
    have hkey : h'.schema.keyOf y.element = h.schema.keyOf node.element :=
      congrArg (ElementKey.inStore · .main) (hr'.keyed _ y hy)
    exact hne (by rw [heq, ← hkey, hs])
  have hover : x ∈ (h.overridden node.element.name (h.schema.valuesOf node.element)).2.main.handles := by
    unfold Holdings.overridden
    split
    · exact hx
    · exact mem_resolve hr hc hlen hx
  refine add_cases (motive := fun r => x ∈ r.2.main.handles) ?plain ?refused ?unfounded ?override
    ?alteration
  case plain => exact fun _ => Store.mem_replace_other hx fun y hy => hkeep rfl hr hc hx hy
  case refused => exact fun _ => hx
  case unfounded => exact fun _ => hover
  case override =>
    intro base h' extant _ _ ho _
    have hh : h' = (h.overridden node.element.name (h.schema.valuesOf node.element)).2 := by rw [ho]
    have hy : h'.remembered (h.schema.keyOf node.element) = some extant :=
      hh ▸ Coherent.remembered_overridden (by rw [ho])
    have hx' : x ∈ h'.main.handles := hh ▸ hover
    refine Store.mem_replace_other hx' fun y hy' => ?_
    cases hy'
    exact hkeep (by rw [hh, schema_overridden]) (hh ▸ hr.overridden hc hlen) (hh ▸ hc.overridden) hx' hy
  case alteration =>
    intro _ _ _ _ _
    change x ∈ (h.displace (h.schema.keyOf node.element)).main.handles
    unfold Holdings.displace
    split
    · next y hy => exact Store.mem_remove_other hx (hkeep rfl hr hc hx hy)
    · exact hx

namespace Stands

theorem of_add (hok : (h.add node).1 = .ok ()) : (h.add node).2.Stands node := by
  have haltered : ∀ {h' : Holdings}, h'.schema = h.schema → node.element.base ≠ none →
      (h'.addAlteration (h.schema.keyOf node.element) node).Stands node := by
    intro h' hs hb
    refine ⟨fun h => absurd h hb, fun _ => ?_⟩
    rw [show (h'.addAlteration _ node).schema = h.schema from hs]
    exact get_addAlteration_self _ _ _
  refine add_cases (motive := fun r => r.1 = .ok () → r.2.Stands node) ?plain ?refused ?unfounded
    ?override ?alteration hok
  case plain =>
    intro hb _
    refine ⟨fun _ => ⟨?_, Store.mem_replace_self _⟩, fun h => absurd hb h⟩
    exact (get_remember { h with main := _ } _ _ _).trans (if_pos rfl)
  case refused => exact fun _ h => by cases h
  case unfounded => exact fun _ h => by cases h
  case override =>
    intro base h' extant hb _ ho _ _
    refine haltered ?_ (by rw [hb]; simp)
    exact (congrArg (·.2.schema) ho).symm.trans (schema_overridden _ _ _)
  case alteration =>
    intro base _ hb _ _ _
    exact haltered (schema_displace _ _) (by rw [hb]; simp)

theorem serial (hs : h.Stands c) (n : Nat) : Stands { h with nextSerial := n } c :=
  ⟨hs.plain, hs.derived⟩

theorem resolve (hs : h.Stands c) (hr : Recalls h) (hc : Coherent outside h)
    (hv : values.length = (h.schema.attrsFor name).length) :
    (h.resolve [] name values).2.Stands c := by
  refine ⟨fun hb => ?_, fun hb => ?_⟩
  · rw [schema_resolve]
    exact ⟨(hs.plain hb).1.resolve rfl [] name values, mem_resolve hr hc hv (hs.plain hb).2⟩
  · have hd := hs.derived hb
    rw [schema_resolve, get_resolve_known (by simp) (by rw [hd]; simp), hd]

theorem add (hs : h.Stands c) (hr : Recalls h) (hc : Coherent (node :: outside) h)
    (hne : h.schema.keyOf node.element ≠ h.schema.keyOf c.element) : (h.add node).2.Stands c := by
  refine ⟨fun hb => ?_, fun hb => ?_⟩
  · rw [schema_add]
    exact ⟨(hs.plain hb).1.add rfl hne, mem_add_other_key hr hc (hs.plain hb).2 hne⟩
  · rw [schema_add]
    exact get_alteration_add rfl hne (hs.derived hb)

theorem ready (hs : h.Stands c) : h.Ready (h.schema.keyOf c.element) := by
  by_cases hb : c.element.base = none
  · exact .inl ⟨c, (hs.plain hb).1⟩
  · exact .inr ⟨c, hs.derived hb⟩

theorem getElement (hs : h.Stands c) (hk : h.schema.keyOf c.element = h.schema.keyOf e)
    (hb : c.element.base = none) : (h.getElement e.name (h.schema.valuesOf e)).1 = some c := by
  rw [Holdings.getElement, KeySchema.fit_valuesOf]
  have ha := (hs.plain hb).1
  rw [hk] at ha
  exact ha.resolve_eq

theorem getAlteration (hs : h.Stands c) (hk : h.schema.keyOf c.element = h.schema.keyOf e)
    (hb : c.element.base ≠ none) : (h.getAlteration e.name (h.schema.valuesOf e)).1 = some c := by
  rw [Holdings.getAlteration, KeySchema.fit_valuesOf]
  have hd := hs.derived hb
  rw [hk] at hd
  exact congrArg Prod.fst (findIn_of_found hd)

end Stands

/-- An element is added if it is not derived, or is derived from another identity. -/
theorem add_ok (hb : ∀ base, node.element.base = some base →
      ∃ identity, h.schema.identityOf node.element = some identity ∧ identity ≠ base) :
    (h.add node).1 = .ok () := by
  unfold add
  cases hbase : node.element.base with
  | none => rfl
  | some base =>
    obtain ⟨identity, hid, hne⟩ := hb base hbase
    obtain ⟨attr, hattr, hvalue⟩ := Option.bind_eq_some_iff.1 hid
    simp only [hattr, Element.requiredAttr, hvalue, if_neg hne]

/-! ## Keys without elements -/

/-- Whether no element has a key, and none is known to have it in any store. -/
structure Lacks (h : Holdings) (k : ElementKey) : Prop where
  held : ∀ s, ∀ x ∈ (h.store s).handles, h.schema.keyOf x.element ≠ k
  known : ∀ s, h.remembered (k.inStore s) = none

/-- Whether nothing that is held or remembered has a key. -/
abbrev OnlySeesOthers (h : Holdings) (k : ElementKey) : Prop :=
  OnlySees (fun _ => True) (h.schema.keyOf · ≠ k) h

theorem Lacks.onlySees (hl : h.Lacks k) (hr : Recalls h) : h.OnlySeesOthers k := by
  refine ⟨?_, fun _ _ => trivial⟩
  rintro x (⟨s, hs⟩ | ⟨q, hq⟩) rfl
  · exact hl.held s x hs rfl
  · have hknown := hl.known q.store
    rw [hr.keyed q x hq, hq] at hknown
    cases hknown

theorem unifies_keyOf_ne (s : KeySchema) (k : ElementKey) :
    s.Unifies (fun _ => True) (s.keyOf · ≠ k) := by
  intro a b base _ ha _ hi hb
  rwa [keyOf_unify hi hb]

namespace OnlySeesOthers

theorem resolve (ho : h.OnlySeesOthers k) (hr : Recalls h) (hc : Coherent outside h)
    (hv : values.length = (h.schema.attrsFor name).length) :
    (h.resolve r name values).2.OnlySeesOthers k := by
  rw [OnlySeesOthers, schema_resolve]
  exact OnlySees.resolve ho (unifies_keyOf_ne _ k) hr hc hv

theorem add (ho : h.OnlySeesOthers k) (hr : Recalls h) (hc : Coherent outside h)
    (hk : h.schema.keyOf node.element ≠ k) : (h.add node).2.OnlySeesOthers k := by
  rw [OnlySeesOthers, schema_add]
  exact OnlySees.add ho (unifies_keyOf_ne _ k) hr hc hk fun _ => trivial

theorem resolve_eq_none (ho : h.OnlySeesOthers k) (hr : Recalls h)
    (hc : Coherent outside h) (hk : k = .of name values .main)
    (hv : values.length = (h.schema.attrsFor name).length) : (h.resolve [] name values).1 = none := by
  cases hx : (h.resolve [] name values).1 with
  | none => rfl
  | some x =>
    have hne := (ho.resolve (r := []) hr hc hv).seen x (.inr ⟨_, Coherent.remembered_resolve hx⟩)
    rw [schema_resolve] at hne
    exact absurd ((hr.keyOf_resolve hc hv hx).trans hk.symm) hne

end OnlySeesOthers

end

end Holdings

/-! ## One copy -/

namespace Inventory

/-- The key of the copy of a layout for a tag. -/
def copyKey (i : Inventory) (tag : String) (x : Handle) : ElementKey :=
  i.schema.keyOf (i.conventions.copyOf tag x.element)

/-- Whether the name is a key attribute of tagged layouts at most once. -/
def NamesOnce (i : Inventory) : Prop :=
  (i.schema.attrsFor i.conventions.taggedElement).count i.conventions.nameAttr ≤ 1

/-- Whether a layout can be copied, and the copy added: a copy that is derived has a base
of another identity. -/
structure Expandable (i : Inventory) (tag : String) (e : Element) : Prop where
  copyable : i.conventions.Copyable e
  based : ∀ base, (i.conventions.copyOf tag e).base = some base →
    ∃ identity, i.schema.identityOf (i.conventions.copyOf tag e) = some identity ∧ identity ≠ base

theorem Expandable.of_plain {i : Inventory} {tag : String} {e : Element}
    (hc : i.conventions.Copyable e) (hb : e.base = none) : i.Expandable tag e := by
  refine ⟨hc, fun base h => ?_⟩
  rw [Conventions.base_copyOf_eq_none.2 hb] at h
  cases h

section
variable {i i' j : Inventory} {tag : String} {node c : Handle} {k : ElementKey} {added n : Nat}
  {nodes later : List Handle}

/-- The lookup of the copy of a layout. -/
def askCopy (i : Inventory) (tag : String) (node : Handle) : Option Handle × Inventory :=
  i.onHoldings (·.resolve [] node.element.name
    (i.schema.valuesOf (i.conventions.copyOf tag node.element)))

/-- The copy of a layout as it is added. -/
def copyHandle (i : Inventory) (tag : String) (node : Handle) : Handle :=
  node.revise i.holdings.nextSerial (i.conventions.copyOf tag node.element)

/-- Makes and adds the copy of a layout. -/
def addCopy (i : Inventory) (tag : String) (node : Handle) : Except InventoryError Unit × Inventory :=
  (i.mint (i.copyHandle tag node).element).2.add (i.copyHandle tag node)

/-- What making a copy can come to. -/
theorem expandOne_cases {motive : Except InventoryError Bool × Inventory → Prop}
    (hk : (i.schema.attrsFor node.element.name).count i.conventions.nameAttr ≤ 1)
    (nameless : node.element.attr i.conventions.nameAttr = none → ∀ e, motive (.error e, i))
    (present : (node.element.attr i.conventions.nameAttr).isSome = true →
      (i.askCopy tag node).1.isSome = true → motive (.ok false, (i.askCopy tag node).2))
    (uncopied : (i.askCopy tag node).1 = none → ¬ i.conventions.Copyable node.element →
      ∀ e, motive (.error e, (i.askCopy tag node).2))
    (copied : (i.askCopy tag node).1 = none → i.conventions.Copyable node.element →
      motive (((i.askCopy tag node).2.addCopy tag node).1.map fun _ => true,
        ((i.askCopy tag node).2.addCopy tag node).2)) :
    motive (i.expandOne tag node) := by
  unfold expandOne
  cases hv : node.element.requiredAttr i.conventions.nameAttr with
  | error e =>
    refine nameless (Option.eq_none_iff_forall_ne_some.2 fun v hv' => ?_) e
    rw [requiredAttr_eq_ok.2 hv'] at hv
    cases hv
  | ok name =>
    have hattr := requiredAttr_eq_ok.1 hv
    have hvalues : i.valuesOfCopy (withTag name tag) node.element = _ :=
      valuesOfCopy_eq hattr hk
    simp only [hvalues]
    rcases hr : i.askCopy tag node with ⟨_ | x, j⟩
    all_goals
      rw [hr] at present uncopied copied
      rw [show i.onHoldings _ = _ from hr]
    · have hconventions : j.conventions = i.conventions := congrArg (·.2.conventions) hr.symm
      simp only [hconventions]
      cases hcopy : copyTagged i.conventions tag (withTag name tag) node.element with
      | error e =>
        refine uncopied rfl (fun h => ?_) e
        rw [(copyTagged_ok_iff hattr).2 ⟨h, rfl⟩] at hcopy
        cases hcopy
      | ok copy =>
        obtain ⟨hcopyable, rfl⟩ := (copyTagged_ok_iff hattr).1 hcopy
        have hadd : j.addCopy tag node = (j.mint (i.conventions.copyOf tag node.element)).2.add
            (node.revise j.holdings.nextSerial (i.conventions.copyOf tag node.element)) := by
          rw [addCopy, copyHandle, hconventions]
          rfl
        have hmade := copied rfl hcopyable
        rw [hadd] at hmade
        simp only
        rcases ha : (j.mint (i.conventions.copyOf tag node.element)).2.add
          (node.revise j.holdings.nextSerial (i.conventions.copyOf tag node.element)) with ⟨_ | _, j'⟩
        all_goals
          rw [ha] at hmade
          exact hmade
    · exact present (by rw [hattr]; rfl) rfl

/-- The values that are asked for are those of the copy. -/
theorem length_copyValues (i : Inventory) (tag : String) (node : Handle) :
    (i.schema.valuesOf (i.conventions.copyOf tag node.element)).length =
      (i.holdings.schema.attrsFor node.element.name).length := by
  rw [KeySchema.length_valuesOf, Conventions.name_copyOf]
  rfl

theorem coherent_copyHandle (hc : Coherent [] i.holdings) (tag : String) (node : Handle) :
    Coherent [i.copyHandle tag node] (i.mint (i.copyHandle tag node).element).2.holdings :=
  hc.make (congrArg NodeId.serial (Handle.id_revise node _ _))

/-- The lookup asks for the key of the copy. -/
theorem copyKey_eq (i : Inventory) (tag : String) (node : Handle) : i.copyKey tag node =
    .of node.element.name (i.schema.valuesOf (i.conventions.copyOf tag node.element)) .main := by
  rw [copyKey, KeySchema.keyOf, Conventions.name_copyOf]

/-- The key of the copy that is added is the one that was asked for. -/
theorem keyOf_copyHandle (i : Inventory) (tag : String) (node : Handle) :
    (i.askCopy tag node).2.schema.keyOf ((i.askCopy tag node).2.copyHandle tag node).element =
      i.copyKey tag node := by
  rw [show (i.askCopy tag node).2.schema = i.schema from schema_resolve i.holdings [] _ _]
  rfl

theorem onlySeesOthers_expandOne (hn : i.NamesOnce)
    (hname : node.element.name = i.conventions.taggedElement) (hc : Coherent [] i.holdings)
    (hr : Recalls i.holdings) (ho : i.holdings.OnlySeesOthers k) (hne : i.copyKey tag node ≠ k) :
    (i.expandOne tag node).2.holdings.OnlySeesOthers k := by
  have hv := i.length_copyValues tag node
  have hasked : (i.askCopy tag node).2.holdings.OnlySeesOthers k := ho.resolve hr hc hv
  refine expandOne_cases (motive := fun r => r.2.holdings.OnlySeesOthers k) (hname ▸ hn)
    (fun _ _ => ho) (fun _ _ => hasked) (fun _ _ _ => hasked) fun _ _ => ?_
  refine OnlySeesOthers.add (OnlySees.serial hasked _) ((hr.resolve hc hv).serial _)
    (coherent_copyHandle hc.resolve tag node) ?_
  exact i.keyOf_copyHandle tag node ▸ hne

/-- A copy that is counted was added. -/
theorem ok_of_map_ok {result : Except InventoryError Unit} {isNew : Bool}
    (h : (result.map fun _ => true) = .ok isNew) : result = .ok () := by
  cases result with
  | error e => cases h
  | ok _ => rfl

/-- The first copy of its key is added, and stands. -/
theorem exists_stands_expandOne (hn : i.NamesOnce)
    (hname : node.element.name = i.conventions.taggedElement) (hc : Coherent [] i.holdings)
    (hr : Recalls i.holdings) (ho : i.holdings.OnlySeesOthers (i.copyKey tag node)) {isNew : Bool}
    (hok : (i.expandOne tag node).1 = .ok isNew) :
    ∃ c, c.element = i.conventions.copyOf tag node.element ∧
      (i.expandOne tag node).2.holdings.Stands c := by
  have hv := i.length_copyValues tag node
  have hnone : (i.askCopy tag node).1 = none :=
    ho.resolve_eq_none hr hc (i.copyKey_eq tag node) hv
  refine expandOne_cases (motive := fun r => r.1 = .ok isNew →
    ∃ c, c.element = i.conventions.copyOf tag node.element ∧ r.2.holdings.Stands c) (hname ▸ hn)
    (fun _ _ h => by cases h) (fun _ h => ?_) (fun _ _ _ h => by cases h) (fun _ _ h => ?_) hok
  · rw [hnone] at h
    cases h
  · exact ⟨(i.askCopy tag node).2.copyHandle tag node, rfl, Stands.of_add (ok_of_map_ok h)⟩

/-- No copy is added at a key that has an element. -/
theorem keyOf_copyHandle_ne (hr : Recalls i.holdings) (hk : i.holdings.Ready k)
    (hnone : (i.askCopy tag node).1 = none) :
    (i.askCopy tag node).2.schema.keyOf ((i.askCopy tag node).2.copyHandle tag node).element ≠ k := by
  rw [keyOf_copyHandle]
  rintro rfl
  rw [copyKey_eq] at hk
  have hsome : (i.askCopy tag node).1.isSome = true :=
    hk.isSome_resolve hr (i.length_copyValues tag node)
  rw [hnone] at hsome
  cases hsome

/-- What stands is left as it is. -/
theorem stands_expandOne (hn : i.NamesOnce)
    (hname : node.element.name = i.conventions.taggedElement) (hc : Coherent [] i.holdings)
    (hr : Recalls i.holdings) (hs : i.holdings.Stands c) :
    (i.expandOne tag node).2.holdings.Stands c := by
  have hv := i.length_copyValues tag node
  have hasked : (i.askCopy tag node).2.holdings.Stands c := hs.resolve hr hc hv
  refine expandOne_cases (motive := fun r => r.2.holdings.Stands c) (hname ▸ hn)
    (fun _ _ => hs) (fun _ _ => hasked) (fun _ _ _ => hasked) fun hnone _ => ?_
  refine (hasked.serial _).add ((hr.resolve hc hv).serial _)
    (coherent_copyHandle hc.resolve tag node) ?_
  have hkey : (i.askCopy tag node).2.holdings.schema.keyOf c.element =
      i.holdings.schema.keyOf c.element :=
    congrArg (KeySchema.keyOf · c.element) (schema_resolve _ _ _ _)
  exact fun he => keyOf_copyHandle_ne hr hs.ready hnone (he.trans hkey)

theorem expandOne_ok (hn : i.NamesOnce) (hname : node.element.name = i.conventions.taggedElement)
    (hx : i.Expandable tag node.element) : ∃ isNew, (i.expandOne tag node).1 = .ok isNew := by
  refine expandOne_cases (motive := fun r => ∃ isNew, r.1 = .ok isNew) (hname ▸ hn) (fun h => ?_)
    (fun _ _ => ⟨false, rfl⟩) (fun _ h => absurd hx.copyable h) fun _ _ => ⟨true, ?_⟩
  · have hnamed := hx.copyable.named
    rw [h] at hnamed
    cases hnamed
  have hadd : ((i.askCopy tag node).2.addCopy tag node).1 = .ok () := by
    refine add_ok fun base hb => ?_
    obtain ⟨identity, hid, hne⟩ := hx.based base hb
    refine ⟨identity, ?_, hne⟩
    change (i.askCopy tag node).2.schema.identityOf _ = some identity
    rw [show (i.askCopy tag node).2.schema = i.schema from schema_resolve i.holdings [] _ _]
    exact hid
  rw [hadd]
  rfl

/-! ## All copies -/

theorem copyKey_of_moves (hm : Moves [] i j) (tag : String) (x : Handle) :
    j.copyKey tag x = i.copyKey tag x := by
  rw [copyKey, copyKey, hm.conventions, show j.schema = i.schema from hm.leads.schema]

theorem namesOnce_of_moves (hm : Moves [] i j) (hn : i.NamesOnce) : j.NamesOnce := by
  rwa [NamesOnce, hm.conventions, show j.schema = i.schema from hm.leads.schema]

/-- What each copy keeps is kept by all. -/
theorem expandAll_keeps {P : Inventory → Prop}
    (hstep : ∀ j, P j → ∀ node ∈ nodes, P (j.expandOne tag node).2) (hp : P i) :
    P (i.expandAll tag added nodes).2 := by
  induction nodes generalizing i added with
  | nil => exact hp
  | cons node nodes ih =>
    have hone := hstep i hp node List.mem_cons_self
    rw [expandAll]
    rcases hr : i.expandOne tag node with ⟨_ | isNew, i₁⟩
    all_goals rw [hr] at hone
    · exact hone
    · exact ih (fun j hj x hx => hstep j hj x (List.mem_cons_of_mem node hx)) hone

theorem expandAll_cons_ok (h : i.expandAll tag added (node :: nodes) = (.ok n, i')) :
    ∃ isNew added', (i.expandOne tag node).1 = .ok isNew ∧
      (i.expandOne tag node).2.expandAll tag added' nodes = (.ok n, i') := by
  rw [expandAll] at h
  rcases hr : i.expandOne tag node with ⟨_ | isNew, i₁⟩
  · rw [hr] at h
    cases h
  · rw [hr] at h
    exact ⟨isNew, _, rfl, h⟩

theorem expandAll_append_ok (h : i.expandAll tag added (nodes ++ later) = (.ok n, i')) :
    ∃ added', (i.expandAll tag added nodes).2.expandAll tag added' later = (.ok n, i') := by
  induction nodes generalizing i added with
  | nil => exact ⟨added, h⟩
  | cons node nodes ih =>
    rw [List.cons_append, expandAll] at h
    rw [expandAll]
    rcases hr : i.expandOne tag node with ⟨_ | isNew, i₁⟩
    · rw [hr] at h
      cases h
    · rw [hr] at h
      exact ih h

/-- If every layout can be copied, an expansion succeeds. -/
theorem expandAll_ok (hn : i.NamesOnce) (hc : Coherent [] i.holdings)
    (hname : ∀ x ∈ nodes, x.element.name = i.conventions.taggedElement)
    (hx : ∀ x ∈ nodes, i.Expandable tag x.element) :
    ∃ n, (i.expandAll tag added nodes).1 = .ok n := by
  induction nodes generalizing i added with
  | nil => exact ⟨added, rfl⟩
  | cons node nodes ih =>
    have hm := moves_expandOne hc tag node
    obtain ⟨isNew, hok⟩ := expandOne_ok hn (hname node List.mem_cons_self) (hx node List.mem_cons_self)
    rw [expandAll]
    rcases hr : i.expandOne tag node with ⟨_ | b, i₁⟩
    all_goals rw [hr] at hok hm
    · cases hok
    · refine ih (namesOnce_of_moves hm hn) hm.coherent (fun x h => ?_) fun x h => ?_
      · rw [hm.conventions]
        exact hname x (List.mem_cons_of_mem node h)
      · obtain ⟨hcopyable, hbased⟩ := hx x (List.mem_cons_of_mem node h)
        refine ⟨hm.conventions ▸ hcopyable, ?_⟩
        rw [hm.conventions, show i₁.schema = i.schema from hm.leads.schema]
        exact hbased

/-- The copy of the first layout of its key of copies is added, and stands at the end. -/
theorem expandAll_stands {before after : List Handle} (hn : i.NamesOnce)
    (hc : Coherent [] i.holdings) (hr : Recalls i.holdings)
    (hname : ∀ x ∈ before ++ node :: after, x.element.name = i.conventions.taggedElement)
    (ho : i.holdings.OnlySeesOthers (i.copyKey tag node))
    (hbefore : ∀ x ∈ before, i.copyKey tag x ≠ i.copyKey tag node)
    (hok : i.expandAll tag added (before ++ node :: after) = (.ok n, i')) :
    ∃ c, c.element = i.conventions.copyOf tag node.element ∧ i'.schema = i.schema ∧
      i'.holdings.Stands c := by
  have hrecalls : ∀ {j}, Moves [] i j → Recalls j.holdings := fun hm => hm.leads.recalls hc hr
  have hnameAt : ∀ {j}, Moves [] i j → ∀ x ∈ before ++ node :: after,
      x.element.name = j.conventions.taggedElement := fun hm x hx => hm.conventions ▸ hname x hx
  obtain ⟨added₁, hrest⟩ := expandAll_append_ok hok
  -- Before the layout, only copies of other keys are made.
  have hother : Moves [] i (i.expandAll tag added before).2 ∧
      (i.expandAll tag added before).2.holdings.OnlySeesOthers (i.copyKey tag node) := by
    refine expandAll_keeps (P := fun j => Moves [] i j ∧ j.holdings.OnlySeesOthers (i.copyKey tag node))
      (fun j hj x hx => ?_) ⟨.stay hc rfl rfl, ho⟩
    refine ⟨hj.1.trans (moves_expandOne hj.1.coherent tag x), ?_⟩
    refine onlySeesOthers_expandOne (namesOnce_of_moves hj.1 hn)
      (hnameAt hj.1 x (List.mem_append_left _ hx)) hj.1.coherent (hrecalls hj.1) hj.2 ?_
    rw [copyKey_of_moves hj.1]
    exact hbefore x hx
  generalize (i.expandAll tag added before).2 = i₁ at hrest hother
  obtain ⟨hm₁, ho₁⟩ := hother
  obtain ⟨isNew, added₂, hone, hlast⟩ := expandAll_cons_ok hrest
  obtain ⟨c, hce, hstands⟩ := exists_stands_expandOne (namesOnce_of_moves hm₁ hn)
    (hnameAt hm₁ node (by simp)) hm₁.coherent (hrecalls hm₁) (by rwa [copyKey_of_moves hm₁]) hone
  -- After it, what stands is left as it is.
  have hkept : Moves [] i ((i₁.expandOne tag node).2.expandAll tag added₂ after).2 ∧
      ((i₁.expandOne tag node).2.expandAll tag added₂ after).2.holdings.Stands c := by
    refine expandAll_keeps (P := fun j => Moves [] i j ∧ j.holdings.Stands c) (fun j hj x hx => ?_)
      ⟨hm₁.trans (moves_expandOne hm₁.coherent tag node), hstands⟩
    refine ⟨hj.1.trans (moves_expandOne hj.1.coherent tag x), ?_⟩
    exact stands_expandOne (namesOnce_of_moves hj.1 hn) (hnameAt hj.1 x (by simp [hx]))
      hj.1.coherent (hrecalls hj.1) hj.2
  rw [hlast] at hkept
  exact ⟨c, by rw [hce, hm₁.conventions], hkept.1.leads.schema, hkept.2⟩

end

end Inventory

/-- An expansion copies the first definition that was read. Let a tagged layout be served
that is not derived, after any calls that read, and let there be no element of the key of
its copy. Then a definition of that key of copies is noted. If every layout that is noted can be
copied, an expansion succeeds; and where it succeeds, the copy of the first of these
definitions stands at the key. So the served layout is copied just where the first one
has the same copy. -/
theorem first_definition_copied {w : Workspace} (hw : Gathered w) (hn : w.inventory.NamesOnce)
    {name : String} {values : List (Option String)} {served : Handle}
    (hserved : (w.inventory.getElement name values).1 = some served)
    (hplain : served.element.base = none) (htagged : w.inventory.isTagged served.element = true)
    {tag : String} (hlacks : w.inventory.holdings.Lacks (w.inventory.copyKey tag served)) :
    let i := w.inventory
    let copy := i.conventions.copyOf tag served.element
    ∃ first, i.tagged.find? (i.copyKey tag · = i.copyKey tag served) = some first ∧
      ((∀ x ∈ i.tagged, i.Expandable tag x.element) → ∃ n, (i.expandTagged tag).1 = .ok n) ∧
      ∀ n i', i.expandTagged tag = (.ok n, i') →
        ∃ c, c.element = i.conventions.copyOf tag first.element ∧
          (first.element.base = none → c ∈ i'.holdings.main.handles ∧
            (i'.getElement copy.name (i.schema.valuesOf copy)).1 = some c) ∧
          (first.element.base ≠ none →
            (i'.getAlteration copy.name (i.schema.valuesOf copy)).1 = some c) := by
  intro i copy
  have hnoted : i.Noted := hw.noted
  have hname : ∀ x ∈ i.tagged, x.element.name = i.conventions.taggedElement := by
    intro x hx
    have ht := hnoted.tagged x hx
    simp only [isTagged, Bool.and_eq_true, beq_iff_eq] at ht
    exact ht.1.1
  obtain ⟨y, hy, hye⟩ := hw.noted_of_served hserved hplain htagged
  have hykey : i.copyKey tag y = i.copyKey tag served := by rw [copyKey, copyKey, hye]
  obtain ⟨first, hfirst⟩ : ∃ first,
      i.tagged.find? (i.copyKey tag · = i.copyKey tag served) = some first := by
    refine Option.isSome_iff_exists.1 (List.find?_isSome.2 ⟨y, hy, by simpa using hykey⟩)
  refine ⟨first, hfirst, fun hx => expandAll_ok hn hnoted.coherent hname hx, ?_⟩
  intro n i' hok
  obtain ⟨hkey, before, after, hsplit, hbefore⟩ := List.find?_eq_some_iff_append.1 hfirst
  replace hkey : i.copyKey tag first = i.copyKey tag served := by simpa using hkey
  rw [expandTagged, hsplit] at hok
  obtain ⟨c, hce, hschema, hstands⟩ := expandAll_stands hn hnoted.coherent hnoted.recalls
    (hsplit ▸ hname) (hkey ▸ hlacks.onlySees hnoted.recalls)
    (fun x hx he => absurd (he.trans hkey) (by simpa using hbefore x hx)) hok
  have hcopy : i'.holdings.schema.keyOf c.element = i'.holdings.schema.keyOf copy := by
    rw [hce, show i'.holdings.schema = i.schema from hschema]
    exact hkey
  have hbase : c.element.base = none ↔ first.element.base = none := by
    rw [hce]
    exact Conventions.base_copyOf_eq_none
  rw [← show i'.holdings.schema = i.schema from hschema]
  exact ⟨c, hce, fun hb => ⟨(hstands.plain (hbase.2 hb)).2, hstands.getElement hcopy (hbase.2 hb)⟩,
    fun hb => hstands.getAlteration hcopy fun h => hb (hbase.1 h)⟩

/-! ## A layout in two editions -/

/-- Key attributes of layouts. -/
def KeySchema.layouts : KeySchema := .ofList [("layout", ["type", "name"])]

/-- A tagged layout with children. -/
def Element.taggedLayout (children : List Element) : Element :=
  ⟨"layout", .ofList [("type", "jtview"), ("name", "Main"), ("tagForWs", "true")], children, none⟩

/-- A layout with a part, and a later edition with a sublayout. -/
def oldLayout : Element :=
  .taggedLayout [⟨"part", .ofList [("ref", "Gloss"), ("param", "ws")], [], none⟩]

def newLayout : Element := .taggedLayout [⟨"sublayout", .ofList [("name", "Senses")], [], none⟩]

/-- A workspace that has read both. -/
def Workspace.ofTwoLayouts : Workspace :=
  ((Workspace.blank .layouts).run
    (.loadText ("<Inventory><layout type=\"jtview\" name=\"Main\" tagForWs=\"true\">" ++
      "<part ref=\"Gloss\" param=\"ws\"/></layout></Inventory>") 0)).run
    (.addText ("<Inventory><layout type=\"jtview\" name=\"Main\" tagForWs=\"true\">" ++
      "<sublayout name=\"Senses\"/></layout></Inventory>") 0)

theorem gathered_ofTwoLayouts : Gathered .ofTwoLayouts :=
  ((Gathered.start _ rfl rfl rfl rfl).step (r := .loadText _ 0) trivial).step (r := .addText _ 0)
    trivial

/-- The copies of the two editions for English, and their key. -/
def oldCopy : Element := Conventions.copyOf {} "en" oldLayout

def newCopy : Element := Conventions.copyOf {} "en" newLayout

def copiesKey : ElementKey := KeySchema.layouts.keyOf newCopy

theorem read_twoLayouts :
    let i := Workspace.ofTwoLayouts.inventory
    (i.conventions = {} ∧ i.schema = .layouts ∧ i.tagged.map Handle.element = [oldLayout, newLayout]) ∧
      (i.getElement "layout" [some "jtview", some "Main"]).1.map Handle.element = some newLayout ∧
      (∀ s ∈ [StoreId.main, .alterations, .bases],
        (∀ x ∈ (i.holdings.store s).handles, i.holdings.schema.keyOf x.element ≠ copiesKey) ∧
          i.holdings.remembered (copiesKey.inStore s) = none) ∧
      (i.tagged.find? (i.copyKey "en" · = copiesKey)).map Handle.element = some oldLayout ∧
      ((i.expandTagged "en").2.getElement "layout" [some "jtview", some "Main-en"]).1.map
        Handle.element = some oldCopy := by
  decide +kernel

/-- The later edition is served, and there is no copy of it. -/
theorem served_twoLayouts :
    let i := Workspace.ofTwoLayouts.inventory
    ∃ served, (i.getElement "layout" [some "jtview", some "Main"]).1 = some served ∧
      served.element = newLayout ∧ served.element.base = none ∧
      i.isTagged served.element = true ∧ i.copyKey "en" served = copiesKey ∧
      i.holdings.Lacks (i.copyKey "en" served) := by
  intro i
  obtain ⟨⟨hconventions, hschema, -⟩, hserved, hlacks, -⟩ := read_twoLayouts
  obtain ⟨served, hserved, helement⟩ := Option.map_eq_some_iff.1 hserved
  have hkey : i.copyKey "en" served = copiesKey := by
    rw [copyKey, hconventions, hschema, helement]
    rfl
  have hall : ∀ s, (∀ x ∈ (i.holdings.store s).handles, i.holdings.schema.keyOf x.element ≠ copiesKey) ∧
      i.holdings.remembered (copiesKey.inStore s) = none := fun s => hlacks s (by cases s <;> simp)
  refine ⟨served, hserved, helement, ?_, ?_, hkey, ?_⟩
  · rw [helement]
    decide
  · rw [helement, isTagged, hconventions]
    decide
  · rw [hkey]
    exact ⟨fun s => (hall s).1, fun s => (hall s).2⟩

/-- The copy that is added is that of the earlier edition. -/
theorem first_definition_copied_twoLayouts :
    let i := Workspace.ofTwoLayouts.inventory
    Gathered .ofTwoLayouts ∧ ∃ n i', i.expandTagged "en" = (.ok n, i') ∧
      (i'.getElement "layout" [some "jtview", some "Main-en"]).1.map Handle.element = some oldCopy := by
  intro i
  obtain ⟨⟨hconventions, hschema, hread⟩, -, -, hfirst, -⟩ := read_twoLayouts
  obtain ⟨served, hserved, helement, hplain, htagged, hkey, hlacks⟩ := served_twoLayouts
  have hn : i.NamesOnce := by
    rw [NamesOnce, hconventions, hschema]
    decide
  obtain ⟨first, hfind, hok, hcopied⟩ :=
    first_definition_copied gathered_ofTwoLayouts hn hserved hplain htagged hlacks
  have hfirst' : first.element = oldLayout := by
    simp only [hkey] at hfind
    exact Option.some.inj ((congrArg (Option.map Handle.element) hfind).symm.trans hfirst)
  have hexpandable : ∀ x ∈ i.tagged, i.Expandable "en" x.element := by
    intro x hx
    have hmem : x.element ∈ [oldLayout, newLayout] := hread ▸ List.mem_map_of_mem hx
    rcases List.mem_cons.1 hmem with he | hmem
    · rw [he]
      exact .of_plain (by rw [hconventions]; exact ⟨by decide, by decide⟩) (by decide)
    · rw [List.mem_singleton.1 hmem]
      exact .of_plain (by rw [hconventions]; exact ⟨by decide, by decide⟩) (by decide)
  obtain ⟨n, hn⟩ := hok hexpandable
  obtain ⟨c, hce, hserves, -⟩ := hcopied n _ (Prod.ext hn rfl)
  refine ⟨gathered_ofTwoLayouts, n, _, Prod.ext hn rfl, ?_⟩
  have hanswer := (hserves (by rw [hfirst']; decide)).2
  rw [hconventions, hschema, helement] at hanswer
  rw [hfirst', hconventions] at hce
  rw [show oldCopy = c.element from hce.symm]
  exact congrArg (Option.map Handle.element) hanswer

/-- Whether an expansion copies the served element of each key that has no copy yet. -/
def Workspace.CopiesServed (w : Workspace) : Prop :=
  let i := w.inventory
  ∀ (name : String) (values : List (Option String)) (served : Handle) (tag : String),
    (i.getElement name values).1 = some served → served.element.base = none →
    i.isTagged served.element = true → i.holdings.Lacks (i.copyKey tag served) →
    let copy := i.conventions.copyOf tag served.element
    ((i.expandTagged tag).2.getElement copy.name (i.schema.valuesOf copy)).1.map Handle.element =
      some copy

/-- The definition that was replaced is copied in the place of the one that is served. -/
theorem replaced_definition_copied :
    Gathered .ofTwoLayouts ∧ ¬ Workspace.ofTwoLayouts.CopiesServed := by
  refine ⟨gathered_ofTwoLayouts, fun hall => ?_⟩
  obtain ⟨⟨hconventions, hschema, -⟩, -, -, -, hcopy⟩ := read_twoLayouts
  obtain ⟨served, hserved, helement, hplain, htagged, -, hlacks⟩ := served_twoLayouts
  have hanswer := hall _ _ served "en" hserved hplain htagged hlacks
  simp only [hconventions, hschema, helement] at hanswer
  have hsame : oldCopy = newCopy := Option.some.inj (hcopy.symm.trans hanswer)
  revert hsame
  decide

end TemplateInventory
