import TemplateInventory.Proofs.Memory
/-!
# What is seen

`Holdings.OnlySees A P` says of everything that is held or remembered that it has a
property `P`, and of the derived elements that they have a property `A`. Lookups and
adds keep it, where unifying does (`KeySchema.Unifies`): what they come to see is what
was seen, what is added, and what two of these unify to (`OnlySees.resolve`,
`OnlySees.add`).
-/

namespace TemplateInventory

open Holdings

/-- Whether a derived element with `A` and the element that it is based on unify to one
with `P`. -/
def KeySchema.Unifies (s : KeySchema) (A P : Element → Prop) : Prop :=
  ∀ (a b : Element) (base : String), A a → P a → P b → (s.identityOf a).isSome = true →
    (s.keyOf a).based base = some (s.keyOf b) → P (unify s a b)

namespace Holdings

/-- Whether everything that is held or remembered has `P`, and the derived elements
have `A`. -/
structure OnlySees (A P : Element → Prop) (h : Holdings) : Prop where
  seen : ∀ x, h.Sees x → P x.element
  altered : ∀ a ∈ h.alterations.handles, A a.element

theorem onlySees_clear (A P : Element → Prop) (h : Holdings) : OnlySees A P h.clear := by
  refine ⟨?_, fun a ha => by cases ha⟩
  rintro x (⟨s, hs⟩ | ⟨k, hk⟩)
  · cases s <;> cases hs
  · cases hk

namespace OnlySees

section
variable {A P : Element → Prop} {h : Holdings} {s : StoreId} {st : Store} {k : ElementKey}
  {name : String} {values : List (Option String)} {r : List ElementKey} {x a node : Handle}
  {o : Option Handle} {outside : List Handle}

theorem mono {P' : Element → Prop} (ho : OnlySees A P h) (hp : ∀ e, P e → P' e) : OnlySees A P' h :=
  ⟨fun x hx => hp _ (ho.seen x hx), ho.altered⟩

/-! ## Single changes -/

theorem serial (ho : OnlySees A P h) (n : Nat) : OnlySees A P { h with nextSerial := n } :=
  ⟨ho.seen, ho.altered⟩

theorem remember (ho : OnlySees A P h) (hx : ∀ x, o = some x → P x.element) :
    OnlySees A P (h.remember k o) :=
  ⟨fun y hy => hy.of_remember.elim (ho.seen y) (hx y), ho.altered⟩

theorem setStore (ho : OnlySees A P h) (hs : ∀ x ∈ st.handles, P x.element)
    (ha : s = .alterations → ∀ x ∈ st.handles, A x.element) : OnlySees A P (h.setStore s st) := by
  refine ⟨fun y hy => hy.of_setStore.elim (ho.seen y) (hs y), ?_⟩
  cases s with
  | main => exact ho.altered
  | alterations => exact ha rfl
  | bases => exact ho.altered

theorem replace (ho : OnlySees A P h) (s : StoreId) (extant : Option Handle) (hx : P x.element)
    (ha : s = .alterations → A x.element) :
    OnlySees A P (h.setStore s ((h.store s).replace extant x)) := by
  refine ho.setStore (fun y hy => ?_) fun hs y hy => ?_
  · rcases Store.mem_replace hy with hy | rfl
    · exact ho.seen y (.inl ⟨s, hy⟩)
    · exact hx
  · rcases Store.mem_replace hy with hy | rfl
    · subst hs
      exact ho.altered y hy
    · exact ha hs

/-! ## Lookups -/

theorem findIn (ho : OnlySees A P h) : OnlySees A P (h.findIn s name values).2 := by
  have hrem : OnlySees A P (h.remember (.of name values s) (h.findIn s name values).1) :=
    ho.remember fun x hx => ho.seen x (Coherent.sees_of_findIn hx)
  refine ⟨fun x hx => hrem.seen x (by simpa [Sees] using hx), fun a ha => ho.altered a ?_⟩
  rwa [show (h.findIn s name values).2.alterations = h.alterations from
    store_findIn h s .alterations name values] at ha

theorem afterFind (ho : OnlySees A P h) : OnlySees A P (h.afterFind name values) := ho.findIn.findIn

theorem settle (ho : OnlySees A P h) (hx : P (h.settle k a o).1.element) :
    OnlySees A P (h.settle k a o).2 := by
  cases o with
  | none =>
    refine (ho.replace .main none hx (by simp)).remember ?_
    rintro y ⟨⟩
    exact hx
  | some b =>
    refine ((ho.serial _).replace .main none hx (by simp)).remember ?_
    rintro y ⟨⟩
    exact hx

theorem resolve (ho : OnlySees A P h) (hu : h.schema.Unifies A P) (hr : Recalls h)
    (hc : Coherent outside h) (hv : values.length = (h.schema.attrsFor name).length) :
    OnlySees A P (h.resolve r name values).2 := by
  induction h, r, values using resolve_induction (n := name) with
  | found hm => rw [resolve_found hm]; exact ho.findIn
  | open_ hm hk => rw [resolve_open hm hk]; exact ho.findIn
  | missing hm hk ha => rw [resolve_missing hm hk ha]; exact ho.afterFind
  | @alone h r values a hm hk ha hb =>
    rw [resolve_alone hm hk ha hb]
    exact ho.afterFind.settle (a := a) (o := none) (ho.findIn.seen a (Coherent.sees_of_findIn ha))
  | @based h r values a values' hm hk ha hb ih =>
    obtain ⟨hmem, hka⟩ := hr.alteration_of_findIn hv ha
    obtain ⟨base, hbase, hvals⟩ := Option.bind_eq_some_iff.1 hb
    have hv' : values'.length = ((h.afterFind name values).schema.attrsFor name).length := by
      rw [schema_afterFind, length_baseValues hvals, hv]
    have hrest := ih ho.afterFind (by rwa [schema_afterFind]) (hr.afterFind hv) hc.afterFind hv'
    have hpa : P a.element := ho.findIn.seen a (Coherent.sees_of_findIn ha)
    rw [resolve_based hm hk ha hb]
    refine hrest.settle ?_
    cases hx : ((h.afterFind name values).resolve (.of name values .main :: r) name values').1 with
    | none => exact hpa
    | some b =>
      -- What the base resolved to is remembered, so it is seen.
      have hpb := hrest.seen b (.inr ⟨_, Coherent.remembered_resolve hx⟩)
      have hkb := (hr.afterFind hv).keyOf_resolve hc.afterFind hv' hx
      rw [schema_afterFind] at hkb
      obtain ⟨base', hbased⟩ := Recalls.based_of_bind hka hb
      have hunified := hu _ _ base' (ho.altered a hmem) hpa hpb (hc.identified a hmem) (hkb ▸ hbased)
      rwa [← schema_afterFind h name values, ← schema_resolve] at hunified

theorem overridden (ho : OnlySees A P h) (hu : h.schema.Unifies A P) (hr : Recalls h)
    (hc : Coherent outside h) (hv : values.length = (h.schema.attrsFor name).length) :
    OnlySees A P (h.overridden name values).2 := by
  unfold Holdings.overridden
  split
  · exact ho
  · exact ho.resolve hu hr hc hv

/-! ## Adding -/

theorem addPlain (ho : OnlySees A P h) (hx : P node.element) : OnlySees A P (h.addPlain k node) := by
  refine (ho.replace .main _ hx (by simp)).remember ?_
  rintro y ⟨⟩
  exact hx

theorem addAlteration (ho : OnlySees A P h) (hx : P node.element) (ha : A node.element) :
    OnlySees A P (h.addAlteration k node) := by
  refine (ho.replace .alterations _ hx fun _ => ha).remember ?_
  rintro y ⟨⟩
  exact hx

theorem displace (ho : OnlySees A P h) : OnlySees A P (h.displace k) := by
  unfold Holdings.displace
  split
  · refine OnlySees.remember (ho.setStore (s := .main) (fun y hy => ?_) (by simp)) (by simp)
    exact ho.seen y (.inl ⟨.main, Store.mem_remove hy⟩)
  · exact ho

theorem applyOverride (ho : OnlySees A P h) (hx : P x.element)
    (hu : P (unify h.schema node.element x.element)) : OnlySees A P (h.applyOverride k node x) := by
  have hbases := ((ho.serial (h.nextSerial + 1)).replace .bases none hx (by simp)).remember
    (k := k.inStore .bases) (o := some x) (by rintro y ⟨⟩; exact hx)
  refine (hbases.replace (x := Handle.unify h.schema h.nextSerial node x) .main (some x) hu
    (by simp)).remember ?_
  rintro y ⟨⟩
  exact hu

theorem add (ho : OnlySees A P h) (hu : h.schema.Unifies A P) (hr : Recalls h)
    (hc : Coherent outside h) (hx : P node.element)
    (ha : node.element.base.isSome = true → A node.element) : OnlySees A P (h.add node).2 := by
  have hlen := h.schema.length_valuesOf node.element
  refine add_cases (motive := fun r => OnlySees A P r.2) ?plain ?refused ?unfounded ?override
    ?alteration
  case plain => exact fun _ => ho.addPlain hx
  case refused => exact fun _ => ho
  case unfounded => exact fun _ => ho.overridden hu hr hc hlen
  case override =>
    intro base h' extant hb hid hover _
    have hh : h' = (h.overridden node.element.name (h.schema.valuesOf node.element)).2 := by rw [hover]
    have hs : h'.schema = h.schema := by rw [hh, schema_overridden]
    have ho' : OnlySees A P h' := hh ▸ ho.overridden hu hr hc hlen
    have hmem : h'.remembered (h.schema.keyOf node.element) = some extant :=
      hh ▸ Coherent.remembered_overridden (by rw [hover])
    have hr' : Recalls h' := hh ▸ hr.overridden hc hlen
    have hkx : h.schema.keyOf extant.element = h.schema.keyOf node.element :=
      hs ▸ congrArg (ElementKey.inStore · .main) (hr'.keyed _ extant hmem)
    have hpx := ho'.seen extant (.inr ⟨_, hmem⟩)
    have ha' : A node.element := ha (by rw [hb]; rfl)
    have hunified := hu _ _ base ha' hx hpx (by rw [hid]; rfl) (by rw [hkx]; exact based_identityOf hid)
    exact (ho'.applyOverride hpx (hs ▸ hunified)).addAlteration hx ha'
  case alteration =>
    intro base _ hb _ _
    exact ho.displace.addAlteration hx (ha (by rw [hb]; rfl))

end

end OnlySees

end Holdings

end TemplateInventory
