import TemplateInventory.Proofs.Reachable
/-!
# What is remembered of derived elements

The memory of lookups and the alterations agree at every name, also at that of
grouping elements, which are put among the served elements behind its back: what is
remembered has the key it is remembered under, what is remembered of an alteration is
held, and what is held is remembered (`Holdings.Recalls`). Every event keeps it, and so
it holds of what is reachable (`Reachable.recalls`).
-/

namespace TemplateInventory

namespace Holdings

/-- The memory knows the alterations that are held, under their keys. -/
structure Recalls (h : Holdings) : Prop where
  keyed : ∀ k x, h.remembered k = some x → (h.schema.keyOf x.element).inStore k.store = k
  held : ∀ k x, k.store = .alterations → h.remembered k = some x → x ∈ h.alterations.handles
  known : ∀ x ∈ h.alterations.handles,
    ∃ y, h.remembered ((h.schema.keyOf x.element).inStore .alterations) = some y

theorem recalls_clear (h : Holdings) : Recalls h.clear where
  keyed _ _ hx := by cases hx
  held _ _ _ hx := by cases hx
  known _ hx := by cases hx

theorem recalls_empty (schema : KeySchema) : Recalls (.empty schema) := recalls_clear (.empty schema)

namespace Recalls

section
variable {g : String} {h h' : Holdings} {s : StoreId} {k : ElementKey} {name : String}
  {values values' : List (Option String)} {r : List ElementKey} {x a node : Handle}
  {o : Option Handle} {outside : List Handle} {e : Event} {P : Holdings → Event → Prop}

/-- It is about the keys, the memory and the alterations alone. -/
theorem congr (hr : Recalls h) (hs : h'.schema = h.schema)
    (hk : ∀ k, h'.remembered k = h.remembered k) (ha : h'.alterations = h.alterations) :
    Recalls h' := by
  refine ⟨fun k x hx => ?_, fun k x hst hx => ?_, fun x hx => ?_⟩
  · rw [hs]
    exact hr.keyed k x (hk k ▸ hx)
  · rw [ha]
    exact hr.held k x hst (hk k ▸ hx)
  · obtain ⟨y, hy⟩ := hr.known x (ha ▸ hx)
    exact ⟨y, by rw [hk, hs, hy]⟩

/-- An alteration that is known is not forgotten. -/
theorem remember (hr : Recalls h)
    (hx : ∀ x, o = some x → (h.schema.keyOf x.element).inStore k.store = k ∧
      (k.store = .alterations → x ∈ h.alterations.handles))
    (ho : o = none → k.store = .alterations → h.remembered k = none) :
    Recalls (h.remember k o) := by
  refine ⟨fun k' x hk => ?_, fun k' x hs hk => ?_, fun x ha => ?_⟩
  · rw [remembered_remember] at hk
    split at hk
    · next he => exact he ▸ (hx x hk).1
    · exact hr.keyed k' x hk
  · rw [remembered_remember] at hk
    split at hk
    · next he => exact (hx x hk).2 (he ▸ hs)
    · exact hr.held k' x hs hk
  · obtain ⟨y, hy⟩ := hr.known x ha
    rw [remembered_remember, schema_remember]
    split
    · next he =>
      cases o with
      | some z => exact ⟨z, rfl⟩
      | none => rw [← he, ho rfl (by rw [he]; rfl)] at hy; cases hy
    · exact ⟨y, hy⟩

theorem setMain (hr : Recalls h) (st : Store) : Recalls (h.setStore .main st) :=
  hr.congr rfl (fun _ => rfl) rfl

theorem setBases (hr : Recalls h) (st : Store) : Recalls (h.setStore .bases st) :=
  hr.congr rfl (fun _ => rfl) rfl

theorem serial (hr : Recalls h) (n : Nat) : Recalls { h with nextSerial := n } :=
  hr.congr rfl (fun _ => rfl) rfl

/-! ## Lookups -/

/-- The answer of a lookup has the key that was asked for. -/
theorem keyOf_findIn (hr : Recalls h) (hv : values.length = (h.schema.attrsFor name).length)
    (hx : (h.findIn s name values).1 = some x) :
    h.schema.keyOf x.element = .of name values .main := by
  rcases remembered_or_search hx with hx | hx
  · exact congrArg (ElementKey.inStore · .main) (hr.keyed _ x hx)
  · rw [KeySchema.keyOf, name_of_search hx, valuesOf_of_search hv hx]

theorem mem_of_findIn (hr : Recalls h) (hx : (h.findIn .alterations name values).1 = some x) :
    x ∈ h.alterations.handles :=
  (remembered_or_search hx).elim (hr.held _ x rfl) mem_of_search

theorem findIn (hr : Recalls h) (hv : values.length = (h.schema.attrsFor name).length) :
    Recalls (h.findIn s name values).2 := by
  have hrem : Recalls (h.remember (.of name values s) (h.findIn s name values).1) := by
    refine hr.remember (fun x hx => ⟨?_, ?_⟩) fun ho _ => ?_
    · rw [hr.keyOf_findIn hv hx]
      rfl
    · rintro rfl
      exact hr.mem_of_findIn hx
    · cases hk : h.remembered (.of name values s) with
      | none => rfl
      | some y => rw [findIn_remembered hk] at ho; cases ho
  exact hrem.congr (schema_findIn h s name values) (fun k => by simp)
    (store_findIn h s .alterations name values)

theorem afterFind (hr : Recalls h) (hv : values.length = (h.schema.attrsFor name).length) :
    Recalls (h.afterFind name values) :=
  (hr.findIn hv).findIn (by rwa [schema_findIn])

theorem settle (hr : Recalls h) (hs : k.store = .main)
    (hk : h.schema.keyOf (h.settle k a o).1.element = k) : Recalls (h.settle k a o).2 := by
  have hkey : (h.schema.keyOf (h.settle k a o).1.element).inStore k.store = k := by
    rw [hk]
    rfl
  cases o with
  | none =>
    refine (hr.setMain _).remember ?_ (by simp)
    rintro x ⟨⟩
    exact ⟨hkey, fun hst => by rw [hs] at hst; cases hst⟩
  | some b =>
    refine ((hr.serial _).setMain _).remember ?_ (by simp)
    rintro x ⟨⟩
    exact ⟨hkey, fun hst => by rw [hs] at hst; cases hst⟩

/-- What an alteration settles to has the key of the alteration, if its base has the key
that it names. -/
theorem keyOf_settle (hi : (h.schema.identityOf a.element).isSome = true)
    (hb : ∀ b, o = some b → ∃ base,
      (h.schema.keyOf a.element).based base = some (h.schema.keyOf b.element)) :
    h.schema.keyOf (h.settle k a o).1.element = h.schema.keyOf a.element := by
  cases o with
  | none => rfl
  | some b =>
    obtain ⟨base, hbase⟩ := hb b rfl
    exact keyOf_unify hi hbase

/-- The key of what an alteration is based on, as it was found, leads from the key of
the alteration. -/
theorem based_of_bind (hk : h.schema.keyOf a.element = .of name values .main)
    (hb : a.element.base.bind (baseValues values) = some values') :
    ∃ base, (h.schema.keyOf a.element).based base = some (.of name values' .main) := by
  obtain ⟨base, -, hv⟩ := Option.bind_eq_some_iff.1 hb
  exact ⟨base, by rw [hk, ← map_baseValues, hv]; rfl⟩

/-- The alteration that is found for a key is held, and has the key. -/
theorem alteration_of_findIn (hr : Recalls h) (hv : values.length = (h.schema.attrsFor name).length)
    (ha : ((h.findIn .main name values).2.findIn .alterations name values).1 = some a) :
    a ∈ h.alterations.handles ∧ h.schema.keyOf a.element = .of name values .main := by
  have hkey := (hr.findIn hv).keyOf_findIn (by rwa [schema_findIn]) ha
  rw [schema_findIn] at hkey
  have hmem := (hr.findIn hv).mem_of_findIn ha
  rw [show (h.findIn .main name values).2.alterations = h.alterations from
    store_findIn h .main .alterations name values] at hmem
  exact ⟨hmem, hkey⟩

/-- Lookups keep it, and what they answer has the key that was asked for. -/
theorem resolve_and_key (hr : Recalls h) (hc : Coherent outside h)
    (hv : values.length = (h.schema.attrsFor name).length) :
    Recalls (h.resolve r name values).2 ∧ ∀ x, (h.resolve r name values).1 = some x →
      h.schema.keyOf x.element = .of name values .main := by
  induction h, r, values using resolve_induction (n := name) with
  | found hm =>
    rw [resolve_found hm]
    refine ⟨hr.findIn hv, ?_⟩
    rintro x ⟨⟩
    exact hr.keyOf_findIn hv hm
  | open_ hm hk =>
    rw [resolve_open hm hk]
    exact ⟨hr.findIn hv, fun x hx => by cases hx⟩
  | missing hm hk ha =>
    rw [resolve_missing hm hk ha]
    exact ⟨hr.afterFind hv, fun x hx => by cases hx⟩
  | @alone h r values a hm hk ha hb =>
    obtain ⟨-, hka⟩ := hr.alteration_of_findIn hv ha
    rw [resolve_alone hm hk ha hb]
    refine ⟨(hr.afterFind hv).settle (a := a) (o := none) rfl (by rw [schema_afterFind]; exact hka), ?_⟩
    rintro x ⟨⟩
    exact hka
  | @based h r values a values' hm hk ha hb ih =>
    obtain ⟨hmem, hka⟩ := hr.alteration_of_findIn hv ha
    have hident := hc.identified a hmem
    obtain ⟨base, hbase, hvals⟩ := Option.bind_eq_some_iff.1 hb
    obtain ⟨hrest, hkb⟩ := ih (hr.afterFind hv) hc.afterFind
      (by rw [schema_afterFind, length_baseValues hvals, hv])
    rw [schema_afterFind] at hkb
    have hkey := keyOf_settle (h := ((h.afterFind name values).resolve (.of name values .main :: r)
      name values').2) (k := .of name values .main) (a := a)
      (o := ((h.afterFind name values).resolve (.of name values .main :: r) name values').1)
      (by rwa [schema_resolve, schema_afterFind]) (by
        intro b hbx
        rw [schema_resolve, schema_afterFind, hkb b hbx]
        exact based_of_bind hka hb)
    rw [schema_resolve, schema_afterFind, hka] at hkey
    rw [resolve_based hm hk ha hb]
    refine ⟨hrest.settle rfl (by rw [schema_resolve, schema_afterFind]; exact hkey), ?_⟩
    rintro x ⟨⟩
    exact hkey

theorem resolve (hr : Recalls h) (hc : Coherent outside h)
    (hv : values.length = (h.schema.attrsFor name).length) : Recalls (h.resolve r name values).2 :=
  (hr.resolve_and_key hc hv).1

theorem keyOf_resolve (hr : Recalls h) (hc : Coherent outside h)
    (hv : values.length = (h.schema.attrsFor name).length)
    (hx : (h.resolve r name values).1 = some x) :
    h.schema.keyOf x.element = .of name values .main :=
  (hr.resolve_and_key hc hv).2 x hx

theorem overridden (hr : Recalls h) (hc : Coherent outside h)
    (hv : values.length = (h.schema.attrsFor name).length) :
    Recalls (h.overridden name values).2 := by
  unfold Holdings.overridden
  split
  · exact hr
  · exact hr.resolve hc hv

/-! ## Adding -/

theorem addPlain (hr : Recalls h) (hk : h.schema.keyOf node.element = k) :
    Recalls (h.addPlain k node) := by
  subst hk
  refine (hr.setMain _).remember ?_ (by simp)
  rintro x ⟨⟩
  exact ⟨rfl, fun hst => by cases hst⟩

theorem displace (hr : Recalls h) (hs : k.store = .main) : Recalls (h.displace k) := by
  unfold Holdings.displace
  split
  · exact (hr.setMain _).remember (by simp) fun _ hst => by rw [hs] at hst; cases hst
  · exact hr

theorem applyOverride (hr : Recalls h) (hs : k.store = .main)
    (hk : h.schema.keyOf (unify h.schema node.element x.element) = k)
    (hx : h.schema.keyOf x.element = k) : Recalls (h.applyOverride k node x) := by
  have hbases : Recalls ((Holdings.setStore { h with nextSerial := h.nextSerial + 1 } .bases
      (h.bases.push x)).remember (k.inStore .bases) (some x)) := by
    refine ((hr.serial _).setBases _).remember ?_ (by simp)
    rintro y ⟨⟩
    exact ⟨by rw [← hx]; rfl, fun hst => by cases hst⟩
  refine (hbases.setMain _).remember ?_ (by simp)
  rintro y ⟨⟩
  refine ⟨?_, fun hst => by rw [hs] at hst; cases hst⟩
  change (h.schema.keyOf (unify h.schema node.element x.element)).inStore k.store = k
  rw [hk]
  rfl

/-- The alteration that is replaced is the one of the same key, so no other is lost. -/
theorem addAlteration (hr : Recalls h) (hc : Coherent (node :: outside) h)
    (hk : h.schema.keyOf node.element = k) : Recalls (h.addAlteration k node) := by
  have hkey : (h.schema.keyOf node.element).inStore .alterations = k.inStore .alterations := by
    rw [hk]
  have hkeep : ∀ q y, q.store = .alterations → h.remembered q = some y → q ≠ k.inStore .alterations →
      y ∈ (h.alterations.replace (h.remembered (k.inStore .alterations)) node).handles := by
    intro q y hq hy hne
    refine Store.mem_replace_other (hr.held q y hq hy) fun x hx => ?_
    rw [← Bool.not_eq_true]
    intro hsame
    have heq : y.element = x.element :=
      hc.element_eq (.inr (.inr ⟨_, hx⟩)) (.inr (.inr ⟨q, hy⟩)) hsame
    refine hne ((hr.keyed q y hy).symm.trans (Eq.trans ?_ (hr.keyed _ x hx)))
    rw [heq, hq]
    rfl
  refine ⟨fun q y hy => ?_, fun q y hq hy => ?_, fun y hy => ?_⟩
  · rw [Holdings.addAlteration, remembered_remember] at hy
    split at hy
    · next he =>
      cases hy
      rw [← he]
      exact hkey
    · exact hr.keyed q y hy
  · rw [Holdings.addAlteration, remembered_remember] at hy
    split at hy
    · cases hy
      exact Store.mem_replace_self _
    · next he => exact hkeep q y hq hy fun h => he h.symm
  · rw [Holdings.addAlteration, remembered_remember]
    split
    · exact ⟨node, rfl⟩
    · next he =>
      rcases Store.mem_replace hy with hy | rfl
      · exact hr.known y hy
      · exact absurd hkey.symm he

theorem add (hr : Recalls h) (hc : Coherent (node :: outside) h) : Recalls (h.add node).2 := by
  have hlen := h.schema.length_valuesOf node.element
  refine add_cases (motive := fun r => Recalls r.2) ?plain ?refused ?unfounded ?override ?alteration
  case plain => exact fun _ => hr.addPlain rfl
  case refused => exact fun _ => hr
  case unfounded => exact fun _ => hr.overridden hc hlen
  case override =>
    intro base h' extant hb hid ho _
    have hh : h' = (h.overridden node.element.name (h.schema.valuesOf node.element)).2 := by rw [ho]
    have hs : h'.schema = h.schema := by rw [hh, schema_overridden]
    have hr' : Recalls h' := hh ▸ hr.overridden hc hlen
    have hx : h'.remembered (h.schema.keyOf node.element) = some extant :=
      hh ▸ Coherent.remembered_overridden (by rw [ho])
    have hkx : h'.schema.keyOf extant.element = h.schema.keyOf node.element :=
      congrArg (ElementKey.inStore · .main) (hr'.keyed _ extant hx)
    have hku : h'.schema.keyOf (unify h'.schema node.element extant.element) =
        h.schema.keyOf node.element := by
      rw [hs] at hkx ⊢
      exact keyOf_unify (by rw [hid]; rfl) (by rw [hkx]; exact based_identityOf hid)
    have hc' : Coherent (node :: outside) h' := hh ▸ hc.overridden
    refine (hr'.applyOverride rfl hku hkx).addAlteration (hc'.applyOverride rfl hx) ?_
    change h'.schema.keyOf node.element = _
    rw [hs]
  case alteration =>
    intro _ _ _ _ _
    exact (hr.displace rfl).addAlteration hc.displace (by rw [schema_displace])

theorem apply (hr : Recalls h) (hc : Coherent [] h) (ht : h.Takes g e) : Recalls (h.apply e) := by
  cases e with
  | made => exact hr.serial _
  | cleared => exact recalls_clear h
  | added node => exact hr.add (ht.coherent hc)
  | grouped extant node => exact hr.setMain _
  | found s name values => exact hr.findIn ht
  | resolved name values => exact hr.resolve hc ht

end

end Recalls

theorem Leads.recalls {g : String} {h h' : Holdings} {P : Holdings → Event → Prop}
    (hl : Leads g P h h') (hc : Coherent [] h) (hr : Recalls h) : Recalls h' := by
  induction hl with
  | refl => exact hr
  | step hl _ ht ih => exact ih.apply (hl.coherent hc) ht

end Holdings

theorem Reachable.recalls {w : Workspace} (hw : Reachable w) :
    Holdings.Recalls w.inventory.holdings := by
  obtain ⟨schema, hl⟩ := hw.leads
  exact hl.recalls (Holdings.coherent_empty schema) (Holdings.recalls_empty schema)

end TemplateInventory
