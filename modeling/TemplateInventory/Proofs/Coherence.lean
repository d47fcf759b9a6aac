import TemplateInventory.Proofs.Listing
import TemplateInventory.Proofs.Cases
/-!
# Coherent holdings

Elements are told apart by their identities, so everything that is held,
remembered or known elsewhere under one identity has to be one element, and a
number that is given next must be new. `Coherent outside h` says so for the
handles in `outside` as well, such as those that are added next; every operation
keeps it (`Coherent.resolve`, `Coherent.add`).
-/

namespace TemplateInventory

namespace Holdings

/-- Whether a handle is held, or remembered to have a key. -/
def Sees (h : Holdings) (x : Handle) : Prop :=
  (∃ s, x ∈ (h.store s).handles) ∨ ∃ k, h.remembered k = some x

theorem Sees.of_remember {h : Holdings} {k : ElementKey} {r : Option Handle} {x : Handle}
    (hx : (h.remember k r).Sees x) : h.Sees x ∨ r = some x := by
  rcases hx with ⟨s, hs⟩ | ⟨k', hk⟩
  · exact .inl (.inl ⟨s, by simpa using hs⟩)
  · rw [remembered_remember] at hk
    split at hk
    · exact .inr hk
    · exact .inl (.inr ⟨k', hk⟩)

theorem Sees.of_setStore {h : Holdings} {s : StoreId} {st : Store} {x : Handle}
    (hx : (h.setStore s st).Sees x) : h.Sees x ∨ x ∈ st.handles := by
  rcases hx with ⟨s', hs⟩ | ⟨k, hk⟩
  · rw [store_setStore] at hs
    split at hs
    · exact .inr hs
    · exact .inl (.inl ⟨s', hs⟩)
  · exact .inl (.inr ⟨k, by simpa using hk⟩)

/-- What is seen or known outside under one identity is one element. -/
structure Coherent (outside : List Handle) (h : Holdings) : Prop where
  made : ∀ x, x ∈ outside ∨ h.Sees x → x.id.serial < h.nextSerial
  agree : ∀ x y, x ∈ outside ∨ h.Sees x → y ∈ outside ∨ h.Sees y → x.id = y.id →
    x.element = y.element
  named : ∀ k x, h.remembered k = some x → x.element.name = k.element
  /-- What a `base` can refer to. -/
  identified : ∀ x ∈ h.alterations.handles, (h.schema.identityOf x.element).isSome = true

/-- What is cleared sees nothing, whatever was held. -/
theorem coherent_clear (h : Holdings) : Coherent [] h.clear := by
  have hnone : ∀ x, ¬ (x ∈ [] ∨ h.clear.Sees x) := by
    rintro x (h | ⟨s, hs⟩ | ⟨k, hk⟩)
    · cases h
    · cases s <;> cases hs
    · cases hk
  exact ⟨fun x hx => absurd hx (hnone x), fun x _ hx => absurd hx (hnone x),
    fun _ _ hx => (nomatch hx), fun _ hx => (nomatch hx)⟩

theorem coherent_empty (schema : KeySchema) : Coherent [] (.empty schema) :=
  coherent_clear (.empty schema)

namespace Coherent

section
variable {outside : List Handle} {h : Holdings} {s : StoreId} {k : ElementKey} {st : Store}
  {x a : Handle}

/-! ## Single changes -/

theorem subset {outside' : List Handle} (hc : Coherent outside h)
    (ho : ∀ x ∈ outside', x ∈ outside ∨ h.Sees x) : Coherent outside' h where
  made x hx := hc.made x (hx.elim (ho x) .inr)
  agree x y hx hy := hc.agree x y (hx.elim (ho x) .inr) (hy.elim (ho y) .inr)
  named := hc.named
  identified := hc.identified

/-- What is seen may be known outside. -/
theorem join (hc : Coherent outside h) (hx : h.Sees x) : Coherent (x :: outside) h :=
  hc.subset fun _ hy => (List.mem_cons.1 hy).elim (fun h => .inr (h ▸ hx)) .inl

theorem leave (hc : Coherent (x :: outside) h) : Coherent outside h :=
  hc.subset fun _ hy => .inl (List.mem_cons_of_mem _ hy)

/-- What is made under the next number is new. -/
theorem make (hc : Coherent outside h) (hx : x.id.serial = h.nextSerial) :
    Coherent (x :: outside) { h with nextSerial := h.nextSerial + 1 } := by
  have hlt : ∀ y, y ∈ outside ∨ h.Sees y → y.id.serial < h.nextSerial := hc.made
  have hne : ∀ y, y ∈ outside ∨ h.Sees y → y.id ≠ x.id := fun y hy he => by
    have := hlt y hy
    rw [he, hx] at this
    exact Nat.lt_irrefl _ this
  have hold : ∀ y, y ∈ x :: outside ∨ Sees { h with nextSerial := h.nextSerial + 1 } y →
      y = x ∨ y ∈ outside ∨ h.Sees y := by
    rintro y (hy | hy)
    · exact (List.mem_cons.1 hy).imp_right .inl
    · exact .inr (.inr hy)
  refine ⟨fun y hy => ?_, fun y z hy hz he => ?_, hc.named, hc.identified⟩
  · rcases hold y hy with rfl | hy
    · exact hx ▸ Nat.lt_succ_self _
    · exact Nat.lt_succ_of_lt (hlt y hy)
  · rcases hold y hy with rfl | hy' <;> rcases hold z hz with rfl | hz'
    · rfl
    · exact absurd he.symm (hne z hz')
    · exact absurd he (hne y hy')
    · exact hc.agree y z hy' hz' he

theorem remember {r : Option Handle} (hc : Coherent outside h)
    (hr : ∀ x, r = some x → (x ∈ outside ∨ h.Sees x) ∧ x.element.name = k.element) :
    Coherent outside (h.remember k r) := by
  have hsees : ∀ y, y ∈ outside ∨ (h.remember k r).Sees y → y ∈ outside ∨ h.Sees y := by
    rintro y (hy | hy)
    · exact .inl hy
    · exact hy.of_remember.elim .inr fun he => (hr y he).1
  refine ⟨fun y hy => hc.made y (hsees y hy), fun y z hy hz => hc.agree y z (hsees y hy) (hsees z hz),
    fun k' y hy => ?_, hc.identified⟩
  rw [remembered_remember] at hy
  split at hy
  · next hk => exact hk ▸ (hr y hy).2
  · exact hc.named k' y hy

theorem setStore (hc : Coherent outside h) (hs : ∀ x ∈ st.handles, x ∈ outside ∨ h.Sees x)
    (hi : s = .alterations → ∀ x ∈ st.handles, (h.schema.identityOf x.element).isSome = true) :
    Coherent outside (h.setStore s st) := by
  have hsees : ∀ y, y ∈ outside ∨ (h.setStore s st).Sees y → y ∈ outside ∨ h.Sees y := by
    rintro y (hy | hy)
    · exact .inl hy
    · exact hy.of_setStore.elim .inr (hs y)
  refine ⟨fun y hy => by rw [nextSerial_setStore]; exact hc.made y (hsees y hy),
    fun y z hy hz => hc.agree y z (hsees y hy) (hsees z hz),
    fun k y hy => hc.named k y (by simpa using hy), fun y hy => ?_⟩
  cases s with
  | main => exact hc.identified y hy
  | alterations => exact hi rfl y hy
  | bases => exact hc.identified y hy

theorem replace (hc : Coherent outside h) (s : StoreId) (extant : Option Handle)
    (hx : x ∈ outside ∨ h.Sees x)
    (hi : s = .alterations → (h.schema.identityOf x.element).isSome = true) :
    Coherent outside (h.setStore s ((h.store s).replace extant x)) := by
  refine hc.setStore (fun y hy => ?_) fun hs y hy => ?_
  · rcases Store.mem_replace hy with hy | rfl
    · exact .inr (.inl ⟨s, hy⟩)
    · exact hx
  · subst hs
    rcases Store.mem_replace hy with hy | rfl
    · exact hc.identified y hy
    · exact hi rfl

theorem remove (hc : Coherent outside h) (x : Handle) :
    Coherent outside (h.setStore s ((h.store s).remove x)) :=
  hc.setStore (fun _ hy => .inr (.inl ⟨s, Store.mem_remove hy⟩)) fun hs y hy =>
    hc.identified y (by subst hs; exact Store.mem_remove hy)

theorem clear (hc : Coherent outside h) : Coherent outside h.clear := by
  have hsees : ∀ y, y ∈ outside ∨ h.clear.Sees y → y ∈ outside ∨ h.Sees y := by
    rintro y (hy | ⟨s, hs⟩ | ⟨k, hk⟩)
    · exact .inl hy
    · cases s <;> cases hs
    · cases hk
  exact ⟨fun y hy => hc.made y (hsees y hy), fun y z hy hz => hc.agree y z (hsees y hy) (hsees z hz),
    fun _ _ hx => (nomatch hx), fun _ hx => (nomatch hx)⟩

/-- Two things that are the same are one element. -/
theorem element_eq {y : Handle} (hc : Coherent outside h) (hx : x ∈ outside ∨ h.Sees x)
    (hy : y ∈ outside ∨ h.Sees y) (he : y.same x = true) : y.element = x.element :=
  hc.agree y x hy hx (by simpa [Handle.same] using he)

/-! ## Lookups -/

variable {name : String} {values : List (Option String)} {r : List ElementKey}

theorem sees_of_findIn (hx : (h.findIn s name values).1 = some x) : h.Sees x :=
  (remembered_or_search hx).elim (fun hk => .inr ⟨_, hk⟩) fun hk => .inl ⟨s, mem_of_search hk⟩

theorem name_of_findIn (hc : Coherent outside h) (hx : (h.findIn s name values).1 = some x) :
    x.element.name = name :=
  (remembered_or_search hx).elim (hc.named _ x) name_of_search

theorem findIn (hc : Coherent outside h) : Coherent outside (h.findIn s name values).2 := by
  have hr := hc.remember (k := .of name values s) (r := (h.findIn s name values).1) fun x hx =>
    ⟨.inr (sees_of_findIn hx), hc.name_of_findIn hx⟩
  have hsees : ∀ y, (h.findIn s name values).2.Sees y ↔
      (h.remember (.of name values s) (h.findIn s name values).1).Sees y := by
    simp [Sees]
  refine ⟨fun y hy => ?_, fun y z hy hz => hr.agree y z (hy.imp_right (hsees y).1)
    (hz.imp_right (hsees z).1), fun k y hy => hr.named k y (by simpa using hy), fun y hy => ?_⟩
  · rw [nextSerial_findIn]
    exact hr.made y (hy.imp_right (hsees y).1)
  · rw [schema_findIn]
    have hst := store_findIn h s .alterations name values
    exact hc.identified y ((congrArg Store.handles hst) ▸ hy)

theorem afterFind (hc : Coherent outside h) : Coherent outside (h.afterFind name values) :=
  hc.findIn.findIn

/-- An alteration that was found is remembered. -/
theorem sees_afterFind
    (ha : ((h.findIn .main name values).2.findIn .alterations name values).1 = some a) :
    (h.afterFind name values).Sees a :=
  .inr ⟨.of name values .alterations, by rw [Holdings.afterFind, remembered_findIn, if_pos rfl, ha]⟩

theorem settle (hc : Coherent (a :: outside) h) (hn : a.element.name = k.element)
    (b : Option Handle) : Coherent (a :: outside) (h.settle k a b).2 := by
  cases b with
  | none =>
    refine (hc.replace .main none (.inl List.mem_cons_self) nofun).remember ?_
    rintro x ⟨⟩
    exact ⟨.inl List.mem_cons_self, hn⟩
  | some b =>
    have hm := hc.make (x := Handle.unify h.schema h.nextSerial a b) rfl
    refine ((hm.replace .main none (.inl List.mem_cons_self) nofun).remember ?_).leave
    rintro x ⟨⟩
    exact ⟨.inl List.mem_cons_self, (name_unify _ _ _).trans hn⟩

theorem remembered_settle (h : Holdings) (k : ElementKey) (a : Handle) (b : Option Handle) :
    (h.settle k a b).2.remembered k = some (h.settle k a b).1 := by
  cases b <;> exact (remembered_remember _ k k _).trans (if_pos rfl)

theorem resolve (hc : Coherent outside h) : Coherent outside (h.resolve r name values).2 := by
  induction h, r, values using resolve_induction (n := name) generalizing outside with
  | found hm => rw [resolve_found hm]; exact hc.findIn
  | open_ hm hk => rw [resolve_open hm hk]; exact hc.findIn
  | missing hm hk ha => rw [resolve_missing hm hk ha]; exact hc.afterFind
  | alone hm hk ha hb =>
    rw [resolve_alone hm hk ha hb]
    exact ((hc.afterFind.join (sees_afterFind ha)).settle (hc.findIn.name_of_findIn ha) none).leave
  | based hm hk ha hb ih =>
    -- The alteration is used again after its base was resolved, so it is known meanwhile.
    rw [resolve_based hm hk ha hb]
    exact ((ih (hc.afterFind.join (sees_afterFind ha))).settle
      (hc.findIn.name_of_findIn ha) _).leave

/-- The answer of a lookup is remembered. -/
theorem remembered_resolve (hx : (h.resolve r name values).1 = some x) :
    (h.resolve r name values).2.remembered (.of name values .main) = some x := by
  induction h, r, values using resolve_induction (n := name) with
  | found hm => rw [resolve_found hm] at hx ⊢; rw [remembered_findIn, if_pos rfl, hm]; exact hx
  | open_ hm hk => rw [resolve_open hm hk] at hx; cases hx
  | missing hm hk ha => rw [resolve_missing hm hk ha] at hx; cases hx
  | alone hm hk ha hb =>
    rw [resolve_alone hm hk ha hb] at hx ⊢
    exact (remembered_settle _ _ _ _).trans hx
  | based hm hk ha hb ih =>
    rw [resolve_based hm hk ha hb] at hx ⊢
    exact (remembered_settle _ _ _ _).trans hx

/-! ## Adding -/

variable {node : Handle}

theorem addPlain (hc : Coherent (node :: outside) h) (hk : node.element.name = k.element) :
    Coherent (node :: outside) (h.addPlain k node) := by
  refine (hc.replace .main _ (.inl List.mem_cons_self) nofun).remember ?_
  rintro x ⟨⟩
  exact ⟨.inl List.mem_cons_self, hk⟩

theorem addAlteration (hc : Coherent (node :: outside) h) (hk : node.element.name = k.element)
    (hi : (h.schema.identityOf node.element).isSome = true) :
    Coherent (node :: outside) (h.addAlteration k node) := by
  refine (hc.replace .alterations _ (.inl List.mem_cons_self) fun _ => hi).remember ?_
  rintro x ⟨⟩
  exact ⟨.inl List.mem_cons_self, hk⟩

theorem displace (hc : Coherent outside h) : Coherent outside (h.displace k) := by
  unfold Holdings.displace
  split
  · next extant he => exact (hc.remove (s := .main) extant).remember (by simp)
  · exact hc

theorem applyOverride (hc : Coherent (node :: outside) h) (hk : node.element.name = k.element)
    (hx : h.remembered k = some x) : Coherent (node :: outside) (h.applyOverride k node x) := by
  -- What is overridden stays, as a base; the unified element is made and takes its place.
  have hx' : h.Sees x := .inr ⟨k, hx⟩
  have hm := hc.make (x := Handle.unify h.schema h.nextSerial node x) rfl
  have hb := (hm.replace .bases none (.inr hx') nofun).remember
    (k := k.inStore .bases) (r := some x) (by
      rintro y ⟨⟩
      exact ⟨.inr (.inr ⟨k, by rw [remembered_setStore]; exact hx⟩), hc.named k x hx⟩)
  refine ((hb.replace .main (some x) (.inl List.mem_cons_self) nofun).remember ?_).leave
  rintro y ⟨⟩
  exact ⟨.inl List.mem_cons_self, (name_unify _ _ _).trans hk⟩

theorem overridden (hc : Coherent outside h) : Coherent outside (h.overridden name values).2 := by
  unfold Holdings.overridden
  split
  · exact hc
  · exact hc.resolve

theorem remembered_overridden (hx : (h.overridden name values).1 = some x) :
    (h.overridden name values).2.remembered (.of name values .main) = some x := by
  unfold Holdings.overridden at hx ⊢
  cases hr : h.remembered (.of name values .main) with
  | some y => rw [hr] at hx; exact hr.trans hx
  | none => rw [hr] at hx; exact remembered_resolve hx

theorem add (hc : Coherent (node :: outside) h) : Coherent (node :: outside) (h.add node).2 := by
  refine add_cases (motive := fun r => Coherent (node :: outside) r.2) ?plain ?refused ?unfounded
    ?override ?alteration
  case plain => exact fun _ => hc.addPlain rfl
  case refused => exact fun _ => hc
  case unfounded => exact fun _ => hc.overridden
  case override =>
    intro base h' extant hb hid ho hr
    have hs : h'.schema = h.schema := by
      rw [← schema_overridden h node.element.name (h.schema.valuesOf node.element), ho]
    have hr' : h'.remembered (h.schema.keyOf node.element) = some extant := by
      have := remembered_overridden (congrArg Prod.fst ho)
      rwa [ho] at this
    have hc' : Coherent (node :: outside) h' := by
      have : Coherent _ (h.overridden node.element.name (h.schema.valuesOf node.element)).2 :=
        hc.overridden
      rwa [ho] at this
    refine (hc'.applyOverride rfl hr').addAlteration rfl ?_
    change (h'.schema.identityOf node.element).isSome = true
    rw [hs, hid]
    rfl
  case alteration =>
    intro base identity hb hid hne
    exact hc.displace.addAlteration rfl (by rw [schema_displace, hid]; rfl)

end

end Coherent

end Holdings

end TemplateInventory
