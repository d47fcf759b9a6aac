import TemplateInventory.Proofs.Coherence
/-!
# Names that an operation leaves alone

A lookup or an add is about elements of one name. Elements of other names stay
held in the same order and remembered under the same keys: `Beside p h h'` says
that `h'` differs from `h` only at names that do not meet `p`
(`Beside.resolve`, `Beside.add`).

It follows that nothing is remembered of a name that no store has, `Backed`.
-/

namespace TemplateInventory

namespace Holdings

/-- The elements of a store whose names meet `p`, with their keys. -/
def listed (h : Holdings) (p : String → Bool) (s : StoreId) : List (ElementKey × Handle) :=
  keyed (fun x => p x.element.name) (fun x => h.schema.keyOf x.element) (h.store s).handles

/-- Only elements whose names do not meet `p` are different. -/
structure Beside (p : String → Bool) (h h' : Holdings) : Prop where
  schema : h'.schema = h.schema
  listed : ∀ s, h'.listed p s = h.listed p s
  remembered : ∀ k, p k.element = true → h'.remembered k = h.remembered k

/-- What is remembered to have a key stands only for elements of the key's name. -/
theorem Coherent.other {p : String → Bool} {outside : List Handle} {h : Holdings} {s : StoreId}
    {k : ElementKey} {x : Handle} (hc : Coherent outside h) (hx : h.remembered k = some x)
    (hk : p k.element = false) :
    ∀ y ∈ (h.store s).handles, y.same x = true → p y.element.name = false := by
  intro y hy he
  rw [hc.element_eq (.inr (.inr ⟨k, hx⟩)) (.inr (.inl ⟨s, hy⟩)) he, hc.named k x hx, hk]

namespace Beside

section
variable {p : String → Bool} {h h₁ h₂ h₃ : Holdings} {s : StoreId} {k : ElementKey} {x a node : Handle}
  {outside : List Handle}

theorem refl (h : Holdings) : Beside p h h := ⟨rfl, fun _ => rfl, fun _ _ => rfl⟩

theorem trans (hb : Beside p h₁ h₂) (hb' : Beside p h₂ h₃) : Beside p h₁ h₃ :=
  ⟨hb'.schema.trans hb.schema, fun s => (hb'.listed s).trans (hb.listed s),
    fun k hk => (hb'.remembered k hk).trans (hb.remembered k hk)⟩

theorem serial (n : Nat) : Beside p h { h with nextSerial := n } :=
  ⟨rfl, fun s => by cases s <;> rfl, fun _ _ => rfl⟩

theorem remember (hk : p k.element = false) (r : Option Handle) : Beside p h (h.remember k r) := by
  refine ⟨rfl, fun s => by cases s <;> rfl, fun k' hk' => ?_⟩
  rw [remembered_remember, if_neg]
  rintro rfl
  rw [hk] at hk'
  cases hk'

theorem setStore {st : Store}
    (hl : keyed (fun x => p x.element.name) (fun x => h.schema.keyOf x.element) st.handles =
      h.listed p s) : Beside p h (h.setStore s st) := by
  refine ⟨schema_setStore h s st, fun s' => ?_, fun k _ => remembered_setStore h s st k⟩
  rw [Holdings.listed, schema_setStore, store_setStore]
  split
  · next he => exact he ▸ hl
  · rfl

theorem replace (s : StoreId) (extant : Option Handle)
    (he : ∀ x ∈ extant, ∀ y ∈ (h.store s).handles, y.same x = true → p y.element.name = false)
    (hx : p x.element.name = false) : Beside p h (h.setStore s ((h.store s).replace extant x)) :=
  setStore (Store.keyed_replace_other he hx)

theorem push (hx : p x.element.name = false) : Beside p h (h.setStore s ((h.store s).push x)) :=
  setStore (Store.keyed_push_other hx)

theorem remove
    (he : ∀ y ∈ (h.store s).handles, y.same x = true → p y.element.name = false) :
    Beside p h (h.setStore s ((h.store s).remove x)) :=
  setStore (Store.keyed_remove_other he)

/-! ### Lookups and adds -/

variable {name : String} {values : List (Option String)} {r : List ElementKey}

theorem findIn (hp : p name = false) : Beside p h (h.findIn s name values).2 := by
  refine ⟨schema_findIn h s name values, fun s' => ?_, fun k hk => ?_⟩
  · rw [Holdings.listed, schema_findIn, store_findIn]
    rfl
  · rw [remembered_findIn, if_neg]
    rintro rfl
    rw [ElementKey.element_of, hp] at hk
    cases hk

theorem afterFind (hp : p name = false) : Beside p h (h.afterFind name values) :=
  (findIn hp).trans (findIn hp)

theorem settle (ha : p a.element.name = false) (hk : p k.element = false) (b : Option Handle) :
    Beside p h (h.settle k a b).2 := by
  cases b with
  | none => exact (push (s := .main) ha).trans (remember hk _)
  | some b =>
    refine (serial (h.nextSerial + 1)).trans ((push (s := .main) ?_).trans (remember hk _))
    change p (unify h.schema a.element b.element).name = false
    rw [name_unify, ha]

theorem resolve (hc : Coherent outside h) (hp : p name = false) :
    Beside p h (h.resolve r name values).2 := by
  induction h, r, values using resolve_induction (n := name) with
  | found hm => rw [resolve_found hm]; exact findIn hp
  | open_ hm hk => rw [resolve_open hm hk]; exact findIn hp
  | missing hm hk ha => rw [resolve_missing hm hk ha]; exact afterFind hp
  | alone hm hk ha hb =>
    rw [resolve_alone hm hk ha hb]
    exact (afterFind hp).trans (settle (hc.findIn.name_of_findIn ha ▸ hp) hp none)
  | based hm hk ha hb ih =>
    rw [resolve_based hm hk ha hb]
    exact (afterFind hp).trans
      ((ih hc.afterFind).trans (settle (hc.findIn.name_of_findIn ha ▸ hp) hp _))

theorem overridden (hc : Coherent outside h) (hp : p name = false) :
    Beside p h (h.overridden name values).2 := by
  unfold Holdings.overridden
  split
  · exact refl h
  · exact resolve hc hp

theorem addPlain (hc : Coherent outside h) (hk : p k.element = false)
    (hn : p node.element.name = false) : Beside p h (h.addPlain k node) :=
  (replace .main _ (fun _ hx => hc.other hx hk) hn).trans (remember hk _)

theorem addAlteration (hc : Coherent outside h) (hk : p k.element = false)
    (hn : p node.element.name = false) : Beside p h (h.addAlteration k node) :=
  (replace .alterations _ (fun _ hx => hc.other (k := k.inStore .alterations) hx hk) hn).trans
    (remember (k := k.inStore .alterations) hk _)

theorem displace (hc : Coherent outside h) (hk : p k.element = false) :
    Beside p h (h.displace k) := by
  unfold Holdings.displace
  split
  · next x hx => exact (remove (s := .main) (hc.other hx hk)).trans (remember hk none)
  · exact refl h

theorem applyOverride (hc : Coherent outside h) (hk : p k.element = false)
    (hn : p node.element.name = false) (hx : h.remembered k = some x) :
    Beside p h (h.applyOverride k node x) := by
  have hb : Beside p h ((({ h with nextSerial := h.nextSerial + 1 } : Holdings).setStore .bases
      (h.bases.push x)).remember (k.inStore .bases) (some x)) :=
    (serial _).trans ((push (s := .bases) (hc.named k x hx ▸ hk)).trans
      (remember (k := k.inStore .bases) hk _))
  refine hb.trans ((replace .main (some x) ?_ ?_).trans (remember hk _))
  · rintro y ⟨⟩
    exact hc.other (s := .main) hx hk
  · change p (unify h.schema node.element x.element).name = false
    rw [name_unify, hn]

theorem add (hc : Coherent (node :: outside) h) (hn : p node.element.name = false) :
    Beside p h (h.add node).2 := by
  refine add_cases (motive := fun r => Beside p h r.2) ?plain ?refused ?unfounded ?override
    ?alteration
  case plain => exact fun _ => addPlain hc hn hn
  case refused => exact fun _ => refl h
  case unfounded => exact fun _ => overridden hc hn
  case override =>
    intro base h' extant hb hid ho hr
    have hh : h' = (h.overridden node.element.name (h.schema.valuesOf node.element)).2 := by rw [ho]
    have hx : h'.remembered (h.schema.keyOf node.element) = some extant :=
      hh ▸ Coherent.remembered_overridden (by rw [ho])
    have hc' : Coherent (node :: outside) h' := hh ▸ hc.overridden
    refine (hh ▸ overridden hc hn : Beside p h h').trans ((applyOverride hc' hn hn hx).trans ?_)
    exact addAlteration (hc'.applyOverride rfl hx) hn hn
  case alteration =>
    exact fun _ _ _ => (displace hc hn).trans (addAlteration hc.displace hn hn)

end

end Beside

/-! ## Names that are held -/

/-- Whether some store has an element of a name. -/
def Holds (h : Holdings) (n : String) : Prop := ∃ s, ∃ x ∈ (h.store s).handles, x.element.name = n

/-- Nothing is remembered of a name that no store has. -/
def Backed (h : Holdings) : Prop := ∀ k x, h.remembered k = some x → h.Holds k.element

section
variable {p : String → Bool} {h h' : Holdings} {s : StoreId} {k : ElementKey} {x a node : Handle}
  {outside : List Handle} {n name : String} {values : List (Option String)} {r : List ElementKey}

theorem holds_iff_listed (hn : p n = true) :
    h.Holds n ↔ ∃ s, ∃ e ∈ h.listed p s, e.2.element.name = n := by
  constructor
  · rintro ⟨s, x, hx, rfl⟩
    exact ⟨s, (h.schema.keyOf x.element, x), mem_keyed.2 ⟨hx, hn, rfl⟩, rfl⟩
  · rintro ⟨s, ⟨k, x⟩, hx, rfl⟩
    exact ⟨s, x, (mem_keyed.1 hx).1, rfl⟩

theorem Beside.holds (hb : Beside p h h') (hn : p n = true) : h'.Holds n ↔ h.Holds n := by
  simp only [holds_iff_listed hn, hb.listed]

theorem holds_addPlain (h : Holdings) (k : ElementKey) (node : Handle) :
    (h.addPlain k node).Holds node.element.name :=
  ⟨.main, node, Store.mem_replace_self _, rfl⟩

theorem holds_addAlteration (h : Holdings) (k : ElementKey) (node : Handle) :
    (h.addAlteration k node).Holds node.element.name :=
  ⟨.alterations, node, Store.mem_replace_self _, rfl⟩

/-- What is done at one name is backed by an element of that name. -/
theorem Backed.of_beside (hb : Backed h) (hd : Beside (· ≠ n) h h') (hn : h'.Holds n) :
    Backed h' := by
  intro k x hx
  by_cases hk : k.element = n
  · exact hk ▸ hn
  · have hp : decide (k.element ≠ n) = true := by simpa using hk
    rw [hd.remembered k hp] at hx
    exact (hd.holds (p := (· ≠ n)) hp).2 (hb k x hx)

theorem backed_empty (schema : KeySchema) : Backed (.empty schema) := fun _ _ hx => (nomatch hx)

theorem backed_clear (h : Holdings) : Backed h.clear := fun _ _ hx => (nomatch hx)

namespace Backed

theorem findIn (hb : Backed h) : Backed (h.findIn s name values).2 := by
  have hold : ∀ n, h.Holds n → (h.findIn s name values).2.Holds n := by
    rintro n ⟨s', y, hy, hn⟩
    exact ⟨s', y, by rwa [store_findIn], hn⟩
  intro k x hx
  rw [remembered_findIn] at hx
  split at hx
  · next hk =>
    subst hk
    rcases remembered_or_search hx with hx | hx
    · exact hold _ (hb _ x hx)
    · exact hold _ ⟨s, x, mem_of_search hx, name_of_search hx⟩
  · exact hold _ (hb k x hx)

theorem settle (hb : Backed h) (hn : a.element.name = k.element) (b : Option Handle) :
    Backed (h.settle k a b).2 := by
  have hd : Beside (· ≠ k.element) h (h.settle k a b).2 := .settle (by simp [hn]) (by simp) b
  refine hb.of_beside hd ?_
  cases b with
  | none => exact ⟨.main, a, Store.mem_replace_self none, hn⟩
  | some b =>
    exact ⟨.main, Handle.unify h.schema h.nextSerial a b, Store.mem_replace_self none,
      (name_unify _ _ _).trans hn⟩

theorem resolve (hb : Backed h) (hc : Coherent outside h) : Backed (h.resolve r name values).2 := by
  induction h, r, values using resolve_induction (n := name) with
  | found hm => rw [resolve_found hm]; exact hb.findIn
  | open_ hm hk => rw [resolve_open hm hk]; exact hb.findIn
  | missing hm hk ha => rw [resolve_missing hm hk ha]; exact hb.findIn.findIn
  | alone hm hk ha hb' =>
    rw [resolve_alone hm hk ha hb']
    exact (hb.findIn.findIn).settle (hc.findIn.name_of_findIn ha) none
  | based hm hk ha hb' ih =>
    rw [resolve_based hm hk ha hb']
    exact (ih (hb.findIn.findIn) hc.afterFind).settle
      (hc.findIn.name_of_findIn ha) _

theorem overridden (hb : Backed h) (hc : Coherent outside h) :
    Backed (h.overridden name values).2 := by
  unfold Holdings.overridden
  split
  · exact hb
  · exact hb.resolve hc

theorem add (hb : Backed h) (hc : Coherent (node :: outside) h) : Backed (h.add node).2 := by
  have hd : Beside (· ≠ node.element.name) h (h.add node).2 := .add hc (by simp)
  revert hd
  refine add_cases (motive := fun r => Beside (· ≠ node.element.name) h r.2 → Backed r.2) ?plain
    ?refused ?unfounded ?override ?alteration
  case plain => exact fun _ hd => hb.of_beside hd (holds_addPlain _ _ _)
  case refused => exact fun _ _ => hb
  case unfounded => exact fun _ _ => hb.overridden hc
  case override => exact fun _ _ _ _ hd => hb.of_beside hd (holds_addAlteration _ _ _)
  case alteration => exact fun _ _ _ hd => hb.of_beside hd (holds_addAlteration _ _ _)

end Backed

end

end Holdings

end TemplateInventory
