import TemplateInventory.Distinct
import TemplateInventory.Holdings.Basic
/-!
# Resolving derived elements

A key that the main store does not have may have an alteration. It is then
unified with the element that its `base` names, which is resolved first, and the
result joins the main store. A key that is met again while it is being resolved
counts as having no element, so cycles of bases end.

`resolve` ends because every key that it goes on to belongs to the base of an
alteration that is known, `Holdings.baseKeys`, and no key is resolved twice at
the same time.
-/

namespace TemplateInventory

namespace Holdings

/-- The key values of the element that an alteration refers to by `base`; a name
without key attributes has none. -/
def baseValues (values : List (Option String)) (base : String) : Option (List (Option String)) :=
  if values.isEmpty then none else some (values.dropLast ++ [some base])

/-! ## Why resolving ends -/

/-- The alterations that a lookup can find: those that are held, and those that
are remembered. -/
def Knows (h : Holdings) (a : Handle) : Prop :=
  a ∈ h.alterations.handles ∨
    ∃ k, k.store = .alterations ∧ h.cache.entries.get? k = some (some a)

/-- The alterations that a lookup can find, as a list. -/
def knownAlterations (h : Holdings) : List Handle :=
  h.alterations.handles ++
    h.cache.entries.keys.filterMap fun k =>
      if k.store = .alterations then (h.cache.entries.get? k).join else none

theorem mem_knownAlterations {h : Holdings} {a : Handle} :
    a ∈ h.knownAlterations ↔ h.Knows a := by
  simp only [knownAlterations, Knows, List.mem_append, List.mem_filterMap]
  refine or_congr Iff.rfl ⟨?_, ?_⟩
  · rintro ⟨k, _, hk⟩
    split at hk
    · exact ⟨k, ‹_›, Option.join_eq_some_iff.1 hk⟩
    · cases hk
  · rintro ⟨k, hs, hk⟩
    refine ⟨k, ?_, by simp [hs, hk]⟩
    rw [← Table.contains_iff, Table.contains, hk]
    rfl

/-- The keys that resolving some key values can come to. -/
def baseKeys (h : Holdings) (name : String) (values : List (Option String)) : List ElementKey :=
  .of name values .main ::
    h.knownAlterations.filterMap fun a =>
      (a.element.base.bind (baseValues values)).map (ElementKey.of name · .main)

theorem findIn_knows {h h' : Holdings} {store : StoreId} {name : String}
    {values : List (Option String)} {x? : Option Handle}
    (hf : h.findIn store name values = (x?, h')) {a : Handle} (ha : h'.Knows a) : h.Knows a := by
  unfold findIn at hf
  split at hf
  · cases hf; exact ha
  · cases hf; exact ha
  · cases hf
    rcases ha with ha | ⟨k, hk, ha⟩
    · exact .inl ha
    · simp only [countSearch, remember, LookupCache.set, Table.get?_put] at ha
      split at ha
      · next he =>
        subst he
        simp only [ElementKey.of] at hk
        subst hk
        simp only [Option.some.injEq] at ha
        exact .inl (List.mem_of_find?_eq_some ha)
      · exact .inr ⟨k, hk, ha⟩

theorem knows_of_findIn {h h' : Holdings} {name : String} {values : List (Option String)}
    {a : Handle} (hf : h.findIn .alterations name values = (some a, h')) : h.Knows a := by
  unfold findIn at hf
  split at hf
  · next x hx =>
    cases hf
    refine .inr ⟨.of name values .alterations, rfl, ?_⟩
    unfold LookupCache.get at hx
    split at hx
    · cases hx
    · cases hx
    · next hc => cases hx; exact hc
  · cases hf
  · simp only [Prod.mk.injEq] at hf
    exact .inl (List.mem_of_find?_eq_some hf.1)

theorem baseValues_baseValues {values values' : List (Option String)} {base base' : String}
    (h : baseValues values base = some values') :
    baseValues values' base' = baseValues values base' := by
  unfold baseValues at h ⊢
  split at h
  · cases h
  · next hne =>
    cases h
    simp [hne]

/-- The keys that can come after a base are among those that could come before. -/
theorem mem_baseKeys_of_base {h h' : Holdings} {name base : String}
    {values values' : List (Option String)} {a : Handle} (ha : h.Knows a)
    (hb : a.element.base = some base) (hv : baseValues values base = some values')
    (hk : ∀ x, h'.Knows x → h.Knows x) {k : ElementKey} (hm : k ∈ h'.baseKeys name values') :
    k ∈ h.baseKeys name values := by
  unfold baseKeys at hm ⊢
  rw [List.mem_cons] at hm ⊢
  refine .inr (List.mem_filterMap.2 ?_)
  rcases hm with rfl | hm
  · exact ⟨a, mem_knownAlterations.2 ha, by simp [hb, hv]⟩
  · obtain ⟨x, hx, he⟩ := List.mem_filterMap.1 hm
    refine ⟨x, mem_knownAlterations.2 (hk x (mem_knownAlterations.1 hx)), ?_⟩
    rw [← he]
    cases x.element.base with
    | none => rfl
    | some b => simp [baseValues_baseValues hv]

/-- How many keys resolving can still come to. -/
def openKeys (h : Holdings) (resolving : List ElementKey) (name : String)
    (values : List (Option String)) : Nat :=
  (itemsOutside resolving (h.baseKeys name values)).length

/-! ## Resolving -/

/-- The element of an alteration with the base that was found for it: it joins
the main store and is remembered. -/
def settle (h : Holdings) (k : ElementKey) (alteration : Handle) (base : Option Handle) :
    Handle × Holdings :=
  let (result, h) := match base with
    | some b =>
      (Handle.unify h.schema h.nextSerial alteration b, { h with nextSerial := h.nextSerial + 1 })
    | none => (alteration, h)
  (result, { h with main := h.main.push result }.remember k (some result))

/-- The element of a name and key values, while the keys `resolving` are being
resolved. -/
def resolve (h : Holdings) (resolving : List ElementKey) (name : String)
    (values : List (Option String)) : Option Handle × Holdings :=
  match _h₁ : h.findIn .main name values with
  | (some found, h) => (some found, h)
  | (none, h₁) =>
    let k := ElementKey.of name values .main
    if _hk : k ∈ resolving then (none, h₁)
    else
      match _h₂ : h₁.findIn .alterations name values with
      | (none, h₂) => (none, h₂)
      | (some a, h₂) =>
        match _hb : a.element.base with
        | none =>
          let (result, h₃) := h₂.settle k a none
          (some result, h₃)
        | some base =>
          match _hv : baseValues values base with
          | none =>
            let (result, h₃) := h₂.settle k a none
            (some result, h₃)
          | some values' =>
            let (b, h₃) := h₂.resolve (k :: resolving) name values'
            let (result, h₄) := h₃.settle k a b
            (some result, h₄)
termination_by h.openKeys resolving name values
decreasing_by
  refine length_outside_lt (fun x hx => ?_) List.mem_cons_self _hk
  refine mem_baseKeys_of_base (findIn_knows _h₁ (knows_of_findIn _h₂)) _hb _hv (fun y hy => ?_) hx
  exact findIn_knows _h₁ (findIn_knows _h₂ hy)

/-- The element that is served for a name and key values. -/
def getElement (h : Holdings) (name : String) (values : List (Option String)) :
    Option Handle × Holdings :=
  h.resolve [] name (h.schema.fit name values)

/-- The derived element of a name and key values as it was added. -/
def getAlteration (h : Holdings) (name : String) (values : List (Option String)) :
    Option Handle × Holdings :=
  h.findIn .alterations name (h.schema.fit name values)

/-- What the derived element of a name and key values is based on: for an
override what it took the place of, else the element that its base names. -/
def getBase (h : Holdings) (name : String) (values : List (Option String)) :
    Option Handle × Holdings :=
  let values := h.schema.fit name values
  match h.findIn .alterations name values with
  | (none, h) => (none, h)
  | (some a, h) =>
    match a.element.base with
    | none => (none, h)
    | some base =>
      match baseValues values base with
      | none => (none, h)
      | some values' =>
        if (h.schema.identityAttr name).bind a.element.attr = some base then
          h.findIn .bases name values'
        else h.resolve [] name values'

end Holdings

end TemplateInventory
