import TemplateInventory.Proofs.Cycles
/-!
# The copy of a tagged layout

`Conventions.copyOf` is what the copy of a tagged layout for a tag is: the layout with the
tag on its name, on the names of its sublayouts and on the parameters of its parts. A layout
can be copied if it and its sublayouts have names (`Conventions.Copyable`), and is then
copied to that (`copyTagged_ok_iff`). Its key is the one that is asked for before
(`valuesOfCopy_eq`), if the name is one of the key attributes at most once.
-/

namespace TemplateInventory

open Holdings Inventory

/-- The element with a tag at the end of an attribute, if it has that. -/
def Element.suffixAttr (e : Element) (attr tag : String) : Element :=
  match e.attr attr with
  | some value => e.setAttr attr (withTag value tag)
  | none => e

namespace Conventions

/-- A child in the copy of a layout for a tag. -/
def copyOfChild (c : Conventions) (tag : String) (child : Element) : Element :=
  if child.name = "sublayout" then child.suffixAttr c.nameAttr tag
  else if child.name = "part" ∧ child.attr "param" ≠ some "" then child.suffixAttr "param" tag
  else child

/-- The copy of a layout for a tag. -/
def copyOf (c : Conventions) (tag : String) (e : Element) : Element :=
  { e.suffixAttr c.nameAttr tag with children := e.children.map (c.copyOfChild tag) }

/-- Whether a layout and its sublayouts have names. -/
structure Copyable (c : Conventions) (e : Element) : Prop where
  named : (e.attr c.nameAttr).isSome = true
  sublayouts : ∀ child ∈ e.children, child.name = "sublayout" →
    (child.attr c.nameAttr).isSome = true

end Conventions

section
variable {c : Conventions} {tag name : String} {e copy child child' : Element}
  {es es' : List Element}

@[simp] theorem Element.name_suffixAttr (e : Element) (attr tag : String) :
    (e.suffixAttr attr tag).name = e.name := by
  unfold suffixAttr
  split <;> rfl

theorem Element.attr_suffixAttr (e : Element) (attr tag n : String) :
    (e.suffixAttr attr tag).attr n =
      if attr = n then (e.attr n).map (withTag · tag) else e.attr n := by
  unfold suffixAttr
  split
  · next value hv =>
    rw [attr_setAttr]
    split
    · next he => rw [← he, hv]; rfl
    · rfl
  · next hv =>
    split
    · next he => rw [← he, hv]; rfl
    · rfl

@[simp] theorem Conventions.name_copyOf (c : Conventions) (tag : String) (e : Element) :
    (c.copyOf tag e).name = e.name := e.name_suffixAttr c.nameAttr tag

theorem Conventions.attr_copyOf (c : Conventions) (tag : String) (e : Element) (n : String) :
    (c.copyOf tag e).attr n =
      if c.nameAttr = n then (e.attr n).map (withTag · tag) else e.attr n :=
  e.attr_suffixAttr c.nameAttr tag n

theorem Conventions.attr_copyOf_of_named (hn : e.attr c.nameAttr = some name) (n : String) :
    (c.copyOf tag e).attr n = if c.nameAttr = n then some (withTag name tag) else e.attr n := by
  rw [Conventions.attr_copyOf]
  split
  · next he => rw [← he, hn]; rfl
  · rfl

/-- A copy is derived where the layout is. -/
theorem Conventions.base_copyOf_eq_none : (c.copyOf tag e).base = none ↔ e.base = none := by
  rw [Element.base, Conventions.attr_copyOf, Element.base]
  split
  · exact Option.map_eq_none_iff
  · exact Iff.rfl

/-! ## Copying -/

theorem requiredAttr_eq_ok {n v : String} : e.requiredAttr n = .ok v ↔ e.attr n = some v := by
  unfold Element.requiredAttr
  cases e.attr n with
  | some w => simp
  | none => simp

theorem copyChild_ok_iff : copyChild c tag child = .ok child' ↔
    (child.name = "sublayout" → (child.attr c.nameAttr).isSome = true) ∧
      c.copyOfChild tag child = child' := by
  unfold copyChild Conventions.copyOfChild Element.suffixAttr Element.requiredAttr
  by_cases hs : child.name = "sublayout"
  · cases hn : child.attr c.nameAttr with
    | some v => simp [hs]
    | none => simp [hs]
  · by_cases hp : child.name = "part"
    · cases hv : child.attr "param" with
      | some v => by_cases he : v = "" <;> simp [hp, he]
      | none => simp [hp]
    · simp [hs, hp]

theorem copyChildren_ok_iff : copyChildren c tag es = .ok es' ↔
    (∀ child ∈ es, child.name = "sublayout" → (child.attr c.nameAttr).isSome = true) ∧
      es.map (c.copyOfChild tag) = es' := by
  induction es generalizing es' with
  | nil => simp [copyChildren]
  | cons child es ih =>
    rw [copyChildren, List.forall_mem_cons, List.map_cons]
    cases hc : copyChild c tag child with
    | error err =>
      have hno := mt (fun h => copyChild_ok_iff.2 ⟨h, rfl⟩) (by rw [hc]; simp)
      exact ⟨fun h => (by cases h), fun h => absurd h.1.1 hno⟩
    | ok child' =>
      obtain ⟨hnamed, rfl⟩ := copyChild_ok_iff.1 hc
      cases hr : copyChildren c tag es with
      | error err =>
        have hno := mt (fun h => ih.2 ⟨h, rfl⟩) (by rw [hr]; simp)
        exact ⟨fun h => (by cases h), fun h => absurd h.1.2 hno⟩
      | ok rest =>
        obtain ⟨hrest, rfl⟩ := ih.1 hr
        simp only [Except.map, Except.ok.injEq]
        exact ⟨fun h => ⟨⟨hnamed, hrest⟩, h⟩, And.right⟩

theorem copyTagged_ok_iff (hn : e.attr c.nameAttr = some name) :
    copyTagged c tag (withTag name tag) e = .ok copy ↔ c.Copyable e ∧ c.copyOf tag e = copy := by
  have hset : { e.setAttr c.nameAttr (withTag name tag) with
      children := e.children.map (c.copyOfChild tag) } = c.copyOf tag e := by
    rw [Conventions.copyOf, Element.suffixAttr, hn]
  unfold copyTagged
  cases hc : copyChildren c tag e.children with
  | error err =>
    have hno := mt (fun h => copyChildren_ok_iff.2 ⟨h, rfl⟩) (by rw [hc]; simp)
    exact ⟨fun h => (by cases h), fun h => absurd h.1.sublayouts hno⟩
  | ok children =>
    obtain ⟨hnamed, rfl⟩ := copyChildren_ok_iff.1 hc
    simp only [Except.map, Except.ok.injEq, hset]
    exact ⟨fun h => ⟨⟨by rw [hn]; rfl, hnamed⟩, h⟩, And.right⟩

/-! ## The key of a copy -/

/-- Setting the place of an item that is there once is mapping it to the value. -/
theorem map_set_of_findIdx? {α : Type} {n : String} {names : List String} {slot : Nat}
    (hi : names.findIdx? (· == n) = some slot) (hn : names.count n ≤ 1) (f : String → α) (v : α) :
    (names.map f).set slot v = names.map fun a => if n = a then v else f a := by
  obtain ⟨before, a, after, rfl, rfl, ha, hbefore⟩ := split_of_findIdx? hi
  obtain rfl : a = n := by simpa using ha
  have hafter : a ∉ after := by
    rw [List.count_append, List.count_cons_self] at hn
    exact List.count_eq_zero.1 (by omega)
  have hother : ∀ {l : List String}, a ∉ l → l.map (fun b => if a = b then v else f b) = l.map f := by
    intro l hl
    refine List.map_congr_left fun b hb => if_neg ?_
    rintro rfl
    exact hl hb
  rw [List.map_append, List.map_cons, List.map_append, List.map_cons, if_pos rfl, hother hafter,
    hother fun hmem => absurd (hbefore a hmem) (by simp), ← List.length_map (f := f),
    List.set_append_right _ _ (Nat.le_refl _), Nat.sub_self, List.set_cons_zero]

theorem valuesOf_copyOf (s : KeySchema) (hn : e.attr c.nameAttr = some name) :
    s.valuesOf (c.copyOf tag e) = (s.attrsFor e.name).map fun a =>
      if c.nameAttr = a then some (withTag name tag) else e.attr a := by
  rw [KeySchema.valuesOf, Element.keyValues, Conventions.name_copyOf,
    List.map_congr_left fun a _ => Conventions.attr_copyOf_of_named hn a]

theorem valuesOfCopy_eq {i : Inventory} (hn : e.attr i.conventions.nameAttr = some name)
    (hk : (i.schema.attrsFor e.name).count i.conventions.nameAttr ≤ 1) :
    i.valuesOfCopy (withTag name tag) e = i.schema.valuesOf (i.conventions.copyOf tag e) := by
  unfold valuesOfCopy
  rw [valuesOf_copyOf _ hn]
  unfold KeySchema.valuesOf Element.keyValues
  simp only
  split
  · next slot hi => exact map_set_of_findIdx? hi hk e.attr _
  · next hi =>
    refine List.map_congr_left fun a ha => (if_neg ?_).symm
    rintro rfl
    exact absurd (List.findIdx?_eq_none_iff.1 hi _ ha) (by simp)

end

end TemplateInventory
