import TemplateInventory.Proofs.Aside
import TemplateInventory.Proofs.Agreement
/-!
# Catalogs with the same contents

Two catalogs can have equal elements under other identities, as after a change that
is made twice. Then lookups answer equal elements (`SameContents.resolve`), and
adding equal elements keeps this (`SameContents.add`). Holdings that agree with such
catalogs give the same answers (`SameContents.answers`).
-/

namespace TemplateInventory

open Holdings Holdings.SameAt

namespace Catalog

/-- Under every key the tables have equal elements. -/
structure SameContents (c c' : Catalog) : Prop where
  schema : c'.schema = c.schema
  get? : ∀ s k, ((c'.table s).get? k).map Handle.element = ((c.table s).get? k).map Handle.element

namespace SameContents

section
variable {c c' : Catalog} {k : ElementKey} {s : StoreId} {x x' a a' node node' : Handle}
  {b b' : Option Handle}

theorem refl (c : Catalog) : SameContents c c := ⟨rfl, fun _ _ => rfl⟩

theorem main (hs : SameContents c c') (k : ElementKey) :
    (c'.main.get? k).map Handle.element = (c.main.get? k).map Handle.element := hs.get? .main k

theorem alterations (hs : SameContents c c') (k : ElementKey) :
    (c'.alterations.get? k).map Handle.element = (c.alterations.get? k).map Handle.element :=
  hs.get? .alterations k

theorem bases (hs : SameContents c c') (k : ElementKey) :
    (c'.bases.get? k).map Handle.element = (c.bases.get? k).map Handle.element := hs.get? .bases k

/-- The number of the next element is not part of the contents. -/
theorem renumber (hs : SameContents c c') (n n' : Nat) :
    SameContents { c with nextSerial := n } { c' with nextSerial := n' } :=
  ⟨hs.schema, fun s => by
    cases s with
    | main => exact hs.get? .main
    | alterations => exact hs.get? .alterations
    | bases => exact hs.get? .bases⟩

/-- Tables of equal elements take the place of those of one store. -/
theorem setTable {t t' : Table ElementKey Handle} (hs : SameContents c c') (s : StoreId)
    (ht : ∀ k, (t'.get? k).map Handle.element = (t.get? k).map Handle.element) :
    SameContents (c.setTable s t) (c'.setTable s t') where
  schema := by rw [schema_setTable, schema_setTable, hs.schema]
  get? s' k := by
    rw [table_setTable, table_setTable]
    by_cases hs' : s = s'
    · rw [if_pos hs', if_pos hs', ht]
    · rw [if_neg hs', if_neg hs', hs.get?]

theorem put (hs : SameContents c c') (s : StoreId) (k : ElementKey) (he : x'.element = x.element) :
    SameContents (c.setTable s ((c.table s).put k x)) (c'.setTable s ((c'.table s).put k x')) := by
  refine hs.setTable s fun k' => ?_
  rw [Table.get?_put, Table.get?_put]
  split
  · exact congrArg some he
  · exact hs.get? s k'

theorem erase (hs : SameContents c c') (s : StoreId) (k : ElementKey) :
    SameContents (c.setTable s ((c.table s).erase k)) (c'.setTable s ((c'.table s).erase k)) := by
  refine hs.setTable s fun k' => ?_
  rw [Table.get?_erase, Table.get?_erase]
  split
  · rfl
  · exact hs.get? s k'

theorem unify (hs : SameContents c c') (ha : a'.element = a.element) (hx : x'.element = x.element) :
    (Handle.unify c'.schema c'.nextSerial a' x').element =
      (Handle.unify c.schema c.nextSerial a x).element := by
  change TemplateInventory.unify c'.schema a'.element x'.element =
    TemplateInventory.unify c.schema a.element x.element
  rw [hs.schema, ha, hx]

theorem settle (hs : SameContents c c') (ha : a'.element = a.element)
    (hb : b'.map Handle.element = b.map Handle.element) :
    (c'.settle k a' b').1.element = (c.settle k a b).1.element ∧
      SameContents (c.settle k a b).2 (c'.settle k a' b').2 := by
  cases b with
  | none =>
    obtain rfl := none_of_map hb rfl
    exact ⟨ha, hs.put .main k ha⟩
  | some x =>
    obtain ⟨x', rfl, hx⟩ := some_of_map hb rfl
    have hu := hs.unify ha hx
    exact ⟨hu, (hs.renumber (c.nextSerial + 1) (c'.nextSerial + 1)).put .main k hu⟩

/-- Equal elements are resolved. -/
theorem resolve {r : List ElementKey} (hs : SameContents c c') :
    (c'.resolve r k).1.map Handle.element = (c.resolve r k).1.map Handle.element ∧
      SameContents (c.resolve r k).2 (c'.resolve r k).2 := by
  induction r, k using resolve_induction (c := c) with
  | served hm =>
    obtain ⟨x', hm', he⟩ := some_of_map (hs.main _) hm
    rw [resolve_served hm, resolve_served hm']
    exact ⟨congrArg some he, hs⟩
  | open_ hm hk =>
    rw [resolve_open hm hk, resolve_open (none_of_map (hs.main _) hm) hk]
    exact ⟨rfl, hs⟩
  | missing hm ha =>
    rw [resolve_missing hm ha,
      resolve_missing (none_of_map (hs.main _) hm) (none_of_map (hs.alterations _) ha)]
    exact ⟨rfl, hs⟩
  | alone hm hk ha hb =>
    obtain ⟨a', ha', he⟩ := some_of_map (hs.alterations _) ha
    rw [resolve_alone hm hk ha hb,
      resolve_alone (none_of_map (hs.main _) hm) hk ha' (he ▸ hb)]
    obtain ⟨hx, hs'⟩ := hs.settle he (b := none) rfl
    exact ⟨congrArg some hx, hs'⟩
  | based hm hk ha hb ih =>
    obtain ⟨a', ha', he⟩ := some_of_map (hs.alterations _) ha
    rw [resolve_based hm hk ha hb,
      resolve_based (none_of_map (hs.main _) hm) hk ha' (he ▸ hb)]
    obtain ⟨hx, hs'⟩ := ih.2.settle he ih.1
    exact ⟨congrArg some hx, hs'⟩

theorem addOverride (hs : SameContents c c') (base : String) (he : node'.element = node.element) :
    (c'.addOverride base node').1 = (c.addOverride base node).1 ∧
      SameContents (c.addOverride base node).2 (c'.addOverride base node').2 := by
  obtain ⟨hans, hs'⟩ := hs.resolve (r := []) (k := c.schema.keyOf node.element)
  unfold Catalog.addOverride
  rw [hs.schema, he]
  generalize c.schema.keyOf node.element = k at *
  simp only
  -- What was found is equal on both sides, and both go on from there.
  generalize c.resolve [] k = o at *
  generalize c'.resolve [] k = o' at *
  obtain ⟨x?, c₁⟩ := o
  obtain ⟨x'?, c₁'⟩ := o'
  simp only at hans hs'
  cases x? with
  | none =>
    obtain rfl := none_of_map hans rfl
    exact ⟨rfl, hs'⟩
  | some x =>
    obtain ⟨x', rfl, hx⟩ := some_of_map hans rfl
    simp only
    cases hb : c₁.bases.get? k with
    | some y =>
      obtain ⟨y', hb', -⟩ := some_of_map (hs'.bases k) hb
      rw [hb']
      exact ⟨rfl, hs'⟩
    | none =>
      rw [none_of_map (hs'.bases k) hb]
      have hall := ((hs'.put .main k (hs'.unify he hx)).put .alterations k he).put .bases k hx
      exact ⟨rfl, hall.renumber (c₁.nextSerial + 1) (c₁'.nextSerial + 1)⟩

/-- Equal elements are added alike. -/
theorem add (hs : SameContents c c') (he : node'.element = node.element) :
    (c'.add node').1 = (c.add node).1 ∧ SameContents (c.add node).2 (c'.add node').2 := by
  obtain ⟨schema, main', alterations', bases', n'⟩ := c'
  obtain rfl : schema = c.schema := hs.schema
  unfold Catalog.add
  rw [he]
  cases node.element.base with
  | none => exact ⟨rfl, hs.put .main (c.schema.keyOf node.element) he⟩
  | some base =>
    simp only
    split
    · exact ⟨rfl, hs⟩
    · split
      · exact ⟨rfl, hs⟩
      · split
        · exact hs.addOverride base he
        · exact ⟨rfl, (hs.erase .main (c.schema.keyOf node.element)).put .alterations
            (c.schema.keyOf node.element) he⟩

/-! ## Answers -/

variable {p : String → Bool} {h h' : Holdings} {outside outside' : List Handle} {name : String}

theorem getBase (hs : SameContents c c') (name : String) (values : List (Option String)) :
    (c'.getBase name values).1.map Handle.element = (c.getBase name values).1.map Handle.element := by
  unfold Catalog.getBase
  rw [hs.schema]
  simp only
  generalize ElementKey.of name (c.schema.fit name values) .main = k
  cases ha : c.alterations.get? k with
  | none => rw [none_of_map (hs.alterations k) ha]
  | some a =>
    obtain ⟨a', ha', he⟩ := some_of_map (hs.alterations k) ha
    rw [ha']
    simp only [he]
    split
    · rfl
    · split
      · rfl
      · split
        · exact hs.bases _
        · exact hs.resolve.1

/-- Holdings that agree with catalogs of the same contents answer alike. -/
theorem answers (hs : SameContents c c') (ha : Agrees p h c) (ha' : Agrees p h' c')
    (hc : Coherent outside h) (hc' : Coherent outside' h') (hp : p name = true)
    (values : List (Option String)) :
    (h'.getElement name values).1.map Handle.element =
        (h.getElement name values).1.map Handle.element ∧
      (h'.getAlteration name values).1.map Handle.element =
        (h.getAlteration name values).1.map Handle.element ∧
      (h'.getBase name values).1.map Handle.element =
        (h.getBase name values).1.map Handle.element := by
  rw [(ha.getElement hc hp values).1, (ha.getAlteration hp values).1, (ha.getBase hc hp values).1,
    (ha'.getElement hc' hp values).1, (ha'.getAlteration hp values).1,
    (ha'.getBase hc' hp values).1]
  refine ⟨?_, ?_, hs.getBase name values⟩
  · rw [getElement, getElement, hs.schema]
    exact hs.resolve.1
  · rw [getAlteration, getAlteration, hs.schema]
    exact hs.alterations _

end

end SameContents

end Catalog

end TemplateInventory
