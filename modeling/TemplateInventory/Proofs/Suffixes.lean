import Mathlib.Data.List.TakeWhile
import TemplateInventory.Proofs.Verdicts
/-!
# Splitting off suffixes

The key values of a copy are those of a standard element, but one of them has a suffix.
`SuffixRule.Extends` says so of two lists of key values without searching for anything.
Splitting finds the standard values wherever there are any, and they are the only ones
(`SuffixRule.split_eq_some_iff`): the marker that counts is the first in the order of markers
that the value has after its first character, and it is cut where it first stands.

Merging is then exact (`SuffixRule.split_exact`). An outdated element is merged with the
served element of its own key, without a suffix, or of a standard key that its own extends.
-/

namespace TemplateInventory

open Holdings

/-! ## Cutting at a marker -/

section
variable {marker : Char} {cs stem suffix : List Char}

/-- The cut is before the first of the markers that follow the first character. -/
theorem splitAtMarker_eq_some_iff :
    splitAtMarker marker cs = some (stem, suffix) ↔
      cs = stem ++ suffix ∧ stem ≠ [] ∧ suffix.head? = some marker ∧ marker ∉ stem.tail := by
  constructor
  · intro h
    cases cs with
    | nil => cases h
    | cons c cs =>
      simp only [splitAtMarker] at h
      split at h
      · cases h
      · next hne =>
        obtain ⟨rfl, rfl⟩ : c :: cs.takeWhile (· != marker) = stem ∧
            cs.dropWhile (· != marker) = suffix := by simpa using h
        have hhead := List.head?_dropWhile_not (· != marker) cs
        refine ⟨by simp, by simp, ?_, fun hm => ?_⟩
        · cases hd : cs.dropWhile (· != marker) with
          | nil => exact absurd hd hne
          | cons d ds =>
            rw [hd] at hhead
            exact congrArg some (by simpa using hhead)
        · simpa using List.mem_takeWhile_imp hm
  · rintro ⟨rfl, hne, hhead, hm⟩
    obtain ⟨c, stem, rfl⟩ := List.exists_cons_of_ne_nil hne
    obtain ⟨ds, rfl⟩ := List.head?_eq_some_iff.1 hhead
    have hstem : ∀ d ∈ stem, (d != marker) = true := fun d hd =>
      bne_iff_ne.2 fun he => hm (he ▸ hd)
    simp [splitAtMarker, List.dropWhile_append_of_pos hstem, List.takeWhile_append_of_pos hstem]

theorem isSome_splitAtMarker :
    (splitAtMarker marker cs).isSome = true ↔ marker ∈ cs.tail := by
  cases cs with
  | nil => simp [splitAtMarker]
  | cons c cs =>
    simp only [splitAtMarker, List.tail_cons]
    split
    · next hd =>
      have hm : marker ∉ cs := fun hm => by simpa using List.dropWhile_eq_nil_iff.1 hd marker hm
      simpa using hm
    · next hne => simpa [List.dropWhile_eq_nil_iff] using hne

/-- Of several markers, the first that is there decides. -/
theorem findSome?_splitAtMarker (markers : List Char) (cs : List Char) :
    markers.findSome? (splitAtMarker · cs) =
      (markers.find? (· ∈ cs.tail)).bind (splitAtMarker · cs) := by
  induction markers with
  | nil => rfl
  | cons m markers ih =>
    by_cases hm : m ∈ cs.tail
    · obtain ⟨cut, hcut⟩ := Option.isSome_iff_exists.1 (isSome_splitAtMarker.2 hm)
      simp [hm, hcut]
    · have hcut : splitAtMarker m cs = none := by simpa [← isSome_splitAtMarker] using hm
      simp [hm, hcut, ih]

end

namespace SuffixRule
variable {r : SuffixRule} {attrs : List String} {values standard : List (Option String)}
  {value stem suffix : String} {slot : Nat}

theorem splitValue_eq_some_iff : r.splitValue value = some (stem, suffix) ↔
    value = stem ++ suffix ∧ stem ≠ "" ∧
      ∃ marker, r.markers.find? (· ∈ value.toList.tail) = some marker ∧
        suffix.toList.head? = some marker ∧ marker ∉ stem.toList.tail := by
  rw [splitValue, findSome?_splitAtMarker]
  simp only [Option.map_eq_some_iff, Option.bind_eq_some_iff, Prod.exists, Prod.mk.injEq]
  constructor
  · rintro ⟨_, _, ⟨marker, hfind, hcut⟩, rfl, rfl⟩
    obtain ⟨hvalue, hne, hhead, hm⟩ := splitAtMarker_eq_some_iff.1 hcut
    refine ⟨?_, by simpa using hne, marker, hfind, by simpa using hhead, by simpa using hm⟩
    rw [← String.ofList_append, ← hvalue, String.ofList_toList]
  · rintro ⟨rfl, hne, marker, hfind, hhead, hm⟩
    refine ⟨_, _, ⟨marker, hfind, splitAtMarker_eq_some_iff.2 ⟨String.toList_append, ?_, hhead, hm⟩⟩,
      String.ofList_toList, String.ofList_toList⟩
    simpa using hne

theorem isSome_splitValue : (r.splitValue value).isSome = true ↔
    ∃ marker ∈ r.markers, marker ∈ value.toList.tail := by
  simp [splitValue, List.findSome?_isSome_iff, isSome_splitAtMarker]

/-! ## Cutting one of the key values -/

/-- The first place of an attribute among key attributes. -/
def IsSlot (attrs : List String) (attr : String) (slot : Nat) : Prop :=
  attrs[slot]? = some attr ∧ attr ∉ attrs.take slot

theorem findIdx?_eq_some_iff_isSlot {attr : String} :
    attrs.findIdx? (· == attr) = some slot ↔ IsSlot attrs attr slot := by
  rw [List.findIdx?_eq_some_iff_getElem, IsSlot]
  constructor
  · rintro ⟨hlt, hattr, hearlier⟩
    refine ⟨List.getElem?_eq_some_iff.2 ⟨hlt, by simpa using hattr⟩, fun hm => ?_⟩
    obtain ⟨j, hj, he⟩ := List.mem_take_iff_getElem.1 hm
    exact hearlier j (by omega) (by simpa using he)
  · rintro ⟨hattr, hearlier⟩
    obtain ⟨hlt, rfl⟩ := List.getElem?_eq_some_iff.1 hattr
    refine ⟨hlt, by simp, fun j hj he => hearlier ?_⟩
    exact List.mem_take_iff_getElem.2 ⟨j, by omega, by simpa using he⟩

theorem split_eq_bind (r : SuffixRule) (attrs : List String) (values : List (Option String)) :
    r.split attrs values =
      (attrs.findIdx? (· == r.attr)).bind fun slot =>
        values[slot]?.join.bind fun value =>
          (r.splitValue value).map fun cut => (cut.2, values.set slot (some cut.1)) := by
  unfold split
  cases attrs.findIdx? (· == r.attr) with
  | none => rfl
  | some slot =>
    simp only [Option.bind_some]
    rcases values[slot]? with _ | _ | value <;> rfl

/-- Key values that are `standard` ones but for a suffix in the slot of the rule's attribute.
The suffix starts with the first of the markers that the value has after its first
character, and the stem in front of it has that marker nowhere but perhaps at its start. -/
structure ExtendsAt (r : SuffixRule) (attrs : List String) (values standard : List (Option String))
    (suffix : String) (slot : Nat) (stem : String) (marker : Char) : Prop where
  is_slot : IsSlot attrs r.attr slot
  value : values[slot]? = some (some (stem ++ suffix))
  length : standard.length = values.length
  standard_slot : standard[slot]? = some (some stem)
  others : ∀ j, j ≠ slot → standard[j]? = values[j]?
  stem_ne : stem ≠ ""
  counts : r.markers.find? (· ∈ (stem ++ suffix).toList.tail) = some marker
  starts : suffix.toList.head? = some marker
  only : marker ∉ stem.toList.tail

/-- Key values that extend `standard` ones by a marked suffix. -/
def Extends (r : SuffixRule) (attrs : List String) (values standard : List (Option String))
    (suffix : String) : Prop :=
  ∃ slot stem marker, r.ExtendsAt attrs values standard suffix slot stem marker

/-- A list that differs from another in one slot at most is the other with that slot set. -/
theorem eq_set_iff {x : Option String} (hlt : slot < values.length) :
    standard = values.set slot x ↔ standard.length = values.length ∧ standard[slot]? = some x ∧
      ∀ j, j ≠ slot → standard[j]? = values[j]? := by
  constructor
  · rintro rfl
    refine ⟨List.length_set, by simp [hlt], fun j hj => ?_⟩
    rw [List.getElem?_set_ne hj.symm]
  · rintro ⟨-, hslot, hothers⟩
    refine List.ext_getElem? fun j => ?_
    by_cases hj : j = slot
    · rw [hj, hslot, List.getElem?_set_self hlt]
    · rw [hothers j hj, List.getElem?_set_ne (Ne.symm hj)]

/-- Splitting gives the standard key values and the suffix, if there are any. -/
theorem split_eq_some_iff : r.split attrs values = some (suffix, standard) ↔
    r.Extends attrs values standard suffix := by
  simp only [split_eq_bind, Option.bind_eq_some_iff, Option.join_eq_some_iff, Option.map_eq_some_iff,
    findIdx?_eq_some_iff_isSlot, Prod.mk.injEq, Prod.exists]
  constructor
  · rintro ⟨slot, hslot, value, hvalue, stem, _, hcut, rfl, hstandard⟩
    obtain ⟨rfl, hne, marker, hcounts, hstarts, honly⟩ := splitValue_eq_some_iff.1 hcut
    obtain ⟨hlt, -⟩ := List.getElem?_eq_some_iff.1 hvalue
    obtain ⟨hlength, hat, hothers⟩ := (eq_set_iff hlt).1 hstandard.symm
    exact ⟨slot, stem, marker, hslot, hvalue, hlength, hat, hothers, hne, hcounts, hstarts, honly⟩
  · rintro ⟨slot, stem, marker, h⟩
    obtain ⟨hlt, -⟩ := List.getElem?_eq_some_iff.1 h.value
    have hcut := splitValue_eq_some_iff.2 ⟨rfl, h.stem_ne, marker, h.counts, h.starts, h.only⟩
    exact ⟨slot, h.is_slot, _, h.value, stem, suffix, hcut, rfl,
      ((eq_set_iff hlt).2 ⟨h.length, h.standard_slot, h.others⟩).symm⟩

theorem isSome_split : (r.split attrs values).isSome = true ↔
    ∃ slot value, IsSlot attrs r.attr slot ∧ values[slot]? = some (some value) ∧
      ∃ marker ∈ r.markers, marker ∈ value.toList.tail := by
  simp only [split_eq_bind, Option.isSome_bind, Option.any_eq_true, Option.isSome_map,
    Option.join_eq_some_iff, findIdx?_eq_some_iff_isSlot, isSome_splitValue]
  constructor
  · rintro ⟨slot, hslot, value, hvalue, hmarker⟩
    exact ⟨slot, value, hslot, hvalue, hmarker⟩
  · rintro ⟨slot, value, hslot, hvalue, hmarker⟩
    exact ⟨slot, hslot, value, hvalue, hmarker⟩

end SuffixRule

/-! ## Merging with a standard element -/

namespace Inventory
variable {schema : KeySchema} {i : Inventory} {e : Element}

/-- The counterpart of an element has its own key and no suffix, or a key that its own
extends by the suffix. -/
theorem counterpartOf_eq_some_iff {current : Handle} {suffix : String} :
    i.counterpartOf e = some (current, suffix) ↔
      i.servedWith (i.schema.keyOf e) = some current ∧ suffix = "" ∨
      i.servedWith (i.schema.keyOf e) = none ∧ ∃ standard,
        i.suffixRule.Extends (i.schema.attrsFor e.name) (i.schema.valuesOf e) standard suffix ∧
          i.servedWith (.of e.name standard .main) = some current := by
  rw [counterpartOf]
  cases i.servedWith (i.schema.keyOf e) with
  | some own =>
    simp only [Option.map_some, Option.some_or, Option.some.injEq, Prod.mk.injEq, reduceCtorEq,
      false_and, or_false]
    exact and_congr_right' eq_comm
  | none =>
    simp only [Option.map_none, Option.none_or, true_and, reduceCtorEq, false_and, false_or,
      Option.bind_eq_some_iff, Option.map_eq_some_iff, Prod.exists, Prod.mk.injEq,
      SuffixRule.split_eq_some_iff]
    constructor
    · rintro ⟨_, standard, hextends, _, hserved, rfl, rfl⟩
      exact ⟨standard, hextends, hserved⟩
    · rintro ⟨standard, hextends, hserved⟩
      exact ⟨suffix, standard, hextends, current, hserved, rfl, rfl⟩

end Inventory

/-- Splitting key values is exact. It gives the suffix and the standard key values that they
extend, and nothing if there are none, which is if the attribute has no value in its first
slot or none of the markers after the first character. So an outdated element is dropped, or
merged once: with the served element of its key and no suffix, or with one of a standard
key that its own extends by the suffix. The holdings are any that events lead to. -/
theorem SuffixRule.split_exact (attr : String) :
    (∀ attrs values suffix standard,
      (ofAttr attr).split attrs values = some (suffix, standard) ↔
        (ofAttr attr).Extends attrs values standard suffix) ∧
    (∀ attrs values, ((ofAttr attr).split attrs values).isSome = true ↔
      ∃ slot value, IsSlot attrs attr slot ∧ values[slot]? = some (some value) ∧
        ∃ marker ∈ usualMarkers, marker ∈ value.toList.tail) ∧
    ∀ (schema : KeySchema) (i : Inventory) (e : Element),
      Leads i.conventions.groupingElement (fun _ _ => True) (.empty schema) i.holdings →
      i.suffixRule = ofAttr attr → e.name ≠ i.conventions.groupingElement →
      (∀ merger expected isUser,
        (i.mergeOutdated merger expected isUser e).1.map Verdict.fate = .ok .dropped) ∨
      ∃ current suffix,
        (i.servedWith (i.schema.keyOf e) = some current ∧ suffix = "" ∨
          i.servedWith (i.schema.keyOf e) = none ∧ ∃ standard,
            (ofAttr attr).Extends (i.schema.attrsFor e.name) (i.schema.valuesOf e) standard suffix ∧
              i.servedWith (.of e.name standard .main) = some current) ∧
        ∀ merger expected isUser,
          (i.mergeOutdated merger expected isUser e).1.map Verdict.fate =
            (merger current.element e i.elements suffix).map fun upgraded =>
              .merged (if isUser then upgraded.setAttr Element.versionAttr (toString expected)
                else upgraded) := by
  refine ⟨fun _ _ _ _ => split_eq_some_iff, fun _ _ => isSome_split, fun schema i e hl hr hn => ?_⟩
  have hq : Inventory.Consulted schema i i := ⟨rfl, rfl, rfl, rfl, fun _ => rfl, hl⟩
  have hmerge := fun merger expected isUser => (hq.mergeOutdated hn merger expected isUser).1
  cases hc : i.counterpartOf e with
  | none =>
    simp only [hc] at hmerge
    exact .inl hmerge
  | some counterpart =>
    obtain ⟨current, suffix⟩ := counterpart
    simp only [hc] at hmerge
    refine .inr ⟨current, suffix, ?_, hmerge⟩
    rw [← hr]
    exact Inventory.counterpartOf_eq_some_iff.1 hc

/-- Of the two markers in `new-part%1_a` the percent sign comes first in the order. A part
with the key `normal%1` is merged with the loaded part `normal`, and told the suffix. -/
theorem SuffixRule.split_exact_parts :
    (ofAttr "id").split ["id"] [some "new-part%1_a"] = some ("%1_a", [some "new-part"]) ∧
    (ofAttr "id").split ["id"] [some "%part"] = none ∧
    ∃ current : Handle, current.element = .part [("id", "normal")] ∧ ∀ merger expected isUser,
      (Inventory.ofCopiedParts.mergeOutdated merger expected isUser
          (.part [("id", "normal%1")])).1.map Verdict.fate =
        (merger current.element (.part [("id", "normal%1")]) Inventory.ofCopiedParts.elements
          "%1").map fun upgraded =>
            .merged (if isUser then upgraded.setAttr Element.versionAttr (toString expected)
              else upgraded) := by
  obtain ⟨hsplit, hsome, hmerge⟩ := split_exact "id"
  refine ⟨(hsplit _ _ _ _).2 ⟨0, "new-part", '%', ?_⟩, ?_, ?_⟩
  · refine ⟨⟨rfl, by simp⟩, rfl, rfl, rfl, fun j hj => ?_, by decide, by decide, by decide, by decide⟩
    obtain ⟨j, rfl⟩ := Nat.exists_eq_succ_of_ne_zero hj
    rfl
  · rw [← Option.not_isSome_iff_eq_none, hsome]
    rintro ⟨_ | slot, value, -, hvalue, hmarker⟩
    · cases hvalue
      simp [usualMarkers, layoutCopyMarker, nodeCopyMarker] at hmarker
    · cases hvalue
  · obtain hdropped | ⟨current, suffix, hown | ⟨-, standard, hextends, hserved⟩, hmerged⟩ :=
      hmerge .parts Inventory.ofCopiedParts (.part [("id", "normal%1")])
        Inventory.leads_ofCopiedParts rfl (by decide)
    · cases hdropped .overlay 25 true
    · cases hown.1
    · cases (hsplit _ _ _ _).2 hextends
      cases hserved
      exact ⟨_, rfl, hmerged⟩

end TemplateInventory
