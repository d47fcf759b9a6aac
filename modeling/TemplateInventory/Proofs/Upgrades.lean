import TemplateInventory.Proofs.Selections
import TemplateInventory.Proofs.Versions
/-!
# Upgrades that are written back

A file in which outdated elements were brought up to date is written with its
survivors, so that the next load finds them current. They come to stand in one
wrapper, and the first of them with a version gives it to those that have none. So
the file passes through the next time exactly if that version is the expected one, or
none of the survivors asks for it (`upgraded_passes_through`).

A file with one wrapper does so where there is a version (`leadingVersion_of_one`). In
several wrappers a derived element of an old version may come before elements that
have the expected one from their own wrapper.
-/

namespace TemplateInventory

open Inventory

/-! ## Survivors -/

/-- The version that elements of one wrapper have that have none themselves. -/
def leadingVersion (es : List Element) : Except InventoryError Int :=
  match es.find? (·.hasAttr Element.versionAttr) with
  | some e => e.version 0
  | none => .ok 0

/-- Whether an element has the expected version, no version that counts, or a base. -/
def IsSettled (expected : Int) (e : Element) : Prop :=
  ∃ v, e.version 0 = .ok v ∧ (v = expected ∨ v = 0 ∨ e.base.isSome = true)

section
variable {i i' j : Inventory} {all selected : List Selected} {expected : Int} {r : Reconciled}
  {verdict : Verdict} {s t : Selected} {d : Element} {es : List Element} {e : Element} {n : Nat}

/-- What survives as user data was current, or is given the expected version. -/
theorem Inventory.Becomes.current_or_versioned (h : Becomes i all expected true s verdict)
    (hbounds : Text.least32 ≤ expected ∧ expected ≤ Text.greatest32) {x : Handle}
    (hx : x ∈ verdict.handles) :
    (x.element = s.element ∧ IsCurrent all expected true s) ∨ x.element.version 0 = .ok expected := by
  cases h with
  | dropped => cases hx
  | kept hs =>
    obtain rfl := List.mem_singleton.1 hx
    exact .inl ⟨rfl, hs⟩
  | restamped =>
    obtain rfl := List.mem_singleton.1 hx
    exact .inr (Element.version_setAttr hbounds _ 0)
  | merged _ upgraded y hy =>
    obtain rfl := List.mem_singleton.1 hx
    exact .inr (hy ▸ Element.version_setAttr hbounds upgraded 0)

theorem IsCurrent.isSettled (h : IsCurrent all expected true s) : IsSettled expected s.element := by
  obtain ⟨v, hv, hkept⟩ := h
  obtain ⟨own, hown⟩ := isVersioned_of_effectiveVersion hv
  by_cases hzero : own = 0
  · exact ⟨own, hown, .inr (.inl hzero)⟩
  · cases (effectiveVersion_own hown hzero).symm.trans hv
    exact ⟨v, hown, hkept.imp_right .inr⟩

theorem survivor_of_reconcile (hr : i.reconcile selected expected true = (.ok r, i'))
    (hbounds : Text.least32 ≤ expected ∧ expected ≤ Text.greatest32) {x : Handle}
    (hx : x ∈ r.survivors) :
    (∃ s ∈ selected, x.element = s.element ∧ IsCurrent selected expected true s) ∨
      x.element.version 0 = .ok expected := by
  obtain ⟨-, -, -, more, hmore, -, hfrom⟩ :=
    judgeAll_ok (P := fun _ => True) (fun _ _ _ => trivial) trivial hr
  obtain ⟨s, hs, j, verdict, -, hbecomes, hx⟩ := hfrom x (by simpa [hmore] using hx)
  exact (hbecomes.current_or_versioned hbounds hx).imp_left fun h =>
    ⟨s, mem_of_mem_firstOfEachForm hs, h⟩

theorem isSettled_of_reconcile (hr : i.reconcile selected expected true = (.ok r, i'))
    (hbounds : Text.least32 ≤ expected ∧ expected ≤ Text.greatest32) :
    ∀ e ∈ r.survivors.map Handle.element, IsSettled expected e := by
  intro e he
  obtain ⟨x, hx, rfl⟩ := List.mem_map.1 he
  rcases survivor_of_reconcile hr hbounds hx with ⟨s, -, hsame, hs⟩ | hv
  · rw [hsame]
    exact hs.isSettled
  · exact ⟨expected, hv, .inl rfl⟩

/-! ## The next time -/

theorem firstVersioned_map (es : List Element) (n : Nat) : firstVersioned (es.map (⟨n, ·⟩)) n =
    (es.find? (·.hasAttr Element.versionAttr)).map (⟨n, ·⟩) := by
  rw [firstVersioned, List.find?_map]
  congr 2
  funext e
  simp

/-- In one wrapper an element with no version that counts has the leading one. -/
theorem effectiveVersion_map {v : Int} (hv : e.version 0 = .ok v) :
    effectiveVersion (es.map (⟨n, ·⟩)) expected true ⟨n, e⟩ =
      if v = 0 then leadingVersion es else .ok v := by
  split
  · next hzero =>
    rw [effectiveVersion_borrowed (hzero ▸ hv), firstVersioned_map, leadingVersion]
    cases es.find? (·.hasAttr Element.versionAttr) <;> rfl
  · next hne => exact effectiveVersion_own hv hne

theorem exists_leadingVersion (h : ∀ e ∈ es, IsSettled expected e) :
    ∃ v, leadingVersion es = .ok v := by
  unfold leadingVersion
  split
  · next e he =>
    obtain ⟨v, hv, -⟩ := h e (List.mem_of_find?_eq_some he)
    exact ⟨v, hv⟩
  · exact ⟨0, rfl⟩

/-- A settled element is current unless it asks for the leading version, and that is
another than the expected one. -/
theorem isCurrent_map_iff (h : ∀ e ∈ es, IsSettled expected e) (he : e ∈ es) :
    IsCurrent (es.map (⟨n, ·⟩)) expected true ⟨n, e⟩ ↔
      (e.base = none → e.version 0 = .ok 0 → leadingVersion es = .ok expected) := by
  obtain ⟨v, hv, hsettled⟩ := h e he
  obtain ⟨leading, hleading⟩ := exists_leadingVersion h
  unfold IsCurrent
  rw [effectiveVersion_map hv, hv]
  by_cases hzero : v = 0
  · cases e.base <;> simp [hzero, hleading]
  · have hkept : v = expected ∨ e.base.isSome = true := hsettled.imp_right (·.resolve_left hzero)
    simp [hzero, hkept]

/-! ## One wrapper -/

/-- Elements that are written alike have the same attributes. -/
theorem attributes_of_compact {e e' : Element} (he : e.Everywhere Xml.Named)
    (he' : e'.Everywhere Xml.Named) (h : Xml.compact e = Xml.compact e') :
    e.attributes = e'.attributes := by
  have htidy := Xml.tidy_of_compact he he' h
  cases e
  cases e'
  exact (Element.mk.inj htidy).2.1

/-- Current elements at the start survive as they are, before all others. -/
theorem survivors_of_current {current rest : List Selected}
    (hforms : firstOfEachForm [] selected = current ++ rest)
    (hcurrent : ∀ s ∈ current, IsCurrent selected expected true s)
    (hr : i.reconcile selected expected true = (.ok r, i')) :
    ∃ more, r.survivors.map Handle.element = current.map Selected.element ++ more := by
  unfold reconcile at hr
  rw [hforms] at hr
  obtain ⟨r₁, i₁, hfirst, hrest⟩ := judgeAll_append_ok hr
  obtain ⟨handles, m, hfirst', helements⟩ := judgeAll_current (i := i) (r := ⟨[], false⟩) hcurrent
  cases hfirst.symm.trans hfirst'
  obtain ⟨-, -, -, more, hmore, -⟩ :=
    judgeAll_ok (P := fun _ => True) (fun _ _ _ => trivial) trivial hrest
  exact ⟨more.map Handle.element, by rw [hmore, ← helements, List.map_append]; rfl⟩

/-- Up to the first element with a version, elements of one wrapper survive if that
version is the expected one. -/
theorem leadingVersion_of_first (hnamed : ∀ s ∈ selected, s.element.Everywhere Xml.Named)
    (hone : ∀ s ∈ selected, s.wrapper = n) (ht : firstVersioned selected n = some t)
    (hv : t.element.version 0 = .ok expected) (hne : expected ≠ 0)
    (hr : i.reconcile selected expected true = (.ok r, i')) :
    leadingVersion (r.survivors.map Handle.element) = .ok expected := by
  obtain ⟨hmem, hwrapper, hattr⟩ := firstVersioned_some ht
  obtain ⟨before, after, rfl, hbefore⟩ := (List.find?_eq_some_iff_append.1 ht).2
  have hplain : ∀ s ∈ before, s.element.hasAttr Element.versionAttr = false := fun s hs => by
    simpa [hone s (List.mem_append_left _ hs)] using hbefore s hs
  -- The first one with a version is not written like one without.
  obtain ⟨seen, hseen, hforms⟩ := firstOfEachForm_append [] before (t :: after)
  have hfresh : Xml.compact t.element ∉ seen := by
    rw [hseen]
    rintro (h | ⟨s, hs, hform⟩)
    · cases h
    · have hsame := attributes_of_compact (hnamed s (List.mem_append_left _ hs)) (hnamed t hmem) hform
      have hnone := hplain s hs
      rw [Element.hasAttr, hsame] at hnone
      exact absurd (hnone.symm.trans hattr) (by decide)
  have hsplit : firstOfEachForm [] (before ++ t :: after) = (firstOfEachForm [] before ++ [t]) ++
      firstOfEachForm (Xml.compact t.element :: seen) after := by
    rw [hforms, firstOfEachForm, List.append_assoc]
    simp only [if_neg hfresh, List.singleton_append]
  have hcurrent : ∀ s ∈ firstOfEachForm [] before ++ [t],
      IsCurrent (before ++ t :: after) expected true s := by
    intro s hs
    refine ⟨expected, ?_, .inl rfl⟩
    rcases List.mem_append.1 hs with hs | hs
    · have hs := mem_of_mem_firstOfEachForm hs
      rw [effectiveVersion_borrowed (Element.version_of_not_hasAttr (hplain s hs) 0),
        hone s (List.mem_append_left _ hs), ht]
      exact hv
    · rw [List.mem_singleton.1 hs]
      exact effectiveVersion_own hv hne
  obtain ⟨more, hmore⟩ := survivors_of_current hsplit hcurrent hr
  have hfind : (r.survivors.map Handle.element).find? (·.hasAttr Element.versionAttr) =
      some t.element := by
    rw [hmore, List.map_append, List.append_assoc]
    refine List.find?_eq_some_iff_append.2 ⟨hattr, _, _, rfl, fun e he => ?_⟩
    obtain ⟨s, hs, rfl⟩ := List.mem_map.1 he
    simp [hplain s (mem_of_mem_firstOfEachForm hs)]
  rw [leadingVersion, hfind]
  exact hv

/-- So if there is a version, what asks for the leading one in a document with one
wrapper gets the expected one. -/
theorem leadingVersion_of_one (hnamed : ∀ s ∈ selected, s.element.Everywhere Xml.Named)
    (hone : ∀ s ∈ selected, ∀ t ∈ selected, t.wrapper = s.wrapper) (hne : expected ≠ 0)
    (hr : i.reconcile selected expected true = (.ok r, i'))
    (hbounds : Text.least32 ≤ expected ∧ expected ≤ Text.greatest32)
    (he : e ∈ r.survivors.map Handle.element) (hb : e.base = none) (hv : e.version 0 = .ok 0) :
    leadingVersion (r.survivors.map Handle.element) = .ok expected := by
  obtain ⟨x, hx, rfl⟩ := List.mem_map.1 he
  rcases survivor_of_reconcile hr hbounds hx with ⟨s, hs, hsame, v, heffective, hkept⟩ | hv'
  · rw [hsame] at hb hv
    obtain rfl : v = expected := hkept.resolve_right (by rw [hb]; nofun)
    rw [effectiveVersion_borrowed hv] at heffective
    cases hfirst : firstVersioned selected s.wrapper with
    | none =>
      rw [hfirst] at heffective
      cases heffective
      exact absurd rfl hne
    | some t =>
      rw [hfirst] at heffective
      exact leadingVersion_of_first hnamed (hone s hs) hfirst heffective hne hr
  · cases hv.symm.trans hv'
    exact absurd rfl hne

end

/-- Let outdated elements of a user document be brought up to date and the survivors be
written in their place. Then they are selected in what was written, and pass through the
next time, whatever inventory loads and merges them, exactly if the first version among
them is the expected one, or none of them asks for it, having neither a base nor a
version that counts. That is so if there is a version to expect and the document has one
wrapper. -/
theorem upgraded_passes_through {i i' : Inventory} {d : Element} {expected : Int} {r : Reconciled}
    (hbounds : Text.least32 ≤ expected ∧ expected ≤ Text.greatest32)
    (hr : i.reconcile (i.selection.select d) expected true = (.ok r, i'))
    (hchanged : r.changed = true) :
    let es := r.survivors.map Handle.element
    ∃ d', i.selection.replace es d = (true, d') ∧
      (i.selection.select d').map Selected.element = es ∧
      (∀ j : Inventory, j.PassesThrough (i.selection.select d') expected true ↔
        ∀ s ∈ firstOfEachForm [] (i.selection.select d'),
          s.element.base = none → s.element.version 0 = .ok 0 → leadingVersion es = .ok expected) ∧
      (expected ≠ 0 → (∀ s ∈ i.selection.select d, s.element.Everywhere Xml.Named) →
        (∀ s ∈ i.selection.select d, ∀ t ∈ i.selection.select d, t.wrapper = s.wrapper) →
        ∀ j : Inventory, j.PassesThrough (i.selection.select d') expected true) := by
  have hselected : i.selection.select d ≠ [] := fun h => by
    rw [h] at hr
    cases hr
    cases hchanged
  obtain ⟨d', n, hreplace, hselect⟩ :=
    Selection.select_replace (r.survivors.map Handle.element) hselected
  have hsettled := isSettled_of_reconcile hr hbounds
  have helement : ∀ s ∈ firstOfEachForm [] ((r.survivors.map Handle.element).map (Selected.mk n)),
      ∃ e ∈ r.survivors.map Handle.element, s = ⟨n, e⟩ := by
    intro s hs
    obtain ⟨e, he, rfl⟩ := List.mem_map.1 (mem_of_mem_firstOfEachForm hs)
    exact ⟨e, he, rfl⟩
  have hiff : ∀ j : Inventory, j.PassesThrough (i.selection.select d') expected true ↔
      ∀ s ∈ firstOfEachForm [] (i.selection.select d'), s.element.base = none →
        s.element.version 0 = .ok 0 →
        leadingVersion (r.survivors.map Handle.element) = .ok expected := by
    intro j
    rw [passesThrough_iff, hselect]
    refine forall₂_congr fun s hs => ?_
    obtain ⟨e, he, rfl⟩ := helement s hs
    exact isCurrent_map_iff hsettled he
  refine ⟨d', hreplace, by simp [hselect, Function.comp_def], hiff, fun hne hnamed hone j => ?_⟩
  refine (hiff j).2 fun s hs hb hv => ?_
  rw [hselect] at hs
  obtain ⟨e, he, rfl⟩ := helement s hs
  exact leadingVersion_of_one hnamed hone hne hr hbounds he hb hv

/-! ## Documents that are upgraded once, and others -/

/-- An inventory of some version that has one part loaded and sets outdated parts over
current ones. -/
def Inventory.ofNormalPart (version : Int) : Inventory :=
  let i :=
    { (Workspace.blank .parts).inventory with
      selection := ⟨"Inventory", ["parts"]⟩
      version := version
      merger := some .overlay }
  ((i.mint (.part [("id", "normal")])).2.add (.fresh 0 (.part [("id", "normal")]))).2

/-- A document of parts in several wrappers. -/
def partsIn (wrappers : List (List Element)) : Element :=
  ⟨"Inventory", .empty, wrappers.map fun parts => ⟨"parts", .empty, parts, none⟩, none⟩

/-- An outdated part, and one that is derived and as old. -/
def oldNormalPart : Element := .part [("id", "normal"), ("version", "3")]

def oldShortPart : Element := .part [("id", "short"), ("base", "normal"), ("version", "3")]

/-- An outdated part alone. -/
def oneWrapper : Element := partsIn [[oldNormalPart]]

/-- A part that has its version from its neighbour, between an old derived one and an
outdated one. -/
def threeWrappers : Element :=
  partsIn [[oldShortPart], [.part [("id", "long"), ("version", "25")], .part [("id", "wide")]],
    [oldNormalPart]]

/-- An outdated part after an old derived one. -/
def twoOldParts : Element := partsIn [[oldShortPart, oldNormalPart]]

/-- What becomes of a user document. -/
def Inventory.upgrade (i : Inventory) (d : Element) : Except InventoryError Reconciled × Inventory :=
  i.reconcile (i.selection.select d) i.version true

/-- The document with what it has become. -/
def Inventory.upgraded (i : Inventory) (d : Element) : Element :=
  match (i.upgrade d).1 with
  | .ok r => (i.selection.replace (r.survivors.map Handle.element) d).2
  | .error _ => d

/-- How many survive, and whether any is not as it was. -/
def Inventory.upgradeCount (i : Inventory) (d : Element) : Option (Nat × Bool) :=
  (i.upgrade d).1.toOption.map fun r => (r.survivors.length, r.changed)

/-- Whether a user document that was brought up to date and written passes through the
next time. -/
def Inventory.UpgradesOnce (i : Inventory) (d : Element) : Prop :=
  ∀ r i' d', i.upgrade d = (.ok r, i') → r.changed = true →
    i.selection.replace (r.survivors.map Handle.element) d = (true, d') →
    i'.PassesThrough (i'.selection.select d') i'.version true

theorem Inventory.UpgradesOnce.count {i : Inventory} {d : Element} {n : Nat} (h : i.UpgradesOnce d)
    (hcount : i.upgradeCount d = some (n, true)) :
    (i.upgrade d).2.upgradeCount (i.upgraded d) = some ((firstOfEachForm []
      ((i.upgrade d).2.selection.select (i.upgraded d))).length, false) := by
  rcases hr : i.upgrade d with ⟨_ | r, i'⟩
  · rw [upgradeCount, hr] at hcount
    cases hcount
  · rw [upgradeCount, hr] at hcount
    obtain ⟨-, hchanged⟩ := Prod.mk.inj (Option.some.inj hcount)
    have hselected : i.selection.select d ≠ [] := fun hnone => by
      rw [upgrade, hnone] at hr
      cases hr
      cases hchanged
    obtain ⟨d', n, hreplace, -⟩ :=
      Selection.select_replace (r.survivors.map Handle.element) hselected
    obtain ⟨handles, m, hpass, helements⟩ := h r i' d' hr hchanged hreplace
    have hupgraded : i.upgraded d = d' := by
      rw [upgraded, hr]
      exact congrArg Prod.snd hreplace
    have hlength : handles.length = (firstOfEachForm [] (i'.selection.select d')).length := by
      simpa using congrArg List.length helements
    rw [hupgraded, upgradeCount, upgrade, hpass, ← hlength]
    rfl

theorem counts_of_upgrades :
    let i := Inventory.ofNormalPart 25
    let j := Inventory.ofNormalPart 0
    i.upgradeCount oneWrapper = some (1, true) ∧
      (i.upgradeCount threeWrappers = some (4, true) ∧
        (i.upgrade threeWrappers).2.upgradeCount (i.upgraded threeWrappers) = some (3, false) ∧
        (firstOfEachForm [] ((i.upgrade threeWrappers).2.selection.select
          (i.upgraded threeWrappers))).length = 4) ∧
      j.upgradeCount twoOldParts = some (2, true) ∧
      (j.upgrade twoOldParts).2.upgradeCount (j.upgraded twoOldParts) = some (2, true) := by
  decide

/-- In a document with one wrapper an upgraded part passes through. -/
theorem upgraded_passes_through_oneWrapper :
    ∃ r i' d', (Inventory.ofNormalPart 25).upgrade oneWrapper = (.ok r, i') ∧ r.changed = true ∧
      (Inventory.ofNormalPart 25).selection.replace (r.survivors.map Handle.element) oneWrapper =
        (true, d') ∧
      i'.PassesThrough ((Inventory.ofNormalPart 25).selection.select d') 25 true := by
  have hcount := counts_of_upgrades.1
  rcases hr : (Inventory.ofNormalPart 25).upgrade oneWrapper with ⟨_ | r, i'⟩
  · rw [upgradeCount, hr] at hcount
    cases hcount
  · rw [upgradeCount, hr] at hcount
    obtain ⟨-, hchanged⟩ := Prod.mk.inj (Option.some.inj hcount)
    obtain ⟨d', hreplace, -, -, hpasses⟩ := upgraded_passes_through (by decide) hr hchanged
    refine ⟨r, i', d', rfl, hchanged, hreplace, hpasses (by decide) (fun s hs => ?_) (by decide) i'⟩
    obtain rfl := List.mem_singleton.1 hs
    exact (Element.isPrintable_iff.1 (by decide)).1

/-- The survivors of several wrappers have the version of the first of them, which is an
old one. So one of them is dropped, and without a version one is merged again. -/
theorem upgrades_repeated :
    ¬ (Inventory.ofNormalPart 25).UpgradesOnce threeWrappers ∧
      ¬ (Inventory.ofNormalPart 0).UpgradesOnce twoOldParts := by
  obtain ⟨-, ⟨hthree, hagain, hselected⟩, htwo, htwice⟩ := counts_of_upgrades
  refine ⟨fun h => ?_, fun h => ?_⟩
  · have hcount := h.count hthree
    rw [hagain, hselected] at hcount
    cases hcount
  · have hcount := h.count htwo
    rw [htwice] at hcount
    cases hcount

end TemplateInventory
