import TemplateInventory.Proofs.Reachable
/-!
# Elements that are based on their own key

An element whose `base` leads to its own key is meant to be unified with the
element that it takes the place of. Whether it is an override is decided by its
texts: with `base` spelled as the identity it is, and what it took the place of is
kept as its base. Keys however do not tell upper from lower case, so a `base` that
is spelled in another case leads to the same key and yet makes an alteration. That
displaces the element of its key and then has no base but itself
(`own_key_answers`).
-/

namespace TemplateInventory

namespace Holdings

section
variable {h : Holdings} {s : StoreId} {k : ElementKey} {name base : String}
  {values values' : List (Option String)} {x extant node : Handle}

/-! ## Answers from memory -/

theorem findIn_of_miss (hm : h.cache.get (.of name values s) = .miss) :
    h.findIn s name values = (none, h.countHit) := by
  simp [findIn, hm]

theorem findIn_of_found (hx : h.cache.get (.of name values s) = .found x) :
    h.findIn s name values = (some x, h.countHit) := by
  simp [findIn, hx]

theorem resolve_of_found (hx : h.cache.get (.of name values .main) = .found x)
    (r : List ElementKey) : (h.resolve r name values).1 = some x := by
  have hfind : (h.findIn .main name values).1 = some x := by rw [findIn_of_found hx]
  rw [resolve_found hfind]

/-- An alteration that leads back to its own key has no base there. -/
theorem resolve_own_key (hm : h.cache.get (.of name values .main) = .miss)
    (ha : h.cache.get (.of name values .alterations) = .found x)
    (hb : x.element.base.bind (baseValues values) = some values')
    (hk : ElementKey.of name values' .main = .of name values .main) :
    (h.resolve [] name values).1 = some x := by
  have hmain : (h.findIn .main name values).1 = none := by rw [findIn_of_miss hm]
  have halt : ((h.findIn .main name values).2.findIn .alterations name values).1 = some x := by
    rw [findIn_of_miss hm, findIn_of_found (h := h.countHit) ha]
  have hafter : h.afterFind name values = h.countHit.countHit := by
    rw [afterFind, findIn_of_miss hm, findIn_of_found (h := h.countHit) ha]
  have hinner : ((h.afterFind name values).findIn .main name values').1 = none := by
    rw [hafter, findIn_of_miss (h := h.countHit.countHit) (hk ▸ hm)]
  rw [resolve_based hmain (by simp) halt hb, resolve_open hinner (by simp [hk])]
  rfl

@[simp] theorem schema_countHit (h : Holdings) : h.countHit.schema = h.schema := rfl

theorem getBase_of_found
    (ha : h.cache.get (.of name (h.schema.fit name values) .alterations) = .found x)
    (hb : x.element.base = some base)
    (hv : baseValues (h.schema.fit name values) base = some values') :
    (h.getBase name values).1 =
      if (h.schema.identityAttr name).bind x.element.attr = some base then
        (h.countHit.findIn .bases name values').1
      else (h.countHit.resolve [] name values').1 := by
  simp only [getBase, findIn_of_found ha, hb, hv, schema_countHit]
  exact apply_ite Prod.fst ..

/-! ## What is remembered after an add -/

@[simp] theorem store_inStore (k : ElementKey) (s : StoreId) : (k.inStore s).store = s := rfl

theorem store_keyOf_ne (s : KeySchema) (e : Element) : (s.keyOf e).store ≠ .alterations := by
  simp [KeySchema.keyOf, ElementKey.of]

theorem get_addAlteration_self (h : Holdings) (k : ElementKey) (node : Handle) :
    (h.addAlteration k node).cache.get (k.inStore .alterations) = .found node := by
  rw [addAlteration, get_remember, if_pos rfl]

theorem get_addAlteration (h : Holdings) {k k' : ElementKey} (node : Handle)
    (hs : k'.store ≠ .alterations) : (h.addAlteration k node).cache.get k' = h.cache.get k' := by
  rw [addAlteration, get_remember, if_neg]
  rintro rfl
  exact hs rfl

theorem get_displace (hx : h.remembered k = some x) : (h.displace k).cache.get k = .miss := by
  rw [displace, hx]
  simp only
  rw [get_remember, if_pos rfl]

theorem get_applyOverride_main (h : Holdings) (k : ElementKey) (node x : Handle) :
    (h.applyOverride k node x).cache.get k =
      .found (Handle.unify h.schema h.nextSerial node x) := by
  rw [applyOverride, get_remember, if_pos rfl]

theorem get_applyOverride_bases (h : Holdings) (node x : Handle) (hs : k.store = .main) :
    (h.applyOverride k node x).cache.get (k.inStore .bases) = .found x := by
  have hne : k ≠ k.inStore .bases := by
    intro he
    have hst := congrArg ElementKey.store he
    rw [hs] at hst
    cases hst
  rw [applyOverride, get_remember, if_neg hne]
  exact (get_remember _ _ _ _).trans (if_pos rfl)

/-! ## Adding over the own key -/

/-- The values of a lookup whose `base` leads back to them. -/
theorem exists_baseValues {K : ElementKey} (hv : ElementKey.of name values .main = K)
    (hk : K.based base = some K) :
    ∃ values', baseValues values base = some values' ∧ ElementKey.of name values' .main = K := by
  subst hv
  exact Option.map_eq_some_iff.1 ((map_baseValues name values base .main).trans hk)

/-- After an override both elements of the key are served. -/
theorem override_answers {h' : Holdings} (extant : Handle) (hb : node.element.base = some base)
    (hk : (h.schema.keyOf node.element).based base = some (h.schema.keyOf node.element))
    (hv : .of node.element.name (h.schema.fit node.element.name values) .main =
      h.schema.keyOf node.element)
    (hid : h.schema.identityOf node.element = some base)
    (he : h' = (h.applyOverride (h.schema.keyOf node.element) node extant).addAlteration
      (h.schema.keyOf node.element) node) :
    (h'.getBase node.element.name values).1 = some extant ∧
      (h'.getElement node.element.name values).1 =
        some (Handle.unify h.schema h.nextSerial node extant) := by
  have hs : h'.schema = h.schema := by rw [he]; rfl
  obtain ⟨values', hbv, hkey⟩ := exists_baseValues hv hk
  have halt : h'.cache.get (.of node.element.name (h.schema.fit node.element.name values)
      .alterations) = .found node := by
    have hself := get_addAlteration_self (h.applyOverride (h.schema.keyOf node.element) node extant)
      (h.schema.keyOf node.element) node
    rw [← he, ← hv, ElementKey.inStore_of] at hself
    exact hself
  have hbase : h'.cache.get (.of node.element.name values' .bases) = .found extant := by
    have hbases := get_applyOverride_bases (k := h.schema.keyOf node.element) h node extant rfl
    rw [← get_addAlteration (k := h.schema.keyOf node.element) _ node (by simp), ← he, ← hkey,
      ElementKey.inStore_of] at hbases
    exact hbases
  have hmain : h'.cache.get (.of node.element.name (h.schema.fit node.element.name values) .main) =
      .found (Handle.unify h.schema h.nextSerial node extant) := by
    have hself := get_applyOverride_main h (h.schema.keyOf node.element) node extant
    rw [← get_addAlteration (k := h.schema.keyOf node.element) _ node (store_keyOf_ne _ _), ← he, ← hv] at hself
    exact hself
  have hown : (h.schema.identityAttr node.element.name).bind node.element.attr = some base := hid
  constructor
  · rw [getBase_of_found (hs.symm ▸ halt) hb (hs.symm ▸ hbv), hs, if_pos hown,
      findIn_of_found (h := h'.countHit) hbase]
  · rw [getElement, hs, resolve_of_found hmain]

/-- An alteration that displaced the element of its own key is all that is left
there. -/
theorem displaced_answers {h' : Holdings} (hb : node.element.base = some base)
    (hk : (h.schema.keyOf node.element).based base = some (h.schema.keyOf node.element))
    (hv : .of node.element.name (h.schema.fit node.element.name values) .main =
      h.schema.keyOf node.element)
    (hx : h.remembered (h.schema.keyOf node.element) = some extant)
    (hid : h.schema.identityOf node.element ≠ some base)
    (he : h' = (h.displace (h.schema.keyOf node.element)).addAlteration
      (h.schema.keyOf node.element) node) :
    (h'.getBase node.element.name values).1 = some node ∧
      (h'.getElement node.element.name values).1 = some node := by
  have hs : h'.schema = h.schema := by
    rw [he]
    exact schema_displace h _
  obtain ⟨values', hbv, hkey⟩ := exists_baseValues hv hk
  obtain ⟨values'', hbv', hkey'⟩ := exists_baseValues hkey hk
  have halt : ∀ vs, ElementKey.of node.element.name vs .main = h.schema.keyOf node.element →
      h'.cache.get (.of node.element.name vs .alterations) = .found node := by
    intro vs hvs
    have hself := get_addAlteration_self (h.displace (h.schema.keyOf node.element))
      (h.schema.keyOf node.element) node
    rw [← he, ← hvs, ElementKey.inStore_of] at hself
    exact hself
  have hmain : ∀ vs, ElementKey.of node.element.name vs .main = h.schema.keyOf node.element →
      h'.cache.get (.of node.element.name vs .main) = .miss := by
    intro vs hvs
    have hmiss := get_displace hx
    rw [← get_addAlteration (k := h.schema.keyOf node.element) _ node (store_keyOf_ne _ _), ← he] at hmiss
    rw [hvs]
    exact hmiss
  have hnot : (h.schema.identityAttr node.element.name).bind node.element.attr ≠ some base := hid
  constructor
  · rw [getBase_of_found (hs.symm ▸ halt _ hv) hb (hs.symm ▸ hbv), hs, if_neg hnot]
    refine resolve_own_key (h := h'.countHit) (hmain _ hkey) (halt _ hkey) ?_ (hkey'.trans hkey.symm)
    rw [hb]
    exact hbv'
  · rw [getElement, hs]
    refine resolve_own_key (hmain _ hv) (halt _ hv) ?_ (hkey.trans hv.symm)
    rw [hb]
    exact hbv

end

end Holdings

open Holdings

/-- What is served of a key after an element was added whose `base` leads to its
own key. With `base` spelled as the identity, what was served before is the base,
and the element is unified with it. In any other spelling the element itself is
both, and what was served before is lost. The values may be spelled in any way
that makes the key. -/
theorem own_key_answers {h : Holdings} (node : Handle) {extant : Handle} {base : String}
    (values values' : List (Option String)) (hb : node.element.base = some base)
    (hk : (h.schema.keyOf node.element).based base = some (h.schema.keyOf node.element))
    (hv : .of node.element.name (h.schema.fit node.element.name values) .main =
      h.schema.keyOf node.element)
    (hv' : .of node.element.name (h.schema.fit node.element.name values') .main =
      h.schema.keyOf node.element)
    (hx : (h.getElement node.element.name values).1 = some extant)
    (hok : ((h.getElement node.element.name values).2.add node).1 = .ok ()) :
    let after := ((h.getElement node.element.name values).2.add node).2
    if h.schema.identityOf node.element = some base then
      (after.getBase node.element.name values').1 = some extant ∧
        (after.getElement node.element.name values').1.map Handle.element =
          some (unify h.schema node.element extant.element)
    else
      (after.getBase node.element.name values').1 = some node ∧
        (after.getElement node.element.name values').1 = some node := by
  have hs : (h.getElement node.element.name values).2.schema = h.schema := schema_resolve _ _ _ _
  have hmem : (h.getElement node.element.name values).2.remembered (h.schema.keyOf node.element) =
      some extant := by
    rw [← hv]
    exact Coherent.remembered_resolve hx
  revert hok hmem
  generalize (h.getElement node.element.name values).2 = h₁ at hs ⊢
  rw [← hs] at hk hv' ⊢
  intro hok hmem
  revert hok
  refine add_cases (motive := fun r => r.1 = .ok () →
    let after := r.2
    if h₁.schema.identityOf node.element = some base then
      (after.getBase node.element.name values').1 = some extant ∧
        (after.getElement node.element.name values').1.map Handle.element =
          some (unify h₁.schema node.element extant.element)
    else
      (after.getBase node.element.name values').1 = some node ∧
        (after.getElement node.element.name values').1 = some node) ?plain ?refused ?unfounded
      ?override ?alteration
  case plain =>
    intro hnone
    rw [hb] at hnone
    cases hnone
  case refused => exact fun _ hok => nomatch hok
  case unfounded => exact fun _ hok => nomatch hok
  case override =>
    intro base' h₂ y hb' hid ho _ _
    -- The element of the key is remembered, so nothing is resolved for the override.
    have hover : h₁.overridden node.element.name (h₁.schema.valuesOf node.element) =
        (some extant, h₁) := by
      rw [overridden, show h₁.remembered (.of node.element.name (h₁.schema.valuesOf node.element)
        .main) = some extant from hmem]
    rw [hover] at ho
    cases ho
    rw [hb] at hb'
    cases hb'
    rw [if_pos hid]
    obtain ⟨hbase, helement⟩ := override_answers extant hb hk hv' hid rfl
    exact ⟨hbase, congrArg (Option.map Handle.element) helement⟩
  case alteration =>
    intro base' identity hb' hid hne _
    rw [hb] at hb'
    cases hb'
    have hnot : h₁.schema.identityOf node.element ≠ some base := by
      rw [hid]
      exact fun he => hne (Option.some.inj he)
    rw [if_neg hnot]
    exact displaced_answers hb hk hv' hmem hnot rfl

/-! ## A part in two spellings -/

/-- An override of the red part. -/
def largePart : Element := .part [("id", "normal"), ("size", "large"), ("base", "normal")]

/-- The same with its base in capitals. -/
def capitalPart : Element := .part [("id", "normal"), ("size", "large"), ("base", "NORMAL")]

/-- A workspace in which the red part was asked for, and another part was made. -/
def Workspace.ofRed (made : Element) : Workspace :=
  ((((Workspace.blank .parts).run (.make redPart)).run (.add (.fresh 0 redPart))).run
    (.getElement "part" [some "normal"])).run (.make made)

theorem reachable_ofRed (made : Element) : Reachable (.ofRed made) :=
  (reachable_redPart.step (r := .getElement "part" [some "normal"]) trivial).step
    (r := .make made) trivial

theorem ok_of_toBool {ε : Type} {r : Except ε Unit} (h : r.toBool = true) : r = .ok () := by
  cases r with
  | error e => cases h
  | ok u => rfl

theorem own_key_answers_largePart :
    let h := (Workspace.ofRed largePart).inventory.holdings
    let after := ((h.getElement "part" [some "Normal"]).2.add (.fresh 1 largePart)).2
    (after.getBase "part" [some "normal"]).1.map Handle.element = some redPart ∧
      (after.getElement "part" [some "normal"]).1.map Handle.element =
        some (unify .parts largePart redPart) := by
  have hred : ((Workspace.ofRed largePart).inventory.holdings.getElement "part"
      [some "Normal"]).1.map Handle.element = some redPart := by decide +kernel
  obtain ⟨extant, hx, he⟩ := Option.map_eq_some_iff.1 hred
  have hbase : largePart.base = some "normal" := by decide +kernel
  have hans := own_key_answers (.fresh 1 largePart) [some "Normal"] [some "normal"] hbase
    (by decide +kernel) (by decide +kernel) (by decide +kernel) hx (ok_of_toBool (by decide +kernel))
  rw [if_pos (by decide +kernel)] at hans
  have hs : (Workspace.ofRed largePart).inventory.holdings.schema = .parts := by decide +kernel
  rw [hs] at hans
  rw [← he]
  exact ⟨congrArg (Option.map Handle.element) hans.1, hans.2⟩

/-- Whether an element whose `base` leads to its own key is served unified with
what was served before, and that is its base. -/
def Workspace.KeepsBases (w : Workspace) : Prop :=
  ∀ (node extant : Handle) (base : String) (values : List (Option String)),
    w.Accepts (.add node) → node.element.base = some base →
    (w.inventory.schema.keyOf node.element).based base =
      some (w.inventory.schema.keyOf node.element) →
    .of node.element.name (w.inventory.schema.fit node.element.name values) .main =
      w.inventory.schema.keyOf node.element →
    (w.inventory.getElement node.element.name values).1 = some extant →
    ((w.inventory.getElement node.element.name values).2.add node).1 = .ok () →
    let after := ((w.inventory.getElement node.element.name values).2.add node).2
    (after.getBase node.element.name values).1.map Handle.element = some extant.element ∧
      (after.getElement node.element.name values).1.map Handle.element =
        some (unify w.inventory.schema node.element extant.element)

theorem accepts_capitalPart : (Workspace.ofRed capitalPart).Accepts (.add (.fresh 1 capitalPart)) := by
  have hn : ((((Workspace.blank .parts).run (.make redPart)).run (.add (.fresh 0 redPart))).run
      (.getElement "part" [some "normal"])).inventory.holdings.nextSerial = 1 := by decide +kernel
  have hmade := (reachable_redPart.step (r := .getElement "part" [some "normal"]) trivial).made
    capitalPart
  exact hn ▸ hmade

/-- A base in capitals makes its element displace what it is based on. -/
theorem capitalPart_destroys_base :
    Reachable (.ofRed capitalPart) ∧ ¬ (Workspace.ofRed capitalPart).KeepsBases := by
  refine ⟨reachable_ofRed capitalPart, fun hall => ?_⟩
  have hred : ((Workspace.ofRed capitalPart).inventory.getElement "part"
      [some "normal"]).1.map Handle.element = some redPart := by decide +kernel
  obtain ⟨extant, hx, he⟩ := Option.map_eq_some_iff.1 hred
  have hbase := (hall (.fresh 1 capitalPart) extant "NORMAL" [some "normal"] accepts_capitalPart
    (by decide +kernel) (by decide +kernel) (by decide +kernel) hx
    (ok_of_toBool (by decide +kernel))).1
  rw [he] at hbase
  revert hbase
  decide +kernel

end TemplateInventory
