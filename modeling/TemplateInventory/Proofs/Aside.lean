import TemplateInventory.Proofs.Names
/-!
# Answers for one name

What lookups of a name answer depends on the elements of that name alone: which
of them are held, and what is known about their keys, misses included. `SameAt n`
relates holdings that have the same contents there, and lookups of `n` then give
the same contents (`SameAt.getElement`, `SameAt.getAlteration`,
`SameAt.getBase`).

Lookups and adds of another name leave it so (`sameAt_resolve`, `sameAt_add`).
This holds of every name, grouping elements included, which are held without
being remembered.
-/

namespace TemplateInventory

/-- What is known about a key, by content. -/
def Lookup.content : Lookup → Option (Option Element)
  | .notQueried => none
  | .miss => some none
  | .found x => some (some x.element)

namespace Holdings

/-- What is in the elements of a name that a store holds. -/
def elementsOf (h : Holdings) (n : String) (s : StoreId) : List Element :=
  ((h.store s).handles.map Handle.element).filter (·.name = n)

/-- The same is held and known of a name. -/
structure SameAt (n : String) (h h' : Holdings) : Prop where
  schema : h'.schema = h.schema
  known : ∀ k, k.element = n → (h'.cache.get k).content = (h.cache.get k).content
  held : ∀ s, h'.elementsOf n s = h.elementsOf n s

namespace SameAt

section
variable {n : String} {h h' h'' : Holdings} {s : StoreId} {values : List (Option String)}
  {k : ElementKey} {a a' : Handle} {b b' : Option Handle}

theorem refl (n : String) (h : Holdings) : SameAt n h h := ⟨rfl, fun _ _ => rfl, fun _ => rfl⟩

theorem trans (hs : SameAt n h h') (hs' : SameAt n h' h'') : SameAt n h h'' :=
  ⟨hs'.schema.trans hs.schema, fun k hk => (hs'.known k hk).trans (hs.known k hk),
    fun s => (hs'.held s).trans (hs.held s)⟩

theorem symm (hs : SameAt n h h') : SameAt n h' h :=
  ⟨hs.schema.symm, fun k hk => (hs.known k hk).symm, fun s => (hs.held s).symm⟩

/-! ## Lookups in step -/

/-- A search finds the first element of the name that meets the values. -/
theorem map_search (h : Holdings) (s : StoreId) (n : String) (values : List (Option String)) :
    (h.search s n values).map Handle.element = (h.elementsOf n s).find?
      (Step.ofKey n (h.schema.attrsFor n) (values ++
        List.replicate ((h.schema.attrsFor n).length - values.length) none)).accepts := by
  rw [elementsOf, List.find?_filter, List.find?_map]
  unfold search Store.findByKey Store.firstOf
  congr 2
  funext x
  by_cases hx : x.element.name = n
  · simp [hx]
  · have hx' : ¬ n = x.element.name := fun he => hx he.symm
    simp [Step.accepts, Step.ofKey, hx, hx']

theorem search (hs : SameAt n h h') :
    (h'.search s n values).map Handle.element = (h.search s n values).map Handle.element := by
  rw [map_search, map_search, hs.schema, hs.held]

theorem remember {r r' : Option Handle} (hs : SameAt n h h')
    (hr : r'.map Handle.element = r.map Handle.element) :
    SameAt n (h.remember k r) (h'.remember k r') where
  schema := hs.schema
  known q hq := by
    change ((h'.cache.set k r').get q).content = ((h.cache.set k r).get q).content
    rw [LookupCache.get_set, LookupCache.get_set]
    split
    · cases r <;> cases r' <;> simp_all [Lookup.content]
    · exact hs.known q hq
  held s := by
    have hheld := hs.held s
    unfold elementsOf at hheld ⊢
    rwa [store_remember, store_remember]

/-- Counts and numbers do not matter. -/
theorem recount (hs : SameAt n h h') {i j m i' j' m' : Nat} :
    SameAt n { h with searches := i, hits := j, nextSerial := m }
      { h' with searches := i', hits := j', nextSerial := m' } where
  schema := hs.schema
  known := hs.known
  held s := by
    cases s with
    | main => exact hs.held .main
    | alterations => exact hs.held .alterations
    | bases => exact hs.held .bases

theorem findIn (hs : SameAt n h h') :
    (h'.findIn s n values).1.map Handle.element = (h.findIn s n values).1.map Handle.element ∧
      SameAt n (h.findIn s n values).2 (h'.findIn s n values).2 := by
  have hk := hs.known (.of n values s) rfl
  unfold Holdings.findIn
  cases hg : h.cache.get (.of n values s) with
  | notQueried =>
    cases hg' : h'.cache.get (.of n values s) with
    | notQueried => exact ⟨hs.search, (hs.remember hs.search).recount⟩
    | miss => rw [hg, hg'] at hk; cases hk
    | found x => rw [hg, hg'] at hk; cases hk
  | miss =>
    cases hg' : h'.cache.get (.of n values s) with
    | notQueried => rw [hg, hg'] at hk; cases hk
    | miss => exact ⟨rfl, hs.recount⟩
    | found x => rw [hg, hg'] at hk; cases hk
  | found y =>
    cases hg' : h'.cache.get (.of n values s) with
    | notQueried => rw [hg, hg'] at hk; cases hk
    | miss => rw [hg, hg'] at hk; cases hk
    | found x =>
      rw [hg, hg'] at hk
      exact ⟨congrArg some (Option.some.inj (Option.some.inj hk)), hs.recount⟩

theorem afterFind (hs : SameAt n h h') :
    ((h'.findIn .main n values).2.findIn .alterations n values).1.map Handle.element =
        ((h.findIn .main n values).2.findIn .alterations n values).1.map Handle.element ∧
      SameAt n (h.afterFind n values) (h'.afterFind n values) :=
  hs.findIn.2.findIn

theorem push (hs : SameAt n h h') (he : a'.element = a.element) :
    SameAt n { h with main := h.main.push a } { h' with main := h'.main.push a' } where
  schema := hs.schema
  known := hs.known
  held s := by
    cases s with
    | main =>
      have hheld := hs.held .main
      simp only [elementsOf, store] at hheld
      simp only [elementsOf, store, Store.handles_push, List.map_append, List.filter_append, hheld,
        List.map_cons, List.map_nil, he]
    | alterations => exact hs.held .alterations
    | bases => exact hs.held .bases

theorem settle (hs : SameAt n h h') (he : a'.element = a.element)
    (hb : b'.map Handle.element = b.map Handle.element) :
    (h'.settle k a' b').1.element = (h.settle k a b).1.element ∧
      SameAt n (h.settle k a b).2 (h'.settle k a' b').2 := by
  cases b with
  | none =>
    cases b' with
    | none => exact ⟨he, (hs.push he).remember (congrArg some he)⟩
    | some y => cases hb
  | some x =>
    cases b' with
    | none => cases hb
    | some y =>
      have hx : y.element = x.element := Option.some.inj hb
      have hu : (Handle.unify h'.schema h'.nextSerial a' y).element =
          (Handle.unify h.schema h.nextSerial a x).element := by
        change unify h'.schema a'.element y.element = unify h.schema a.element x.element
        rw [hs.schema, he, hx]
      exact ⟨hu, (hs.recount.push hu).remember (congrArg some hu)⟩

/-- What a lookup found in one holdings it finds in the other. -/
theorem some_of_map {o o' : Option Handle} {x : Handle}
    (ho : o'.map Handle.element = o.map Handle.element) (hx : o = some x) :
    ∃ x', o' = some x' ∧ x'.element = x.element := by
  rw [hx] at ho
  exact Option.map_eq_some_iff.1 ho

theorem none_of_map {o o' : Option Handle} (ho : o'.map Handle.element = o.map Handle.element)
    (hx : o = none) : o' = none := by
  rw [hx] at ho
  exact Option.map_eq_none_iff.1 ho

theorem resolve {r : List ElementKey} (hs : SameAt n h h') :
    (h'.resolve r n values).1.map Handle.element = (h.resolve r n values).1.map Handle.element ∧
      SameAt n (h.resolve r n values).2 (h'.resolve r n values).2 := by
  induction h, r, values using resolve_induction (n := n) generalizing h' with
  | found hm =>
    obtain ⟨hans, hs₁⟩ := hs.findIn (s := .main)
    obtain ⟨x', hm', he⟩ := some_of_map hans hm
    rw [resolve_found hm, resolve_found hm']
    exact ⟨congrArg some he, hs₁⟩
  | open_ hm hk =>
    obtain ⟨hans, hs₁⟩ := hs.findIn (s := .main)
    rw [resolve_open hm hk, resolve_open (none_of_map hans hm) hk]
    exact ⟨rfl, hs₁⟩
  | missing hm hk ha =>
    have hm' := none_of_map (hs.findIn (s := .main)).1 hm
    obtain ⟨hans, hs₁⟩ := hs.afterFind
    rw [resolve_missing hm hk ha, resolve_missing hm' hk (none_of_map hans ha)]
    exact ⟨rfl, hs₁⟩
  | alone hm hk ha hb =>
    have hm' := none_of_map (hs.findIn (s := .main)).1 hm
    obtain ⟨hans, hs₁⟩ := hs.afterFind
    obtain ⟨a', ha', he⟩ := some_of_map hans ha
    rw [resolve_alone hm hk ha hb, resolve_alone hm' hk ha' (he ▸ hb)]
    obtain ⟨hx, hs₂⟩ := hs₁.settle he (b := none) rfl
    exact ⟨congrArg some hx, hs₂⟩
  | based hm hk ha hb ih =>
    have hm' := none_of_map (hs.findIn (s := .main)).1 hm
    obtain ⟨hans, hs₁⟩ := hs.afterFind
    obtain ⟨a', ha', he⟩ := some_of_map hans ha
    rw [resolve_based hm hk ha hb, resolve_based hm' hk ha' (he ▸ hb)]
    obtain ⟨hbase, hs₂⟩ := ih hs₁
    obtain ⟨hx, hs₃⟩ := hs₂.settle he hbase
    exact ⟨congrArg some hx, hs₃⟩

theorem getElement (hs : SameAt n h h') (values : List (Option String)) :
    (h'.getElement n values).1.map Handle.element =
      (h.getElement n values).1.map Handle.element := by
  unfold Holdings.getElement
  rw [hs.schema]
  exact hs.resolve.1

theorem getAlteration (hs : SameAt n h h') (values : List (Option String)) :
    (h'.getAlteration n values).1.map Handle.element =
      (h.getAlteration n values).1.map Handle.element := by
  unfold Holdings.getAlteration
  rw [hs.schema]
  exact hs.findIn.1

theorem getBase (hs : SameAt n h h') (values : List (Option String)) :
    (h'.getBase n values).1.map Handle.element = (h.getBase n values).1.map Handle.element := by
  unfold Holdings.getBase
  rw [hs.schema]
  obtain ⟨hans, hs₁⟩ : (h'.findIn .alterations n (h.schema.fit n values)).1.map Handle.element =
      (h.findIn .alterations n (h.schema.fit n values)).1.map Handle.element ∧
      SameAt n (h.findIn .alterations n (h.schema.fit n values)).2
        (h'.findIn .alterations n (h.schema.fit n values)).2 := hs.findIn
  rcases hf : h.findIn .alterations n (h.schema.fit n values) with ⟨a?, h₁⟩
  rcases hf' : h'.findIn .alterations n (h.schema.fit n values) with ⟨a'?, h₁'⟩
  rw [hf, hf'] at hans hs₁
  simp only [hf, hf'] at hans hs₁ ⊢
  cases a? with
  | none =>
    obtain rfl := none_of_map hans rfl
    rfl
  | some a =>
    obtain ⟨a', rfl, he⟩ := some_of_map hans rfl
    simp only [he]
    cases a.element.base with
    | none => rfl
    | some base =>
      simp only
      cases baseValues (h.schema.fit n values) base with
      | none => rfl
      | some values' =>
        simp only [hs₁.schema]
        split
        · exact hs₁.findIn.1
        · exact hs₁.resolve.1

end

end SameAt

/-! ## Operations on another key -/

/-- Whether two keys differ in more than the store that they are looked up in. -/
def Apart (k q : ElementKey) : Prop := ∀ s, k.inStore s ≠ q

section
variable {h : Holdings} {s : StoreId} {name n : String} {values : List (Option String)}
  {k q : ElementKey} {r : List ElementKey} {node : Handle} {outside : List Handle}

theorem Apart.of_name (hn : k.element ≠ q.element) : Apart k q := by
  rintro s rfl
  exact hn rfl

theorem Apart.of_ne (hs : k.store = q.store) (hne : k ≠ q) : Apart k q := by
  rintro s rfl
  exact hne (congrArg k.inStore hs)

theorem Apart.inStore (hq : Apart k q) (s : StoreId) : Apart k (q.inStore s) := fun _ he =>
  hq q.store (congrArg (·.inStore q.store) he)

theorem get_remember_apart (h : Holdings) (o : Option Handle) (hq : Apart k q) :
    (h.remember k o).cache.get q = h.cache.get q :=
  (get_remember h k q o).trans (if_neg (hq k.store))

theorem get_settle_apart (a : Handle) (b : Option Handle) (hq : Apart k q) :
    (h.settle k a b).2.cache.get q = h.cache.get q := by
  cases b with
  | none => exact get_remember_apart (k := k) { h with main := h.main.push a } _ hq
  | some b => exact get_remember_apart (k := k) { h with main := _, nextSerial := _ } _ hq

theorem get_displace_apart (hq : Apart k q) : (h.displace k).cache.get q = h.cache.get q := by
  unfold displace
  split
  · exact get_remember_apart (k := k) { h with main := _ } _ hq
  · rfl

theorem get_addAlteration_apart (hq : Apart k q) :
    (h.addAlteration k node).cache.get q = h.cache.get q :=
  get_remember_apart (k := k.inStore .alterations) { h with alterations := _ } _ hq

theorem get_applyOverride_apart (x : Handle) (hq : Apart k q) :
    (h.applyOverride k node x).cache.get q = h.cache.get q :=
  (get_remember_apart (k := k) { h.remember (k.inStore .bases) (some x) with main := _ } _ hq).trans
    (get_remember_apart (k := k.inStore .bases) h _ hq)

/-- An add at another key tells of this one what a lookup for what it overrides does. -/
theorem get_add_apart (hq : Apart (h.schema.keyOf node.element) q)
    (ho : (h.overridden node.element.name (h.schema.valuesOf node.element)).2.cache.get q =
      h.cache.get q) : (h.add node).2.cache.get q = h.cache.get q := by
  refine add_cases (motive := fun r => r.2.cache.get q = h.cache.get q) ?plain ?refused ?unfounded
    ?override ?alteration
  case plain =>
    intro _
    exact get_remember_apart (k := h.schema.keyOf node.element) { h with main := _ } _ hq
  case refused => exact fun _ => rfl
  case unfounded => exact fun _ => ho
  case override =>
    intro base h' extant _ _ he _
    rw [he] at ho
    exact (get_addAlteration_apart hq).trans ((get_applyOverride_apart _ hq).trans ho)
  case alteration =>
    exact fun _ _ _ => (get_addAlteration_apart hq).trans (get_displace_apart hq)

/-! ## Operations on another name -/

theorem get_findIn_other (h : Holdings) (s : StoreId) (values : List (Option String))
    (hq : name ≠ q.element) : (h.findIn s name values).2.cache.get q = h.cache.get q := by
  unfold findIn
  split
  · rfl
  · rfl
  · exact get_remember_apart (k := .of name values s) h _ (.of_name hq)

theorem get_afterFind_other (hq : name ≠ q.element) :
    (h.afterFind name values).cache.get q = h.cache.get q :=
  (get_findIn_other _ .alterations values hq).trans (get_findIn_other h .main values hq)

theorem get_resolve_other (hq : name ≠ q.element) :
    (h.resolve r name values).2.cache.get q = h.cache.get q := by
  induction h, r, values using resolve_induction (n := name) with
  | found hm => rw [resolve_found hm]; exact get_findIn_other _ _ _ hq
  | open_ hm hk => rw [resolve_open hm hk]; exact get_findIn_other _ _ _ hq
  | missing hm hk ha => rw [resolve_missing hm hk ha]; exact get_afterFind_other hq
  | alone hm hk ha hb =>
    rw [resolve_alone hm hk ha hb]
    exact (get_settle_apart _ none (.of_name hq)).trans (get_afterFind_other hq)
  | based hm hk ha hb ih =>
    rw [resolve_based hm hk ha hb]
    exact (get_settle_apart _ _ (.of_name hq)).trans (ih.trans (get_afterFind_other hq))

theorem get_overridden_other (hq : name ≠ q.element) :
    (h.overridden name values).2.cache.get q = h.cache.get q := by
  unfold overridden
  split
  · rfl
  · exact get_resolve_other hq

theorem get_add_other (hq : node.element.name ≠ q.element) :
    (h.add node).2.cache.get q = h.cache.get q :=
  get_add_apart (.of_name hq) (get_overridden_other hq)

/-- What is beside a name, misses included, is the same there. -/
theorem Beside.sameAt {h' : Holdings} (hb : Beside (· = n) h h')
    (hc : ∀ q, q.element = n → h'.cache.get q = h.cache.get q) : SameAt n h h' where
  schema := hb.schema
  known q hq := congrArg Lookup.content (hc q hq)
  held s := by
    have hof : ∀ h : Holdings, h.elementsOf n s = (h.listed (· = n) s).map (·.2.element) := by
      intro h
      simp [elementsOf, Holdings.listed, keyed, List.filter_map, Function.comp_def]
    rw [hof, hof, hb.listed]

theorem sameAt_resolve (hc : Coherent outside h) (hn : name ≠ n) :
    SameAt n h (h.resolve r name values).2 :=
  (Beside.resolve hc (by simpa using hn)).sameAt fun q hq =>
    get_resolve_other (fun he => hn (he.trans hq))

theorem sameAt_add (hc : Coherent (node :: outside) h) (hn : node.element.name ≠ n) :
    SameAt n h (h.add node).2 :=
  (Beside.add hc (by simpa using hn)).sameAt fun q hq =>
    get_add_other (fun he => hn (he.trans hq))

end

end Holdings

end TemplateInventory
