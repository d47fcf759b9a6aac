import TemplateInventory.Holdings.Add
import TemplateInventory.Proofs.Keys
/-!
# Operations of holdings by cases

What a lookup reads and what it leaves behind. `findIn` changes the memory at the
one key that it was asked for (`remembered_findIn`) and nothing else that later
answers depend on. `resolve_induction` follows a resolved key through its bases;
the lemmas `resolve_found` to `resolve_based` are its cases. `add_cases` are those
of an element that is added.
-/

namespace TemplateInventory

namespace Holdings

/-- The same with another store in the place of one of the three. -/
def setStore (h : Holdings) (s : StoreId) (st : Store) : Holdings :=
  match s with
  | .main => { h with main := st }
  | .alterations => { h with alterations := st }
  | .bases => { h with bases := st }

section
variable {h : Holdings} {s : StoreId} {name : String} {values : List (Option String)} {x : Handle}

@[simp] theorem store_setStore (h : Holdings) (s s' : StoreId) (st : Store) :
    (h.setStore s st).store s' = if s = s' then st else h.store s' := by
  cases s <;> cases s' <;> rfl

@[simp] theorem remembered_setStore (h : Holdings) (s : StoreId) (st : Store) (k : ElementKey) :
    (h.setStore s st).remembered k = h.remembered k := by
  cases s <;> rfl

@[simp] theorem schema_setStore (h : Holdings) (s : StoreId) (st : Store) :
    (h.setStore s st).schema = h.schema := by
  cases s <;> rfl

@[simp] theorem nextSerial_setStore (h : Holdings) (s : StoreId) (st : Store) :
    (h.setStore s st).nextSerial = h.nextSerial := by
  cases s <;> rfl

@[simp] theorem store_remember (h : Holdings) (k : ElementKey) (r : Option Handle) (s : StoreId) :
    (h.remember k r).store s = h.store s := by
  cases s <;> rfl

@[simp] theorem schema_remember (h : Holdings) (k : ElementKey) (r : Option Handle) :
    (h.remember k r).schema = h.schema := rfl

@[simp] theorem nextSerial_remember (h : Holdings) (k : ElementKey) (r : Option Handle) :
    (h.remember k r).nextSerial = h.nextSerial := rfl

theorem get_remember (h : Holdings) (k k' : ElementKey) (r : Option Handle) :
    (h.remember k r).cache.get k' =
      if k = k' then (match r with
        | some x => .found x
        | none => .miss)
      else h.cache.get k' :=
  LookupCache.get_set h.cache k k' r

@[simp] theorem remembered_remember (h : Holdings) (k k' : ElementKey) (r : Option Handle) :
    (h.remember k r).remembered k' = if k = k' then r else h.remembered k' := by
  rw [remembered, get_remember]
  split
  · cases r <;> rfl
  · rfl

/-! ## Finding in one store -/

@[simp] theorem schema_findIn (h : Holdings) (s : StoreId) (name : String)
    (values : List (Option String)) : (h.findIn s name values).2.schema = h.schema := by
  unfold findIn
  split <;> rfl

@[simp] theorem nextSerial_findIn (h : Holdings) (s : StoreId) (name : String)
    (values : List (Option String)) : (h.findIn s name values).2.nextSerial = h.nextSerial := by
  unfold findIn
  split <;> rfl

@[simp] theorem store_findIn (h : Holdings) (s s' : StoreId) (name : String)
    (values : List (Option String)) : (h.findIn s name values).2.store s' = h.store s' := by
  unfold findIn
  split <;> cases s' <;> rfl

/-- The answer is remembered, and nothing else is forgotten or learned. -/
@[simp] theorem remembered_findIn (h : Holdings) (s : StoreId) (name : String)
    (values : List (Option String)) (k : ElementKey) :
    (h.findIn s name values).2.remembered k =
      if .of name values s = k then (h.findIn s name values).1 else h.remembered k := by
  unfold findIn
  split
  · next x hx =>
    split
    · next hk => subst hk; exact congrArg Lookup.found? hx
    · rfl
  · next hx =>
    split
    · next hk => subst hk; exact congrArg Lookup.found? hx
    · rfl
  · exact remembered_remember h (.of name values s) k _

/-- What is remembered is the answer. -/
theorem findIn_remembered (hx : h.remembered (.of name values s) = some x) :
    (h.findIn s name values).1 = some x := by
  unfold remembered at hx
  unfold findIn
  split
  · next y hy => rw [hy] at hx; exact hx
  · next hy => rw [hy] at hx; cases hx
  · next hy => rw [hy] at hx; cases hx

/-- An answer comes from the memory or from the store. -/
theorem remembered_or_search (hx : (h.findIn s name values).1 = some x) :
    h.remembered (.of name values s) = some x ∨ h.search s name values = some x := by
  unfold findIn at hx
  split at hx
  · next y hy => exact .inl (by rw [remembered, hy]; exact hx)
  · cases hx
  · exact .inr hx

theorem mem_of_search (hx : h.search s name values = some x) : x ∈ (h.store s).handles :=
  List.mem_of_find?_eq_some hx

theorem accepts_of_search (hx : h.search s name values = some x) :
    (Step.ofKey name (h.schema.attrsFor name) (values ++
      List.replicate ((h.schema.attrsFor name).length - values.length) none)).accepts x.element =
      true :=
  List.find?_some (p := fun y : Handle => Step.accepts _ y.element) hx

theorem name_of_search (hx : h.search s name values = some x) : x.element.name = name := by
  have h' := accepts_of_search hx
  simp only [Step.accepts, Step.ofKey, Bool.and_eq_true, beq_iff_eq] at h'
  exact h'.1.symm

/-- A search that gives a value for each key attribute finds exactly these. -/
theorem valuesOf_of_search (hv : values.length = (h.schema.attrsFor name).length)
    (hx : h.search s name values = some x) : h.schema.valuesOf x.element = values := by
  have h' := accepts_of_search hx
  simp only [Step.accepts, Step.ofKey, Bool.and_eq_true, hv, Nat.sub_self, List.replicate_zero,
    List.append_nil] at h'
  rw [KeySchema.valuesOf, name_of_search hx]
  have hzip : ∀ (as : List String) (vs : List (Option String)), vs.length = as.length →
      (List.zipWith Predicate.ofValue as vs).all (·.holds x.element) = true →
        as.map x.element.attr = vs := by
    intro as
    induction as with
    | nil => intro vs hl _; rw [List.length_eq_zero_iff.1 hl]; rfl
    | cons a as ih =>
      rintro (_ | ⟨v, vs⟩) hl hall
      · cases hl
      · simp only [List.zipWith_cons_cons, List.all_cons, Bool.and_eq_true,
          Predicate.holds_ofValue, beq_iff_eq] at hall
        rw [List.map_cons, hall.1, ih vs (by simpa using hl) hall.2]
  exact hzip _ _ hv h'.2

end

/-! ## Resolving by cases -/

/-- The holdings after a key was looked up in the main store and among the
alterations. -/
def afterFind (h : Holdings) (name : String) (values : List (Option String)) : Holdings :=
  ((h.findIn .main name values).2.findIn .alterations name values).2

section
variable {h : Holdings} {r : List ElementKey} {name : String} {values values' : List (Option String)}
  {a x : Handle}

theorem resolve_found (hm : (h.findIn .main name values).1 = some x) :
    h.resolve r name values = (some x, (h.findIn .main name values).2) := by
  rw [resolve]
  split
  · next y h' he => rw [he] at hm ⊢; rw [← Option.some.inj hm]
  · next h' he => rw [he] at hm; cases hm

theorem resolve_open (hm : (h.findIn .main name values).1 = none)
    (hk : ElementKey.of name values .main ∈ r) :
    h.resolve r name values = (none, (h.findIn .main name values).2) := by
  rw [resolve]
  split
  · next y h' he => rw [he] at hm; cases hm
  · next h' he => rw [he]; exact dif_pos hk

theorem resolve_missing (hm : (h.findIn .main name values).1 = none)
    (hk : ElementKey.of name values .main ∉ r)
    (ha : ((h.findIn .main name values).2.findIn .alterations name values).1 = none) :
    h.resolve r name values = (none, h.afterFind name values) := by
  rw [resolve, afterFind]
  split
  · next y h' he => rw [he] at hm; cases hm
  · next h' he =>
    rw [he] at ha ⊢
    simp only [dif_neg hk]
    split
    · next h'' he' => rw [he']
    · next y h'' he' => rw [he'] at ha; cases ha

theorem resolve_alone (hm : (h.findIn .main name values).1 = none)
    (hk : ElementKey.of name values .main ∉ r)
    (ha : ((h.findIn .main name values).2.findIn .alterations name values).1 = some a)
    (hb : a.element.base.bind (baseValues values) = none) :
    h.resolve r name values =
      (some ((h.afterFind name values).settle (.of name values .main) a none).1,
        ((h.afterFind name values).settle (.of name values .main) a none).2) := by
  rw [resolve, afterFind]
  split
  · next y h' he => rw [he] at hm; cases hm
  · next h' he =>
    rw [he] at ha ⊢
    simp only [dif_neg hk]
    split
    · next h'' he' => rw [he'] at ha; cases ha
    · next y h'' he' =>
      rw [he'] at ha ⊢
      obtain rfl := Option.some.inj ha
      split
      · rfl
      · next base hbase =>
        rw [hbase, Option.bind_some] at hb
        split
        · rfl
        · next values' hv => rw [hv] at hb; cases hb

theorem resolve_based (hm : (h.findIn .main name values).1 = none)
    (hk : ElementKey.of name values .main ∉ r)
    (ha : ((h.findIn .main name values).2.findIn .alterations name values).1 = some a)
    (hb : a.element.base.bind (baseValues values) = some values') :
    h.resolve r name values =
      let b := (h.afterFind name values).resolve (.of name values .main :: r) name values'
      (some (b.2.settle (.of name values .main) a b.1).1,
        (b.2.settle (.of name values .main) a b.1).2) := by
  rw [resolve, afterFind]
  split
  · next y h' he => rw [he] at hm; cases hm
  · next h' he =>
    rw [he] at ha ⊢
    simp only [dif_neg hk]
    split
    · next h'' he' => rw [he'] at ha; cases ha
    · next y h'' he' =>
      rw [he'] at ha ⊢
      obtain rfl := Option.some.inj ha
      split
      · next hbase => rw [hbase] at hb; cases hb
      · next base hbase =>
        rw [hbase, Option.bind_some] at hb
        split
        · next hv => rw [hv] at hb; cases hb
        · next vs hv => rw [hv] at hb; rw [Option.some.inj hb]

end

/-- Induction along the bases that a lookup resolves. -/
theorem resolve_induction {n : String}
    {motive : Holdings → List ElementKey → List (Option String) → Prop}
    (found : ∀ {h r values x}, (h.findIn .main n values).1 = some x → motive h r values)
    (open_ : ∀ {h r values}, (h.findIn .main n values).1 = none →
      ElementKey.of n values .main ∈ r → motive h r values)
    (missing : ∀ {h r values}, (h.findIn .main n values).1 = none →
      ElementKey.of n values .main ∉ r →
      ((h.findIn .main n values).2.findIn .alterations n values).1 = none → motive h r values)
    (alone : ∀ {h r values a}, (h.findIn .main n values).1 = none →
      ElementKey.of n values .main ∉ r →
      ((h.findIn .main n values).2.findIn .alterations n values).1 = some a →
      a.element.base.bind (baseValues values) = none → motive h r values)
    (based : ∀ {h r values a values'}, (h.findIn .main n values).1 = none →
      ElementKey.of n values .main ∉ r →
      ((h.findIn .main n values).2.findIn .alterations n values).1 = some a →
      a.element.base.bind (baseValues values) = some values' →
      motive (h.afterFind n values) (.of n values .main :: r) values' → motive h r values)
    (h : Holdings) (r : List ElementKey) (values : List (Option String)) : motive h r values := by
  cases hm : (h.findIn .main n values).1 with
  | some x => exact found hm
  | none =>
    by_cases hk : ElementKey.of n values .main ∈ r
    · exact open_ hm hk
    · cases ha : ((h.findIn .main n values).2.findIn .alterations n values).1 with
      | none => exact missing hm hk ha
      | some a =>
        cases hb : a.element.base.bind (baseValues values) with
        | none => exact alone hm hk ha hb
        | some values' =>
          exact based hm hk ha hb
            (resolve_induction found open_ missing alone based (h.afterFind n values)
              (.of n values .main :: r) values')
termination_by h.openKeys r n values
decreasing_by
  have h₁ : h.findIn .main n values = (none, (h.findIn .main n values).2) := by rw [← hm]
  have h₂ : (h.findIn .main n values).2.findIn .alterations n values =
      (some a, h.afterFind n values) := by rw [← ha]; rfl
  obtain ⟨base, hbase, hv⟩ := Option.bind_eq_some_iff.1 hb
  refine length_outside_lt (fun x hx => ?_) List.mem_cons_self hk
  refine mem_baseKeys_of_base (findIn_knows h₁ (knows_of_findIn h₂)) hbase hv (fun y hy => ?_) hx
  exact findIn_knows h₁ (findIn_knows h₂ hy)

/-! ## The schema stays -/

@[simp] theorem schema_afterFind (h : Holdings) (name : String) (values : List (Option String)) :
    (h.afterFind name values).schema = h.schema := by
  rw [afterFind, schema_findIn, schema_findIn]

@[simp] theorem schema_settle (h : Holdings) (k : ElementKey) (a : Handle) (b : Option Handle) :
    (h.settle k a b).2.schema = h.schema := by
  cases b <;> rfl

@[simp] theorem schema_resolve (h : Holdings) (r : List ElementKey) (name : String)
    (values : List (Option String)) : (h.resolve r name values).2.schema = h.schema := by
  induction h, r, values using resolve_induction (n := name) with
  | found hm => rw [resolve_found hm, schema_findIn]
  | open_ hm hk => rw [resolve_open hm hk, schema_findIn]
  | missing hm hk ha => rw [resolve_missing hm hk ha, schema_afterFind]
  | alone hm hk ha hb => rw [resolve_alone hm hk ha hb, schema_settle, schema_afterFind]
  | based hm hk ha hb ih => rw [resolve_based hm hk ha hb, schema_settle, ih, schema_afterFind]

@[simp] theorem schema_overridden (h : Holdings) (name : String) (values : List (Option String)) :
    (h.overridden name values).2.schema = h.schema := by
  unfold overridden
  split
  · rfl
  · exact schema_resolve h [] name values

@[simp] theorem schema_displace (h : Holdings) (k : ElementKey) :
    (h.displace k).schema = h.schema := by
  unfold displace
  split <;> rfl

/-! ## Adding by cases -/

/-- What adding an element can come to. A refused element changes nothing, and
one without something to override is at most looked up. -/
theorem add_cases {h : Holdings} {node : Handle}
    {motive : Except InventoryError Unit × Holdings → Prop}
    (plain : node.element.base = none →
      motive (.ok (), h.addPlain (h.schema.keyOf node.element) node))
    (refused : ∀ e, motive (.error e, h))
    (unfounded : ∀ e, motive
      (.error e, (h.overridden node.element.name (h.schema.valuesOf node.element)).2))
    (override : ∀ {base h' extant}, node.element.base = some base →
      h.schema.identityOf node.element = some base →
      h.overridden node.element.name (h.schema.valuesOf node.element) = (some extant, h') →
      h'.remembered ((h.schema.keyOf node.element).inStore .bases) = none →
      motive (.ok (), (h'.applyOverride (h.schema.keyOf node.element) node extant).addAlteration
        (h.schema.keyOf node.element) node))
    (alteration : ∀ {base identity}, node.element.base = some base →
      h.schema.identityOf node.element = some identity → identity ≠ base →
      motive (.ok (), (h.displace (h.schema.keyOf node.element)).addAlteration
        (h.schema.keyOf node.element) node)) :
    motive (h.add node) := by
  unfold add
  cases hb : node.element.base with
  | none => exact plain hb
  | some base =>
    cases hi : h.schema.identityAttr node.element.name with
    | none => exact refused _
    | some attr =>
      cases ha : node.element.attr attr with
      | none => simp only [Element.requiredAttr, ha]; exact refused _
      | some identity =>
        have hid : h.schema.identityOf node.element = some identity := by
          rw [KeySchema.identityOf, hi, Option.bind_some, ha]
        simp only [Element.requiredAttr, ha]
        split
        · next he =>
          subst he
          rcases ho : h.overridden node.element.name (h.schema.valuesOf node.element) with ⟨_ | x, h'⟩
          · rw [ho] at unfounded
            simp only [addOverride, ho]
            exact unfounded _
          · rw [ho] at unfounded
            simp only [addOverride, ho]
            split
            · exact unfounded _
            · next hr => exact override hb hid ho hr
        · next hne => exact alteration hb hid hne

/-- An element without a base is always added. -/
theorem add_plain {h : Holdings} {node : Handle} (hb : node.element.base = none) :
    h.add node = (.ok (), h.addPlain (h.schema.keyOf node.element) node) := by
  unfold add
  rw [hb]
  rfl

@[simp] theorem schema_add (h : Holdings) (node : Handle) : (h.add node).2.schema = h.schema := by
  refine add_cases (motive := fun r => r.2.schema = h.schema) ?plain ?refused ?unfounded ?override
    ?alteration
  case plain => exact fun _ => rfl
  case refused => exact fun _ => rfl
  case unfounded => exact fun _ => schema_overridden _ _ _
  case override =>
    intro base h' extant _ _ ho _
    exact (congrArg (·.2.schema) ho).symm.trans (schema_overridden _ _ _)
  case alteration => exact fun _ _ _ => schema_displace _ _

end Holdings

end TemplateInventory
