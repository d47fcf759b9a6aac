import TemplateInventory.Proofs.Resolution
/-!
# How fresh derived elements are

The element of an alteration is made when its key is first resolved, from what
its base is then. Until then it follows every change of its base, and from then
on it stays, until something is added at its own key or everything is cleared
(`alteration_fresh`). So a base that is added after the alteration was resolved
is not seen (`resolved_alteration_stale`).
-/

namespace TemplateInventory

open Holdings Relation

/-- Whether an event neither clears nor adds anything at a key. -/
def Event.Spares (s : KeySchema) (k : ElementKey) : Event → Prop
  | .made => True
  | .cleared => False
  | .added node => s.keyOf node.element ≠ k
  | .grouped _ _ => True
  | .found _ _ _ => True
  | .resolved _ _ => True

namespace Catalog

section
variable {c c' : Catalog} {k k' q : ElementKey} {x a node : Handle} {r : List ElementKey} {e : Event}

theorem addOverride_aside (base : String) (hk : c.schema.keyOf node.element ≠ k) :
    (c.addOverride base node).2.alterations.get? k = c.alterations.get? k ∧
      (c.addOverride base node).2.main.get? k =
        (c.resolve [] (c.schema.keyOf node.element)).2.main.get? k := by
  have hg := grows_resolve c [] (c.schema.keyOf node.element)
  unfold addOverride
  simp only
  split
  · next c₁ he =>
    rw [he] at hg ⊢
    exact ⟨by rw [hg.alterations], rfl⟩
  · next extant c₁ he =>
    rw [he] at hg ⊢
    split
    · exact ⟨by rw [hg.alterations], rfl⟩
    · simp only [Table.get?_put, if_neg hk]
      exact ⟨by rw [hg.alterations], trivial⟩

/-- An element that is added at another key serves this one at most by resolving
it. -/
theorem add_aside (hk : c.schema.keyOf node.element ≠ k) :
    (c.add node).2.alterations.get? k = c.alterations.get? k ∧
      ((c.add node).2.main.get? k = c.main.get? k ∨
        ∃ q, (c.add node).2.main.get? k = (c.resolve [] q).2.main.get? k) := by
  unfold add
  split
  · exact ⟨rfl, .inl (by simp [hk])⟩
  · next base _ =>
    split
    · exact ⟨rfl, .inl rfl⟩
    · split
      · exact ⟨rfl, .inl rfl⟩
      · split
        · obtain ⟨halt, hmain⟩ := addOverride_aside base hk
          exact ⟨halt, .inr ⟨_, hmain⟩⟩
        · exact ⟨by simp [hk], .inl (by simp [hk])⟩

/-- An alteration that is no override takes away what is served at its key. -/
theorem add_alteration {identity : String} (hi : c.schema.identityOf node.element = some identity)
    (hb : node.element.base.isSome = true) (hne : node.element.base ≠ some identity) :
    (c.add node).2.main.get? (c.schema.keyOf node.element) = none ∧
      (c.add node).2.alterations.get? (c.schema.keyOf node.element) = some node := by
  obtain ⟨base, hbase⟩ := Option.isSome_iff_exists.1 hb
  obtain ⟨attr, hattr, hid⟩ := Option.bind_eq_some_iff.1 hi
  have hne' : ¬ identity = base := fun h => hne (h ▸ hbase)
  unfold add
  simp only [hbase, hattr, Element.requiredAttr, hid, if_neg hne']
  exact ⟨by simp, by simp⟩

theorem Follows.spared (he : e.Spares c.schema k) (hf : c.Follows e c') :
    c'.alterations.get? k = c.alterations.get? k ∧
      (c'.main.get? k = c.main.get? k ∨
        ∃ q, c'.main.get? k = (c.resolve [] q).2.main.get? k) := by
  cases hf with
  | aside _ n => exact ⟨rfl, .inl rfl⟩
  | cleared => exact he.elim
  | added node => exact add_aside he
  | resolved name values => exact ⟨by rw [(grows_resolve c [] _).alterations], .inr ⟨_, rfl⟩⟩

/-- What is served stays while its key is spared. -/
theorem Follows.served (he : e.Spares c.schema k) (hf : c.Follows e c')
    (hx : c.main.get? k = some x) : c'.main.get? k = some x := by
  rcases (hf.spared he).2 with h | ⟨q, h⟩
  · rw [h, hx]
  · rw [h, (grows_resolve c [] q).get? hx]

/-- An alteration is served with its base as that resolves by itself, whatever key
is looked up. -/
theorem served_resolve (hm : c.main.get? k = none) (ha : c.alterations.get? k = some a)
    (hb : a.element.base.bind k.based = some k') (hk : ¬ TransGen c.Waits k' k')
    (hr : ∀ z ∈ r, ReflTransGen c.Waits z q) (hx : (c.resolve r q).2.main.get? k = some x) :
    x.element = unifyWith c.schema a.element ((c.resolve [] k').1.map Handle.element) := by
  induction r, q using resolve_induction (c := c) with
  | served hm' => rw [resolve_served hm', hm] at hx; cases hx
  | open_ hm' hk' => rw [resolve_open hm' hk', hm] at hx; cases hx
  | missing hm' ha' => rw [resolve_missing hm' ha', hm] at hx; cases hx
  | @alone r q b hm' hk' ha' hb' =>
    rw [resolve_alone hm' hk' ha' hb', main_settle, Table.get?_put] at hx
    split at hx
    · next he =>
      subst he
      rw [ha] at ha'
      cases ha'
      rw [hb] at hb'
      cases hb'
    · rw [hm] at hx
      cases hx
  | @based r q b q' hm' hk' ha' hb' ih =>
    have hw : c.Waits q q' := ⟨hm', b, ha', hb'⟩
    rw [resolve_based hm' hk' ha' hb', main_settle, Table.get?_put] at hx
    split at hx
    · next he =>
      subst he
      rw [ha] at ha'
      cases ha'
      rw [hb] at hb'
      cases hb'
      cases hx
      -- A key that is open and that the base waits for would wait for itself.
      have hcongr : c.resolve (q :: r) k' = c.resolve [] k' := resolve_congr k' fun z hz => by
        refine iff_of_false (fun hmem => ?_) List.not_mem_nil
        rcases List.mem_cons.1 hmem with rfl | hmem
        · exact hk (.tail' hz hw)
        · exact hk (.tail' (hz.trans (hr z hmem)) hw)
      rw [element_settle, (grows_resolve c (q :: r) k').schema, hcongr]
    · exact ih (fun z hz => by
        rcases List.mem_cons.1 hz with rfl | hz
        · exact .single hw
        · exact (hr z hz).tail hw) hx

/-- The alteration of a key that is not served is unified with its base. -/
theorem resolve_waiting (hm : c.main.get? k = none) (ha : c.alterations.get? k = some a)
    (hb : a.element.base.bind k.based = some k') (hk : ¬ TransGen c.Waits k' k') :
    (c.resolve [] k).1.map Handle.element =
      some (unifyWith c.schema a.element ((c.resolve [] k').1.map Handle.element)) := by
  have hr := resolve_based hm List.not_mem_nil ha hb
  obtain ⟨x, hx⟩ : ∃ x, (c.resolve [] k).1 = some x := ⟨_, by rw [hr]⟩
  rw [hx, Option.map_some,
    served_resolve hm ha hb hk (r := []) (q := k) (fun _ h => (nomatch h)) (get?_resolve hx)]

end

end Catalog

/-! ## Since the last add at a key -/

namespace Holdings

/-- Whether an element with a key is served. -/
def Serves (h : Holdings) (k : ElementKey) : Prop :=
  ∃ x ∈ h.main.handles, h.schema.keyOf x.element = k

instance (h : Holdings) (k : ElementKey) : Decidable (h.Serves k) :=
  inferInstanceAs (Decidable (∃ x ∈ h.main.handles, h.schema.keyOf x.element = k))

/-- What is in the element that is served for a name and key values. -/
def content (h : Holdings) (name : String) (values : List (Option String)) : Option Element :=
  (h.getElement name values).1.map Handle.element

/-- Whether an event leaves what was added at a key. An element that is refused
changes no more than a lookup does. -/
def Spares (k : ElementKey) (h : Holdings) (e : Event) : Prop :=
  e.Spares h.schema k ∨ ∃ node err, e = .added node ∧ (h.add node).1 = .error err

/-- The last element that was added at its key is `a`, an alteration of `k` that
is no override. It was added to `h₀`, and nothing was cleared up to `h`. -/
structure LastAdded (g : String) (schema : KeySchema) (a : Handle) (k : ElementKey)
    (h₀ h : Holdings) : Prop where
  start : Leads g (fun _ _ => True) (.empty schema) h₀
  admitted : h₀.Admits a
  based : a.element.base.bind (schema.keyOf a.element).based = some k
  ordinary : ∃ identity, schema.identityOf a.element = some identity ∧
    a.element.base ≠ some identity
  since : Leads g (Spares (schema.keyOf a.element)) (h₀.apply (.added a)) h

/-- On the way from `h₀` to `h` a key came to be served by what happened in `h₁`,
and stayed. -/
structure ServedFrom (g : String) (k : ElementKey) (h₀ h₁ h : Holdings) : Prop where
  before : Leads g (Spares k) h₀ h₁
  unserved : ¬ h₁.Serves k
  after : ∃ e, h₁.Takes g e ∧ (h₁.apply e).Serves k ∧ Leads g (Spares k) (h₁.apply e) h

section
variable {g : String} {schema : KeySchema} {a node : Handle} {k : ElementKey}
  {h₀ h h' h₁ h₂ : Holdings} {c c' : Catalog} {p : String → Bool} {q : ElementKey} {n : String}
  {e : Event} {err : InventoryError}

theorem add_refused (hr : (h.add node).1 = .error err) :
    (h.add node).2 = h ∨ (h.add node).2 =
      (h.resolve [] node.element.name (h.schema.valuesOf node.element)).2 := by
  revert hr
  refine add_cases (motive := fun r => r.1 = .error err → r.2 = h ∨ r.2 =
    (h.resolve [] node.element.name (h.schema.valuesOf node.element)).2) ?plain ?refused ?unfounded
    ?override ?alteration
  case plain => simp
  case refused => exact fun _ _ => .inl rfl
  case unfounded =>
    intro _ _
    unfold overridden
    split
    · exact .inl rfl
    · exact .inr rfl
  case override => simp
  case alteration => simp

/-- A run that spares a key is one in which nothing is added at it. -/
theorem Leads.unrefused (hl : Leads g (Spares q) h₁ h) :
    Leads g (fun h e => e.Spares h.schema q) h₁ h := by
  induction hl with
  | refl => exact .refl
  | @step h' e _ he ht ih =>
    rcases he with he | ⟨node, err, rfl, hr⟩
    · exact ih.step he ht
    · rcases add_refused hr with hr | hr
      · rw [apply, hr]
        exact ih
      · rw [apply, hr]
        exact ih.step (e := .resolved _ _) trivial (KeySchema.length_valuesOf _ _)

theorem Agrees.serves_iff (ha : Agrees p h c) (hq : p q.element = true) :
    h.Serves q ↔ ∃ x, c.main.get? q = some x := by
  constructor
  · rintro ⟨x, hx, rfl⟩
    exact ⟨x, (ha.get?_iff (s := .main)).2 ⟨hx, hq, rfl⟩⟩
  · rintro ⟨x, hx⟩
    obtain ⟨hmem, -, hk⟩ := (ha.get?_iff (s := .main)).1 hx
    exact ⟨x, hmem, hk⟩

/-- While a key is spared its alteration stays, and if it comes to be served then
with its base as that was at that moment. -/
theorem Leads.waiting_or_served (hl : Leads g (Spares q) h₁ h) (hc : Coherent [] h₁)
    (hg : p g = false) (hp : p q.element = true) (ha : Agrees p h₁ c) (hm : c.main.get? q = none)
    (hx : c.alterations.get? q = some a) (hb : a.element.base.bind q.based = some k) :
    ∃ c', Agrees p h c' ∧ c'.alterations.get? q = some a ∧
      ∀ x, c'.main.get? q = some x → ∃ h₂ c₂, ServedFrom g q h₁ h₂ h ∧ Agrees p h₂ c₂ ∧
        (¬ TransGen c₂.Waits k k → x.element =
          Catalog.unifyWith c₂.schema a.element ((c₂.resolve [] k).1.map Handle.element)) := by
  replace hl := hl.unrefused
  induction hl with
  | refl => exact ⟨c, ha, hx, fun x hx' => by rw [hm] at hx'; cases hx'⟩
  | @step h' e hl he ht ih =>
    obtain ⟨c', ha', hx', hserved⟩ := ih
    obtain ⟨c'', hf, ha''⟩ := ha'.apply (hl.coherent hc) ht hg
    have he' : e.Spares c'.schema q := ha'.schema ▸ he
    obtain ⟨halt, hmain⟩ := hf.spared he'
    refine ⟨c'', ha'', halt.trans hx', fun x hx'' => ?_⟩
    -- Either the key was served before this event, or this is the moment.
    cases hm' : c'.main.get? q with
    | some y =>
      rw [hf.served he' hm'] at hx''
      cases hx''
      obtain ⟨h₂, c₂, ⟨hbefore, hno, e₂, ht₂, hyes, hafter⟩, hrest⟩ := hserved x hm'
      exact ⟨h₂, c₂, ⟨hbefore, hno, e₂, ht₂, hyes, hafter.step (.inl he) ht⟩, hrest⟩
    | none =>
      refine ⟨h', c', ⟨hl.mono fun _ _ => .inl, fun hyes => ?_, e, ht, ?_, .refl⟩, ha', fun hk => ?_⟩
      · obtain ⟨y, hy⟩ := (ha'.serves_iff hp).1 hyes
        rw [hm'] at hy
        cases hy
      · exact (ha''.serves_iff hp).2 ⟨x, hx''⟩
      · rcases hmain with hmain | ⟨q', hmain⟩
        · rw [hmain, hm'] at hx''
          cases hx''
        · exact Catalog.served_resolve hm' hx' hb hk (r := []) (fun _ h => (nomatch h))
            (hmain ▸ hx'')

theorem Agrees.content (ha : Agrees p h c) (hc : Coherent [] h) {name : String}
    (hp : p name = true) (values : List (Option String)) :
    h.content name values =
      (c.resolve [] (.of name (h.schema.fit name values) .main)).1.map Handle.element := by
  have hans := (ha.getElement hc hp values).1
  rw [Catalog.getElement, ha.schema] at hans
  exact congrArg (Option.map Handle.element) hans

/-- The answer for a key stays while the key is spared. -/
theorem Leads.getElement_eq {values : List (Option String)}
    (hl : Leads g (Spares q) (h.getElement n values).2 h₂) (hc : Coherent [] h) (ha : Agrees p h c)
    (hg : p g = false) (hp : p n = true) (hq : .of n (h.schema.fit n values) .main = q) {x : Handle}
    (hx : (h.getElement n values).1 = some x) : (h₂.getElement n values).1 = some x := by
  obtain ⟨hans, ha'⟩ := ha.getElement hc hp values
  have hs : h₂.schema = h.schema := hl.schema.trans (schema_resolve _ _ _ _)
  rw [hans] at hx
  rw [Catalog.getElement, ha.schema, hq] at hx ha'
  obtain ⟨c₂, ha₂, hx₂⟩ := hl.unrefused.agrees (I := fun c => c.main.get? q = some x) hc.resolve hg
    ha' (Catalog.get?_resolve hx) fun h c e c' he hsc hf hx => hf.served (hsc ▸ he) hx
  rw [(ha₂.getElement (hl.coherent hc.resolve) hp values).1, Catalog.getElement, ha₂.schema, hs, hq,
    Catalog.resolve_served hx₂]

namespace LastAdded
variable {values values' : List (Option String)}

/-- When an alteration was added it waits. -/
theorem waiting (hl : LastAdded g schema a k h₀ h) (hg : a.element.name ≠ g) :
    Coherent [] (h₀.apply (.added a)) ∧ ∃ c, Agrees (· ≠ g) (h₀.apply (.added a)) c ∧
      c.main.get? (schema.keyOf a.element) = none ∧
      c.alterations.get? (schema.keyOf a.element) = some a := by
  have hc := hl.start.coherent (coherent_empty schema)
  have hs : h₀.schema = schema := hl.start.schema
  obtain ⟨c, ha⟩ := hl.start.exists_agrees (p := (· ≠ g)) (coherent_empty schema) (by simp)
    (Agrees.empty _ schema)
  have hadd := (ha.add (hl.admitted.coherent hc) (by simpa using hg)).2
  obtain ⟨identity, hi, hne⟩ := hl.ordinary
  have hcs : c.schema = schema := ha.schema.trans hs
  have hb : a.element.base.isSome = true := by
    obtain ⟨base, hbase, -⟩ := Option.bind_eq_some_iff.1 hl.based
    rw [hbase]
    rfl
  -- That it is no override is what makes the add take away what was served.
  have hget := Catalog.add_alteration (hcs ▸ hi) hb hne
  rw [hcs] at hget
  exact ⟨hc.apply (g := g) hl.admitted, _, hadd, hget⟩

theorem schema_start (hl : LastAdded g schema a k h₀ h) :
    (h₀.apply (.added a)).schema = schema :=
  (schema_apply h₀ _).trans hl.start.schema

theorem schema_eq (hl : LastAdded g schema a k h₀ h) : h.schema = schema :=
  hl.since.schema.trans hl.schema_start

theorem coherent (hl : LastAdded g schema a k h₀ h) : Coherent [] h :=
  hl.since.coherent ((hl.start.coherent (coherent_empty schema)).apply (g := g) hl.admitted)

theorem step (hl : LastAdded g schema a k h₀ h) (he : Spares (schema.keyOf a.element) h e)
    (ht : h.Takes g e) : LastAdded g schema a k h₀ (h.apply e) :=
  { hl with since := hl.since.step he ht }

/-- An alteration that is not resolved yet follows its base. -/
theorem content_of_waiting (hl : LastAdded g schema a k h₀ h) (hg : a.element.name ≠ g)
    (hv : .of a.element.name (schema.fit a.element.name values) .main = schema.keyOf a.element)
    (hv' : .of a.element.name (schema.fit a.element.name values') .main = k)
    (hno : ¬ h.Serves (schema.keyOf a.element))
    (hk : ¬ TransGen (h.catalogOf (· ≠ g)).Waits k k) :
    h.content a.element.name values =
      some (Catalog.unifyWith schema a.element (h.content a.element.name values')) := by
  obtain ⟨hc₁, c₁, ha₁, hm₁, hx₁⟩ := hl.waiting hg
  have hp : decide (a.element.name ≠ g) = true := by simpa using hg
  obtain ⟨c, ha, hx, -⟩ := hl.since.waiting_or_served (p := (· ≠ g)) hc₁ (by simp) hp ha₁ hm₁ hx₁
    hl.based
  have hm : c.main.get? (schema.keyOf a.element) = none :=
    Option.eq_none_iff_forall_ne_some.2 fun x hx => hno ((ha.serves_iff hp).2 ⟨x, hx⟩)
  rw [ha.content hl.coherent hp, ha.content hl.coherent hp, hl.schema_eq, hv, hv',
    Catalog.resolve_waiting hm hx hl.based (ha.eq_catalogOf ▸ hk), ha.schema, hl.schema_eq]

/-- A resolved alteration has what its base was when it was resolved. -/
theorem content_of_served (hl : LastAdded g schema a k h₀ h) (hg : a.element.name ≠ g)
    (hv : .of a.element.name (schema.fit a.element.name values) .main = schema.keyOf a.element)
    (hv' : .of a.element.name (schema.fit a.element.name values') .main = k)
    (hyes : h.Serves (schema.keyOf a.element)) :
    ∃ h₁, ServedFrom g (schema.keyOf a.element) (h₀.apply (.added a)) h₁ h ∧
      (¬ TransGen (h₁.catalogOf (· ≠ g)).Waits k k →
        h.content a.element.name values =
          some (Catalog.unifyWith schema a.element (h₁.content a.element.name values'))) := by
  obtain ⟨hc₁, c₁, ha₁, hm₁, hx₁⟩ := hl.waiting hg
  have hp : decide (a.element.name ≠ g) = true := by simpa using hg
  obtain ⟨c, ha, -, hserved⟩ := hl.since.waiting_or_served (p := (· ≠ g)) hc₁ (by simp) hp ha₁ hm₁
    hx₁ hl.based
  obtain ⟨x, hx⟩ := (ha.serves_iff hp).1 hyes
  obtain ⟨h₂, c₂, hfrom, ha₂, hcontent⟩ := hserved x hx
  have hs₂ : h₂.schema = schema := hfrom.before.schema.trans hl.schema_start
  refine ⟨h₂, hfrom, fun hk => ?_⟩
  rw [ha.content hl.coherent hp, ha₂.content (hfrom.before.coherent hc₁) hp, hl.schema_eq, hs₂, hv,
    hv', Catalog.resolve_served hx, Option.map_some, hcontent (ha₂.eq_catalogOf ▸ hk), ha₂.schema,
    hs₂]

end LastAdded

end

end Holdings

/-- An alteration that was just added is the last one at its key. -/
theorem Reachable.lastAdded {w : Workspace} (hw : Reachable w) {a : Handle} {k : ElementKey}
    (ha : w.Accepts (.add a))
    (hb : a.element.base.bind (w.inventory.schema.keyOf a.element).based = some k)
    (hi : ∃ identity, w.inventory.schema.identityOf a.element = some identity ∧
      a.element.base ≠ some identity) :
    LastAdded w.inventory.conventions.groupingElement w.inventory.schema a k w.inventory.holdings
      (w.run (.add a)).inventory.holdings := by
  obtain ⟨schema, hl⟩ := hw.leads
  obtain rfl : w.inventory.schema = schema := hl.schema
  exact ⟨hl, ha, hb, hi, .refl⟩

/-- While the alteration that was added last at its key is not resolved, it is
served with what its base is now. Once it is served it has what its base was when
it was resolved, and stays. -/
theorem alteration_fresh {g : String} {schema : KeySchema} {a : Handle} {k : ElementKey}
    {h₀ h : Holdings} (hl : LastAdded g schema a k h₀ h) (hg : a.element.name ≠ g)
    {values values' : List (Option String)}
    (hv : .of a.element.name (schema.fit a.element.name values) .main = schema.keyOf a.element)
    (hv' : .of a.element.name (schema.fit a.element.name values') .main = k) :
    (¬ h.Serves (schema.keyOf a.element) → ¬ TransGen (h.catalogOf (· ≠ g)).Waits k k →
      h.content a.element.name values =
        some (Catalog.unifyWith schema a.element (h.content a.element.name values'))) ∧
    (h.Serves (schema.keyOf a.element) →
      ∃ h₁, ServedFrom g (schema.keyOf a.element) (h₀.apply (.added a)) h₁ h ∧
        (¬ TransGen (h₁.catalogOf (· ≠ g)).Waits k k →
          h.content a.element.name values =
            some (Catalog.unifyWith schema a.element (h₁.content a.element.name values')))) ∧
    ∀ x h₂, (h.getElement a.element.name values).1 = some x →
      Leads g (Spares (schema.keyOf a.element)) (h.getElement a.element.name values).2 h₂ →
      (h₂.getElement a.element.name values).1 = some x := by
  refine ⟨hl.content_of_waiting hg hv hv', hl.content_of_served hg hv hv', fun x h₂ hx hl₂ => ?_⟩
  have hp : decide (a.element.name ≠ g) = true := by simpa using hg
  obtain ⟨hc₁, c₁, ha₁, -⟩ := hl.waiting hg
  obtain ⟨c, ha⟩ := hl.since.exists_agrees (p := (· ≠ g)) hc₁ (by simp) ha₁
  exact hl₂.getElement_eq hl.coherent ha (by simp) hp (hl.schema_eq ▸ hv) hx

/-! ## Parts and pages -/

theorem lastAdded_ofParts : ∃ h₀, LastAdded "layoutType" .parts (.fresh 1 shortPart)
    (KeySchema.parts.keyOf redPart) h₀ Workspace.ofParts.inventory.holdings := by
  have hw := reachable_redPart.step (r := .make shortPart) trivial
  exact ⟨_, hw.lastAdded (reachable_redPart.made shortPart) (by decide)
    ⟨"short", by decide, by decide⟩⟩

theorem alteration_fresh_shortPart :
    Workspace.ofParts.inventory.holdings.content "part" [some "Short"] =
      some (Catalog.unifyWith .parts shortPart
        (Workspace.ofParts.inventory.holdings.content "part" [some "normal"])) := by
  obtain ⟨h₀, hl⟩ := lastAdded_ofParts
  refine (alteration_fresh hl (by decide) (by decide +kernel) (by decide +kernel)).1
    (by decide +kernel) fun hk => ?_
  obtain ⟨_, ⟨hm, -⟩, -⟩ := TransGen.head'_iff.1 hk
  revert hm
  decide +kernel

/-- Whether every alteration that was added last at its key is served with its
base as that is served, unless the base is on a cycle. -/
def Workspace.Follows (w : Workspace) : Prop :=
  ∀ (schema : KeySchema) (a : Handle) (k : ElementKey) (h₀ : Holdings)
    (values values' : List (Option String)),
    LastAdded w.inventory.conventions.groupingElement schema a k h₀ w.inventory.holdings →
    k ≠ schema.keyOf a.element → ¬ TransGen w.inventory.holdings.catalog.Waits k k →
    .of a.element.name (schema.fit a.element.name values) .main = schema.keyOf a.element →
    .of a.element.name (schema.fit a.element.name values') .main = k →
    w.inventory.holdings.content a.element.name values = some (Catalog.unifyWith schema a.element
      (w.inventory.holdings.content a.element.name values'))

/-- A part that takes the place of another. -/
def greenPart : Element := .part [("id", "normal"), ("color", "green")]

/-- A workspace in which the base of a part was replaced after the part was asked
for. -/
def Workspace.ofRepainted : Workspace :=
  ((Workspace.ofParts.run (.getElement "part" [some "short"])).run (.make greenPart)).run
    (.add (.fresh 3 greenPart))

theorem accepts_greenPart :
    ((Workspace.ofParts.run (.getElement "part" [some "short"])).run (.make greenPart)).Accepts
      (.add (.fresh 3 greenPart)) := by
  have hn : (Workspace.ofParts.run (.getElement "part" [some "short"])).inventory.holdings.nextSerial
      = 3 := by decide +kernel
  exact hn ▸ (reachable_ofParts.step (r := .getElement "part" [some "short"]) trivial).made greenPart

theorem reachable_ofRepainted : Reachable .ofRepainted :=
  ((reachable_ofParts.step (r := .getElement "part" [some "short"]) trivial).step
    (r := .make greenPart) trivial).step accepts_greenPart

theorem lastAdded_ofRepainted : ∃ h₀, LastAdded "layoutType" .parts (.fresh 1 shortPart)
    (KeySchema.parts.keyOf redPart) h₀ Workspace.ofRepainted.inventory.holdings := by
  obtain ⟨h₀, hl⟩ := lastAdded_ofParts
  have hget := hl.step (e := .resolved "part" [some "short"]) (.inl trivial) rfl
  have hmade := hget.step (e := .made) (.inl trivial) trivial
  refine ⟨h₀, hmade.step (e := .added (.fresh 3 greenPart)) (.inl ?_) accepts_greenPart⟩
  change KeySchema.keyOf _ _ ≠ _
  decide +kernel

/-- A schema of pages, which are grouping elements. -/
def KeySchema.pages : KeySchema := .ofList [("layoutType", ["layout"])]

/-- A page, and an alteration with its key. -/
def wholePage : Element := ⟨"layoutType", .ofList [("layout", "page")], [], none⟩

def halfPage : Element := ⟨"layoutType", .ofList [("layout", "page"), ("base", "sheet")], [], none⟩

/-- A workspace in which an alteration has the key of a grouping element. -/
def Workspace.ofPages : Workspace :=
  ((((Workspace.blank .pages).run (.make wholePage)).run (.addGrouping (.fresh 0 wholePage))).run
    (.make halfPage)).run (.add (.fresh 1 halfPage))

theorem reachable_grouping : Reachable
    (((Workspace.blank .pages).run (.make wholePage)).run (.addGrouping (.fresh 0 wholePage))) :=
  ((reachable_blank .pages).step (r := .make wholePage) trivial).step
    ⟨(reachable_blank .pages).made wholePage, rfl⟩

theorem reachable_ofPages : Reachable .ofPages :=
  (reachable_grouping.step (r := .make halfPage) trivial).step (reachable_grouping.made halfPage)

theorem lastAdded_ofPages : ∃ h₀, LastAdded "layoutType" .pages (.fresh 1 halfPage)
    (.of "layoutType" [some "sheet"] .main) h₀ Workspace.ofPages.inventory.holdings := by
  have hw := reachable_grouping.step (r := .make halfPage) trivial
  exact ⟨_, hw.lastAdded (reachable_grouping.made halfPage) (by decide)
    ⟨"page", by decide, by decide⟩⟩

/-- An alteration that was resolved before its base was replaced is not served
with the new base, and one with the key of a grouping element is not served at
all. -/
theorem resolved_alteration_stale :
    (Reachable .ofRepainted ∧ ¬ Workspace.ofRepainted.Follows) ∧
      Reachable .ofPages ∧ ¬ Workspace.ofPages.Follows := by
  refine ⟨⟨reachable_ofRepainted, fun hall => ?_⟩, reachable_ofPages, fun hall => ?_⟩
  · obtain ⟨h₀, hl⟩ := lastAdded_ofRepainted
    have heq := hall _ _ _ h₀ [some "short"] [some "normal"] hl (by decide +kernel) (fun hk => by
      obtain ⟨_, ⟨hm, -⟩, -⟩ := TransGen.head'_iff.1 hk
      revert hm
      decide +kernel) (by decide +kernel) (by decide +kernel)
    revert heq
    decide +kernel
  · obtain ⟨h₀, hl⟩ := lastAdded_ofPages
    have heq := hall _ _ _ h₀ [some "page"] [some "sheet"] hl (by decide +kernel) (fun hk => by
      obtain ⟨_, ⟨-, _, ha, -⟩, -⟩ := TransGen.head'_iff.1 hk
      revert ha
      exact (nomatch ·)) (by decide +kernel) (by decide +kernel)
    revert heq
    decide +kernel

end TemplateInventory
