import TemplateInventory.Holdings.Resolve
/-!
# Keys of elements

`KeySchema.keyOf` is the key that an element has, and `ElementKey.based` the key
that a `base` leads to from there. A unified element has the key of its
alteration (`keyOf_unify`), although it takes over the attributes that the
alteration lacks: its base differs from it in the identity alone, and that the
alteration has.

All keys here are addressed to the main store, also those of elements that are
held elsewhere.
-/

namespace TemplateInventory

/-- The key of an element. -/
def KeySchema.keyOf (s : KeySchema) (e : Element) : ElementKey := .of e.name (s.valuesOf e) .main

/-- The key that a `base` leads to: the identity is replaced. A name without key
attributes has none. -/
def ElementKey.based (k : ElementKey) (base : String) : Option ElementKey :=
  if k.values.isEmpty then none
  else some { k with values := k.values.dropLast ++ [some (Text.lowercase base)] }

/-- The value of the attribute that `base` refers to. -/
def KeySchema.identityOf (s : KeySchema) (e : Element) : Option String :=
  (s.identityAttr e.name).bind e.attr

@[simp] theorem ElementKey.element_of (n : String) (vs : List (Option String)) (st : StoreId) :
    (ElementKey.of n vs st).element = n := rfl

/-- The key of a base is the key of its key values. -/
theorem map_baseValues (n : String) (vs : List (Option String)) (base : String) (st : StoreId) :
    (Holdings.baseValues vs base).map (ElementKey.of n · st) = (ElementKey.of n vs st).based base := by
  unfold Holdings.baseValues ElementKey.based
  by_cases h : vs = []
  · subst h
    rfl
  · simp [ElementKey.of, h, List.map_dropLast]

theorem bind_based (n : String) (vs : List (Option String)) (base : Option String) (st : StoreId) :
    base.bind (ElementKey.of n vs st).based =
      (base.bind (Holdings.baseValues vs)).map (ElementKey.of n · st) := by
  cases base with
  | none => rfl
  | some base => exact (map_baseValues n vs base st).symm

theorem ElementKey.element_based {k k' : ElementKey} {base : String} (h : k.based base = some k') :
    k'.element = k.element := by
  unfold based at h
  split at h
  · cases h
  · cases h
    rfl

theorem length_baseValues {vs vs' : List (Option String)} {base : String}
    (h : Holdings.baseValues vs base = some vs') : vs'.length = vs.length := by
  unfold Holdings.baseValues at h
  split at h
  · cases h
  · next hne =>
    cases h
    have hpos := List.length_pos_iff.2 (by simpa using hne : vs ≠ [])
    simp only [List.length_append, List.length_dropLast, List.length_singleton]
    omega

/-- An element whose base is its own identity has the key of its base. -/
theorem based_identityOf {s : KeySchema} {e : Element} {base : String}
    (h : s.identityOf e = some base) : (s.keyOf e).based base = some (s.keyOf e) := by
  obtain ⟨id, hid, hv⟩ := Option.bind_eq_some_iff.1 h
  obtain ⟨attrs, hattrs⟩ : ∃ attrs, s.attrsFor e.name = attrs ++ [id] :=
    List.getLast?_eq_some_iff.1 hid
  simp [ElementKey.based, KeySchema.keyOf, ElementKey.of, KeySchema.valuesOf, Element.keyValues,
    hattrs, hv]

/-! ## What a unified element inherits -/

theorem get?_inheritAttributes (own base : Table String String) (n : String) :
    (inheritAttributes own base).get? n = (own.get? n <|> base.get? n) := by
  -- The attributes are inherited one by one, so the induction is over any that are own so far.
  have hfold : ∀ (es : List (String × String)) (t : Table String String),
      (es.foldl (fun t e => if t.contains e.1 then t else t.put e.1 e.2) t).get? n =
        (t.get? n <|> findEntry n es) := by
    intro es
    induction es with
    | nil => intro t; cases h : t.get? n <;> simp [findEntry, h]
    | cons e es ih =>
      intro t
      rw [List.foldl_cons, ih, findEntry]
      by_cases hc : t.contains e.1 = true
      · rw [if_pos hc]
        by_cases hn : e.1 = n
        · rw [Table.contains, hn] at hc
          obtain ⟨v, hv⟩ := Option.isSome_iff_exists.1 hc
          simp [hv]
        · simp [hn]
      · rw [if_neg hc, Table.get?_put]
        by_cases hn : e.1 = n
        · rw [Table.contains, hn, Bool.not_eq_true, Option.isSome_eq_false_iff,
            Option.isNone_iff_eq_none] at hc
          simp [hn, hc]
        · simp [hn]
  exact hfold base.entries own

theorem name_unify (s : KeySchema) (a b : Element) : (unify s a b).name = a.name := by
  rw [unify_eq]

theorem attr_unify (s : KeySchema) (a b : Element) (n : String) :
    (unify s a b).attr n = (a.attr n <|> b.attr n) := by
  rw [unify_eq]
  exact get?_inheritAttributes a.attributes b.attributes n

/-- A unified element has the key of its alteration. -/
theorem keyOf_unify {s : KeySchema} {a b : Element} {base : String}
    (ha : (s.identityOf a).isSome = true) (hb : (s.keyOf a).based base = some (s.keyOf b)) :
    s.keyOf (unify s a b) = s.keyOf a := by
  have hname : b.name = a.name := ElementKey.element_based hb
  obtain ⟨v, hv⟩ := Option.isSome_iff_exists.1 ha
  obtain ⟨id, hid, hav⟩ := Option.bind_eq_some_iff.1 hv
  -- The key attributes are some that both sides agree on, and the identity.
  obtain ⟨attrs, hattrs⟩ : ∃ attrs, s.attrsFor a.name = attrs ++ [id] :=
    List.getLast?_eq_some_iff.1 hid
  have hlow : attrs.map (fun n => (b.attr n).map Text.lowercase) =
      attrs.map (fun n => (a.attr n).map Text.lowercase) := by
    have hvals : ((s.keyOf a).values.dropLast ++ [some (Text.lowercase base)]) =
        (s.keyOf b).values := by
      unfold ElementKey.based at hb
      split at hb
      · cases hb
      · exact congrArg ElementKey.values (Option.some.inj hb)
    have hdrop := congrArg List.dropLast hvals
    simp only [List.dropLast_concat, KeySchema.keyOf, ElementKey.of, KeySchema.valuesOf, hname,
      hattrs, Element.keyValues, List.map_append, List.map_cons, List.map_nil, List.map_map] at hdrop
    exact hdrop.symm
  -- So there is no key attribute to inherit: what `a` lacks of them, `b` lacks too.
  have hsame : ∀ n ∈ attrs ++ [id], (unify s a b).attr n = a.attr n := by
    intro n hn
    rw [attr_unify]
    cases han : a.attr n with
    | some w => rfl
    | none =>
      rcases List.mem_append.1 hn with hn | hn
      · have := List.map_inj_left.1 hlow n hn
        rw [han, Option.map_none, Option.map_eq_none_iff] at this
        exact this
      · rw [List.mem_singleton.1 hn, hav] at han
        cases han
  simp only [KeySchema.keyOf, KeySchema.valuesOf, name_unify, Element.keyValues, hattrs]
  rw [List.map_congr_left hsame]

end TemplateInventory
