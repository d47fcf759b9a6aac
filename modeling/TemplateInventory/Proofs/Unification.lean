import TemplateInventory.Proofs.Keys
import TemplateInventory.Proofs.Listing
import TemplateInventory.Proofs.Pairing
import TemplateInventory.Proofs.Trees
/-!
# Laws of unification

Unifying twice is the same as unifying once (`unify_absorbs`), and a chain of
unifications can be bracketed either way, unless an element asks for an order of
its own (`unify_chain`).

A list of children is known from two things: the classes of its items in their
order, and the items of each class (`eq_of_members`). Of a unified list these are
simple. The item of rank `k` in a class is the unification of the two items of
that rank (`childAt_unify`), and the classes are those of one side, followed by
what the other has more of (`childClasses_unify`). So a law of `unify` is a law of
`lineUp` on classes, one of `unifyOptions` at each rank, and one of
`inheritAttributes`.
-/

namespace TemplateInventory

/-! ## Inherited attributes -/

section
variable (a b c : Table String String)

theorem entries_inheritAttributes :
    (inheritAttributes a b).entries = a.entries ++ b.entries.filter (!a.contains ·.1) := by
  -- The attributes are inherited one by one, so the induction is over any that are own so far.
  have hfold : ∀ (es : List (String × String)) (t : Table String String),
      (es.map Prod.fst).Nodup →
      (es.foldl (fun t e => if t.contains e.1 then t else t.put e.1 e.2) t).entries =
        t.entries ++ es.filter (!t.contains ·.1) := by
    intro es
    induction es with
    | nil => simp
    | cons e es ih =>
      intro t hn
      rw [List.map_cons, List.nodup_cons] at hn
      rw [List.foldl_cons, ih _ hn.2]
      by_cases hc : t.contains e.1 = true
      · simp [hc]
      · have hput : (t.put e.1 e.2).entries = t.entries ++ [e] :=
          putEntry_of_not_mem e.2 (mt (t.contains_iff e.1).2 hc)
        have hother : ∀ e' ∈ es, (t.put e.1 e.2).contains e'.1 = t.contains e'.1 := by
          intro e' he'
          have hne : e.1 ≠ e'.1 := fun h => hn.1 (h ▸ List.mem_map_of_mem he')
          simp [Table.contains, hne]
        rw [if_neg hc, hput, List.filter_congr fun e' he' => by rw [hother e' he'],
          List.filter_cons_of_pos (by simpa using hc), List.append_assoc, List.singleton_append]
  exact hfold b.entries a b.distinct

theorem contains_inheritAttributes (n : String) :
    (inheritAttributes a b).contains n = (a.contains n || b.contains n) := by
  rw [Table.contains, get?_inheritAttributes, Table.contains, Table.contains]
  cases a.get? n <;> rfl

theorem inheritAttributes_self : inheritAttributes a a = a := by
  refine Table.ext ?_
  have hown : ∀ e ∈ a.entries, a.contains e.1 = true := fun e he =>
    (a.contains_iff e.1).2 (List.mem_map_of_mem he)
  rw [entries_inheritAttributes, List.filter_eq_nil_iff.2 (by simpa using hown), List.append_nil]

theorem inheritAttributes_assoc :
    inheritAttributes a (inheritAttributes b c) = inheritAttributes (inheritAttributes a b) c := by
  refine Table.ext ?_
  simp only [entries_inheritAttributes, contains_inheritAttributes, List.filter_append,
    List.filter_filter, List.append_assoc, Bool.not_or]

@[simp] theorem inheritAttributes_empty : inheritAttributes a .empty = a := rfl

@[simp] theorem empty_inheritAttributes : inheritAttributes .empty a = a := by
  refine Table.ext ?_
  rw [entries_inheritAttributes]
  simp [Table.empty, Table.contains, Table.get?, findEntry]

end

/-! ## Lists known by their classes -/

section
variable {α κ : Type} [DecidableEq κ] (key : α → κ)

theorem members_cons (c : κ) (x : α) (l : List α) :
    members key c (x :: l) = if key x = c then x :: members key c l else members key c l := by
  simp [members, List.filter_cons]

/-- A list is known from the classes of its items and from the items of each class. -/
theorem eq_of_members {l l' : List α} (hkeys : l.map key = l'.map key)
    (hmembers : ∀ (c : κ) (k : Nat), (members key c l)[k]? = (members key c l')[k]?) :
    l = l' := by
  induction l generalizing l' with
  | nil => exact (List.map_eq_nil_iff.1 hkeys.symm).symm
  | cons x l ih =>
    obtain ⟨y, l', rfl, hy, hl⟩ := List.map_eq_cons_iff.1 hkeys.symm
    -- Both come first in one class, and without them ranks in that class are one less.
    have hxy : x = y := by simpa [members_cons, hy] using hmembers (key x) 0
    subst hxy
    congr 1
    refine ih hl.symm fun c k => ?_
    by_cases hc : key x = c
    · simpa [members_cons, hc] using hmembers c (k + 1)
    · simpa [members_cons, hc] using hmembers c k

theorem surplus_append (n : κ → Nat) (l l' : List α) :
    surplus key n (l ++ l') = surplus key n l ++ surplus key (fun c => n c - countOf key l c) l' := by
  induction l generalizing n with
  | nil => rfl
  | cons x l ih =>
    rw [List.cons_append, surplus_cons, ih, surplus_cons, List.append_assoc]
    simp only [countOf_cons, Nat.sub_sub, Nat.add_comm]

theorem surplus_surplus (n m : κ → Nat) (l : List α) :
    surplus key n (surplus key m l) = surplus key (fun c => m c + n c) l := by
  induction l generalizing n m with
  | nil => rfl
  | cons x l ih =>
    -- The first item counts towards `n` only if `m` is used up.
    by_cases hm : m (key x) = 0
    · have hshift : (fun c => (m c - if c = key x then 1 else 0) + (n c - if c = key x then 1 else 0)) =
          fun c => m c + n c - if c = key x then 1 else 0 := by
        funext c
        by_cases hc : c = key x
        · simp [hc, hm]
        · simp [hc]
      rw [surplus_cons key m, if_pos hm, List.singleton_append, surplus_cons, ih, hshift,
        surplus_cons key (fun c => m c + n c)]
      simp [hm]
    · have hshift : (fun c => (m c - if c = key x then 1 else 0) + n c) =
          fun c => m c + n c - if c = key x then 1 else 0 := by
        funext c
        by_cases hc : c = key x
        · simp only [hc, if_true]
          omega
        · simp [hc]
      rw [surplus_cons key m, if_neg hm, List.nil_append, ih, hshift,
        surplus_cons key (fun c => m c + n c)]
      simp [hm]

theorem surplus_eq_nil {n : κ → Nat} {l : List α} (h : ∀ c, countOf key l c ≤ n c) :
    surplus key n l = [] := by
  refine List.eq_nil_iff_forall_not_mem.2 fun x hx => ?_
  have hzero : countOf key (surplus key n l) (key x) = 0 := by
    rw [countOf_surplus]
    exact Nat.sub_eq_zero_of_le (h (key x))
  exact absurd hzero (Nat.pos_iff_ne_zero.1 (List.countP_pos_iff.2 ⟨x, hx, by simp⟩))

theorem map_surplus (n : κ → Nat) (l : List α) :
    (surplus key n l).map key = surplus id n (l.map key) := by
  induction l generalizing n with
  | nil => rfl
  | cons x l ih =>
    rw [surplus_cons, List.map_append, ih, List.map_cons, surplus_cons]
    by_cases h : n (key x) = 0
    · simp [h]
    · simp [h]

theorem countOf_map (l : List α) : countOf id (l.map key) = countOf key l := by
  funext c
  simp [countOf, List.countP_map, Function.comp_def]

/-! ## The order of classes -/

/-- The items of `lead`, and after them what `other` has more of. -/
def lineUp (lead other : List κ) : List κ := lead ++ surplus id (countOf id lead) other

variable (xs ys zs : List κ)

theorem countOf_lineUp (c : κ) :
    countOf id (lineUp xs ys) c = max (countOf id xs c) (countOf id ys c) := by
  have happ : countOf id (lineUp xs ys) c =
      countOf id xs c + countOf id (surplus id (countOf id xs) ys) c := List.countP_append
  rw [happ, countOf_surplus]
  omega

example : lineUp ["b", "a"] ["a", "c", "a", "b"] = ["b", "a", "c", "a"] := by decide

theorem lineUp_of_le {xs ys : List κ} (h : ∀ c, countOf id ys c ≤ countOf id xs c) :
    lineUp xs ys = xs := by
  rw [lineUp, surplus_eq_nil id h, List.append_nil]

theorem lineUp_self : lineUp xs xs = xs := lineUp_of_le fun _ => Nat.le_refl _

theorem lineUp_assoc : lineUp (lineUp xs ys) zs = lineUp xs (lineUp ys zs) := by
  have hcount : (fun c => countOf id ys c + (countOf id xs c - countOf id ys c)) =
      countOf id (lineUp xs ys) := by
    funext c
    rw [countOf_lineUp]
    omega
  calc lineUp (lineUp xs ys) zs
      = xs ++ (surplus id (countOf id xs) ys ++ surplus id (countOf id (lineUp xs ys)) zs) := by
        rw [lineUp, lineUp, List.append_assoc]
    _ = xs ++ (surplus id (countOf id xs) ys ++
          surplus id (fun c => countOf id xs c - countOf id ys c)
            (surplus id (countOf id ys) zs)) := by
        rw [surplus_surplus, hcount]
    _ = lineUp xs (lineUp ys zs) := by
        rw [← surplus_append]
        rfl

theorem lineUp_left : lineUp (lineUp xs ys) xs = lineUp xs ys :=
  lineUp_of_le fun c => by
    rw [countOf_lineUp]
    exact Nat.le_max_left ..

theorem lineUp_right : lineUp (lineUp xs ys) ys = lineUp xs ys := by
  rw [lineUp_assoc, lineUp_self]

theorem lineUp_lineUp : lineUp xs (lineUp xs ys) = lineUp xs ys := by
  rw [← lineUp_assoc, lineUp_self]

@[simp] theorem lineUp_nil : lineUp xs [] = xs := by simp [lineUp, surplus]

@[simp] theorem nil_lineUp : lineUp [] xs = xs := by
  have hzero : countOf id ([] : List κ) = fun _ => 0 := rfl
  rw [lineUp, hzero, surplus_zero, List.nil_append]

/-! ## Joined lists -/

variable {join : α → α → α} (x : α) (lead other : List α)

theorem joinRanked_eq_pairUp :
    joinRanked key join lead other =
      ((pairUp key lead other).1.map fun p =>
        match p.2 with
        | some y => join p.1 y
        | none => p.1) ++ (pairUp key lead other).2 := by
  rw [pairUp_eq, joinRanked, List.map_map]
  rfl

theorem joinRanked_nil : joinRanked key join [] other = other := by
  simp [joinRanked_eq_pairUp, pairUp]

theorem joinRanked_cons :
    joinRanked key join (x :: lead) other =
      match takeFirst key (key x) other with
      | none => x :: joinRanked key join lead other
      | some (y, rest) => join x y :: joinRanked key join lead rest := by
  rw [joinRanked_eq_pairUp, pairUp]
  cases takeFirst key (key x) other with
  | none => simp [joinRanked_eq_pairUp]
  | some r => simp [joinRanked_eq_pairUp]

variable (hjoin : ∀ x y, key x = key y → key (join x y) = key x)
include hjoin

/-- In each class, items of equal rank are joined. -/
theorem getElem?_members_joinRanked (c : κ) (k : Nat) :
    (members key c (joinRanked key join lead other))[k]? =
      Option.merge join (members key c lead)[k]? (members key c other)[k]? := by
  induction lead generalizing other k with
  | nil => simp [joinRanked_nil, members]
  | cons x lead ih =>
    rw [joinRanked_cons]
    cases ht : takeFirst key (key x) other with
    | none =>
      have hnone : members key (key x) other = [] := by
        simpa [members, List.filter_eq_nil_iff] using takeFirst_eq_none key ht
      by_cases hc : key x = c
      · subst hc
        cases k with
        | zero => simp [members_cons, hnone]
        | succ k => simp [members_cons, ih, hnone]
      · simp [members_cons, hc, ih]
    | some r =>
      obtain ⟨y, rest⟩ := r
      have hy : key (join x y) = key x := hjoin x y (key_of_takeFirst key ht).symm
      by_cases hc : key x = c
      · subst hc
        cases k with
        | zero => simp [members_cons, hy, members_takeFirst key ht]
        | succ k => simp [members_cons, hy, ih, members_takeFirst key ht]
      · have hc' : ¬ c = key x := fun h => hc h.symm
        simp [members_cons, hy, hc, hc', ih, members_takeFirst key ht]

/-- Joining lines the classes up. -/
theorem map_key_joinRanked :
    (joinRanked key join lead other).map key = lineUp (lead.map key) (other.map key) := by
  have hlead : ∀ p : α × Nat,
      key (match (members key (key p.1) other)[p.2]? with
        | some y => join p.1 y
        | none => p.1) = key p.1 := by
    intro p
    cases hm : (members key (key p.1) other)[p.2]? with
    | none => rfl
    | some y =>
      have hy : key y = key p.1 := by
        simpa using (List.mem_filter.1 (List.mem_of_getElem? hm)).2
      exact hjoin p.1 y hy.symm
  rw [joinRanked, List.map_append, List.map_map, map_surplus, lineUp, countOf_map]
  congr 1
  calc (ranked key lead).map _
      = (ranked key lead).map (key ∘ Prod.fst) := List.map_congr_left fun p _ => hlead p
    _ = lead.map key := by rw [← List.map_map, map_fst_ranked]

end

/-! ## Unified elements -/

section
variable (s : KeySchema)

/-- The classes of the children, in the order of the children. -/
def KeySchema.childClasses (e : Element) : List (String × List (Option String)) :=
  e.children.map s.classOf

/-- The child that comes after `k` others of its class. -/
def KeySchema.childAt (e : Element) (c : String × List (Option String)) (k : Nat) : Option Element :=
  (members s.classOf c e.children)[k]?

theorem mem_of_childAt {e x : Element} {c : String × List (Option String)} {k : Nat}
    (h : s.childAt e c k = some x) : x ∈ e.children :=
  (List.mem_filter.1 (List.mem_of_getElem? h)).1

theorem Element.eq_of_childAt {a b : Element} (hname : a.name = b.name)
    (hattributes : a.attributes = b.attributes) (htext : a.text = b.text)
    (hclasses : s.childClasses a = s.childClasses b)
    (hchildren : ∀ c k, s.childAt a c k = s.childAt b c k) : a = b := by
  obtain ⟨n, as, cs, t⟩ := a
  obtain ⟨n', as', cs', t'⟩ := b
  cases hname
  cases hattributes
  cases htext
  have hcs : cs = cs' := eq_of_members s.classOf hclasses hchildren
  rw [hcs]

theorem attributes_unify (a b : Element) :
    (unify s a b).attributes = inheritAttributes a.attributes b.attributes := by
  rw [unify_eq]

theorem text_unify (a b : Element) : (unify s a b).text = (a.text <|> b.text) := by
  rw [unify_eq]

theorem children_unify (a b : Element) : (unify s a b).children = unifyChildren s a b := by
  rw [unify_eq]

/-- Two elements of one class make one of that class. -/
theorem classOf_unify {x y : Element} (h : s.classOf x = s.classOf y) :
    s.classOf (unify s x y) = s.classOf x := by
  obtain ⟨hname, hvalues⟩ := Prod.mk.inj h
  have hsame : ∀ n ∈ s.attrsFor x.name, x.attr n = y.attr n := by
    rw [KeySchema.valuesOf, KeySchema.valuesOf, ← hname] at hvalues
    exact List.map_inj_left.1 hvalues
  have hkept : ∀ n ∈ s.attrsFor x.name, (unify s x y).attr n = x.attr n := by
    intro n hn
    rw [attr_unify, ← hsame n hn]
    cases x.attr n <;> rfl
  rw [KeySchema.classOf, KeySchema.valuesOf, name_unify, Element.keyValues,
    List.map_congr_left hkept]
  rfl

theorem unifyOptions_eq_merge : unifyOptions s = Option.merge (unify s) := by
  funext x? y?
  cases x? <;> cases y? <;> rfl

theorem childAt_unify (a b : Element) (c : String × List (Option String)) (k : Nat) :
    s.childAt (unify s a b) c k = unifyOptions s (s.childAt a c k) (s.childAt b c k) := by
  rw [KeySchema.childAt, children_unify, unifyChildren_eq_joinRanked, unifyOptions_eq_merge]
  split
  · exact getElem?_members_joinRanked s.classOf _ _ (fun _ _ => classOf_unify s) c k
  · rw [getElem?_members_joinRanked s.classOf _ _
      (fun x y h => (classOf_unify s h.symm).trans h.symm) c k, KeySchema.childAt, KeySchema.childAt]
    cases (members s.classOf c a.children)[k]? <;>
      cases (members s.classOf c b.children)[k]? <;> rfl

theorem childClasses_unify (a b : Element) :
    s.childClasses (unify s a b) =
      if a.reorders then lineUp (s.childClasses a) (s.childClasses b)
      else lineUp (s.childClasses b) (s.childClasses a) := by
  rw [KeySchema.childClasses, children_unify, unifyChildren_eq_joinRanked]
  split
  · exact map_key_joinRanked s.classOf _ _ fun _ _ => classOf_unify s
  · exact map_key_joinRanked s.classOf _ _ fun x y h => (classOf_unify s h.symm).trans h.symm

/-- An alteration that says nothing of its order takes over what its base says. -/
theorem reorders_unify (a b : Element) :
    (unify s a b).reorders = a.reorders ∨
      a.reorders = false ∧ (unify s a b).reorders = b.reorders := by
  unfold Element.reorders Element.boolAttr
  rw [attr_unify]
  cases a.attr reorderAttr with
  | none => exact .inr ⟨rfl, rfl⟩
  | some v => exact .inl rfl

/-! ## Absorption -/

theorem unify_self (a : Element) : unify s a a = a := by
  induction a using Element.induction with
  | node a ih =>
    refine Element.eq_of_childAt s (name_unify s a a) ?_ ?_ ?_ fun c k => ?_
    · rw [attributes_unify, inheritAttributes_self]
    · rw [text_unify]
      cases a.text <;> rfl
    · rw [childClasses_unify, lineUp_self, ite_self]
    · rw [childAt_unify]
      cases hx : s.childAt a c k with
      | none => rfl
      | some x => exact congrArg some (ih x (mem_of_childAt s hx))

theorem unify_unify_left (a b : Element) : unify s a (unify s a b) = unify s a b := by
  induction a using Element.induction generalizing b with
  | node a ih =>
    refine Element.eq_of_childAt s ?_ ?_ ?_ ?_ fun c k => ?_
    · rw [name_unify, name_unify]
    · simp only [attributes_unify]
      rw [inheritAttributes_assoc, inheritAttributes_self]
    · simp only [text_unify]
      cases a.text <;> rfl
    · rw [childClasses_unify, childClasses_unify]
      split
      · exact lineUp_lineUp ..
      · exact lineUp_right ..
    · rw [childAt_unify, childAt_unify]
      cases hx : s.childAt a c k with
      | none => rfl
      | some x =>
        cases s.childAt b c k with
        | none => exact congrArg some (unify_self s x)
        | some y => exact congrArg some (ih x (mem_of_childAt s hx) y)

theorem unify_unify_right (a b : Element) : unify s (unify s a b) b = unify s a b := by
  induction a using Element.induction generalizing b with
  | node a ih =>
    refine Element.eq_of_childAt s ?_ ?_ ?_ ?_ fun c k => ?_
    · rw [name_unify]
    · simp only [attributes_unify]
      rw [← inheritAttributes_assoc, inheritAttributes_self]
    · simp only [text_unify]
      cases a.text <;> cases b.text <;> rfl
    · -- The result may reorder where the alteration did not, and never the other way round.
      rw [childClasses_unify s (unify s a b), childClasses_unify]
      split
      · split
        · exact lineUp_right ..
        · exact lineUp_left ..
      · next hu =>
        have ha : a.reorders = false := by
          rcases reorders_unify s a b with h | h
          · rw [← h]
            simpa using hu
          · exact h.1
        rw [ha]
        exact lineUp_lineUp ..
    · rw [childAt_unify, childAt_unify]
      cases hx : s.childAt a c k with
      | none =>
        cases s.childAt b c k with
        | none => rfl
        | some y => exact congrArg some (unify_self s y)
      | some x =>
        cases s.childAt b c k with
        | none => rfl
        | some y => exact congrArg some (ih x (mem_of_childAt s hx) y)

/-- An alteration changes nothing where it is in force already, and neither does a
base. -/
theorem unify_absorbs (a b : Element) :
    unify s a a = a ∧ unify s a (unify s a b) = unify s a b ∧
      unify s (unify s a b) b = unify s a b :=
  ⟨unify_self s a, unify_unify_left s a b, unify_unify_right s a b⟩

/-! ## Chains -/

theorem unify_assoc {a b : Element} (c : Element) (ha : a.Everywhere (·.reorders = false))
    (hb : b.Everywhere (·.reorders = false)) :
    unify s a (unify s b c) = unify s (unify s a b) c := by
  induction a using Element.induction generalizing b c with
  | node a ih =>
    have hab : (unify s a b).reorders = false := by
      rcases reorders_unify s a b with h | h
      · exact h.trans ha.self
      · exact h.2.trans hb.self
    refine Element.eq_of_childAt s ?_ ?_ ?_ ?_ fun cl k => ?_
    · rw [name_unify, name_unify, name_unify]
    · simp only [attributes_unify]
      exact inheritAttributes_assoc ..
    · simp only [text_unify]
      cases a.text <;> cases b.text <;> rfl
    · simp only [childClasses_unify, ha.self, hb.self, hab]
      exact lineUp_assoc ..
    · simp only [childAt_unify]
      cases hx : s.childAt a cl k with
      | none =>
        cases s.childAt b cl k with
        | none => rfl
        | some y => rfl
      | some x =>
        cases hy : s.childAt b cl k with
        | none => rfl
        | some y =>
          cases s.childAt c cl k with
          | none => rfl
          | some z =>
            exact congrArg some (ih x (mem_of_childAt s hx) z (ha.child (mem_of_childAt s hx))
              (hb.child (mem_of_childAt s hy)))

theorem childAt_bare (n : String) (c : String × List (Option String)) (k : Nat) :
    s.childAt (.bare n) c k = none := rfl

theorem bare_unify (b : Element) : unify s (.bare b.name) b = b := by
  refine Element.eq_of_childAt s (name_unify ..) ?_ ?_ ?_ fun c k => ?_
  · rw [attributes_unify]
    exact empty_inheritAttributes b.attributes
  · rw [text_unify]
    rfl
  · rw [childClasses_unify]
    exact lineUp_nil (s.childClasses b)
  · rw [childAt_unify, childAt_bare]
    rfl

theorem unify_bare (a : Element) (n : String) : unify s a (.bare n) = a := by
  refine Element.eq_of_childAt s (name_unify ..) ?_ ?_ ?_ fun c k => ?_
  · rw [attributes_unify]
    exact inheritAttributes_empty a.attributes
  · rw [text_unify]
    cases a.text <;> rfl
  · rw [childClasses_unify]
    split
    · exact lineUp_nil (s.childClasses a)
    · exact nil_lineUp (s.childClasses a)
  · rw [childAt_unify, childAt_bare]
    cases s.childAt a c k <;> rfl

/-- A chain of alterations can be unified from either end if none of them asks for an
order of its own, and bare elements add nothing to a chain. -/
theorem unify_chain :
    (∀ a b c : Element, a.Everywhere (·.reorders = false) → b.Everywhere (·.reorders = false) →
      unify s a (unify s b c) = unify s (unify s a b) c) ∧
    (∀ b : Element, unify s (.bare b.name) b = b) ∧
    ∀ (a : Element) (n : String), unify s a (.bare n) = a :=
  ⟨fun _ _ c => unify_assoc s c, bare_unify s, unify_bare s⟩

end

/-- A box with things in it. -/
def Element.box (attributes : List (String × String)) (things : List Element) : Element :=
  ⟨"box", .ofList attributes, things, none⟩

/-- Boxes are known by what is written on them. -/
def KeySchema.boxes : KeySchema := .ofList [("box", ["label"])]

/-- A box that is known by its label. -/
def Element.labelled (label : String) (things : List Element) : Element :=
  .box [("label", label)] things

/-- Two boxes with one label, of which the second is not empty. -/
def Element.twoBolts : Element :=
  .box [("reorder", "false")] [.labelled "bolts" [], .labelled "bolts" [.labelled "nuts" []]]

/-- A box that has one of each, and the other way round. -/
def Element.nutsFirst : Element :=
  .box [("color", "red")] [.labelled "nuts" [], .labelled "bolts" [.labelled "bolts" []]]

/-- A box that asks for its order. -/
def Element.boltsFirst : Element :=
  .box [("reorder", "True")]
    [.labelled "bolts" [.labelled "nuts" [.labelled "bolts" []]], .labelled "nuts" []]

/-- The base of a chain may have an order of its own. -/
theorem unify_chain_boxes :
    Element.twoBolts.Everywhere (·.reorders = false) ∧
      Element.nutsFirst.Everywhere (·.reorders = false) ∧ Element.boltsFirst.reorders = true ∧
      unify .boxes .twoBolts (unify .boxes .nutsFirst .boltsFirst) =
        unify .boxes (unify .boxes .twoBolts .nutsFirst) .boltsFirst := by
  have htwo : Element.twoBolts.Everywhere (·.reorders = false) := by
    simp only [Element.twoBolts, Element.labelled, Element.box, Element.everywhere_mk,
      List.forall_mem_cons, List.not_mem_nil, false_implies, implies_true]
    decide
  have hnuts : Element.nutsFirst.Everywhere (·.reorders = false) := by
    simp only [Element.nutsFirst, Element.labelled, Element.box, Element.everywhere_mk,
      List.forall_mem_cons, List.not_mem_nil, false_implies, implies_true]
    decide
  exact ⟨htwo, hnuts, by decide, (unify_chain .boxes).1 _ _ .boltsFirst htwo hnuts⟩

end TemplateInventory
