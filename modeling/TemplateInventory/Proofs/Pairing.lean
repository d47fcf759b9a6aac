import Mathlib.Algebra.BigOperators.Group.Finset.Basic
import TemplateInventory.Unify
/-!
# Pairing counted out

`pairUp` gives each leading item the first item of its class that is still in the
pool, and the pool shrinks on the way. Here the outcome is counted out without a
pool: the leading item of rank `k` in its class gets the member of rank `k` of
that class (`pairUp_eq`), and what is left over are the members whose rank the
leading side does not reach (`surplus`). So the children of a unified element are
known from the two lists alone (`unifyChildren_counted`).
-/

namespace TemplateInventory

section
variable {α β κ : Type} [DecidableEq κ] (key : α → κ)

/-- How many items a class has. -/
def countOf (l : List α) (c : κ) : Nat := l.countP (key · = c)

/-- The items of a class. -/
def members (c : κ) (l : List α) : List α := l.filter (key · = c)

/-- The items with their ranks: how many items of the same class come before. -/
def ranked (l : List α) : List (α × Nat) :=
  l.zipIdx.map fun p => (p.1, countOf key (l.take p.2) (key p.1))

/-- The items whose rank is not below a number given for their class. -/
def surplus (n : κ → Nat) (l : List α) : List α :=
  ((ranked key l).filter fun p => n (key p.1) ≤ p.2).map Prod.fst

/-- The leading items in their order, each joined with the item of the other side
that has the same rank in the same class, and the other items that no leading
item reaches. -/
def joinRanked (join : α → α → α) (lead other : List α) : List α :=
  ((ranked key lead).map fun p =>
    match (members key (key p.1) other)[p.2]? with
    | some y => join p.1 y
    | none => p.1) ++
  surplus key (countOf key lead) other

/-- The places of the unified children, each with the item of the alteration and
the item of the base that it stands for. -/
def places (reorders : Bool) (as bs : List α) : List (Option α × Option α) :=
  if reorders then
    (pairUp key as bs).1.map (fun p => (some p.1, p.2)) ++ (pairUp key as bs).2.map (none, some ·)
  else
    (pairUp key bs as).1.map (fun p => (p.2, some p.1)) ++ (pairUp key bs as).2.map (some ·, none)

/-! ## Ranks -/

theorem countOf_cons (x : α) (l : List α) (c : κ) :
    countOf key (x :: l) c = countOf key l c + if c = key x then 1 else 0 := by
  simp [countOf, List.countP_cons, eq_comm]

theorem length_members (c : κ) (l : List α) : (members key c l).length = countOf key l c := by
  simp [members, countOf, List.countP_eq_length_filter]

@[simp] theorem ranked_nil : ranked key ([] : List α) = [] := rfl

theorem ranked_cons (x : α) (l : List α) :
    ranked key (x :: l) =
      (x, 0) :: (ranked key l).map fun p => (p.1, p.2 + if key p.1 = key x then 1 else 0) := by
  simp only [ranked, List.zipIdx_cons', List.map_cons, List.map_map]
  congr 1
  refine List.map_congr_left fun p _ => ?_
  simp [countOf_cons]

theorem map_fst_ranked (l : List α) : (ranked key l).map Prod.fst = l := by
  simp [ranked, Function.comp_def]

theorem mem_of_mem_ranked {l : List α} {p : α × Nat} (h : p ∈ ranked key l) : p.1 ∈ l := by
  rw [← map_fst_ranked key l]
  exact List.mem_map_of_mem h

/-! ## What is left over -/

theorem surplus_congr {n m : κ → Nat} {l : List α} (h : ∀ x ∈ l, n (key x) = m (key x)) :
    surplus key n l = surplus key m l := by
  unfold surplus
  congr 1
  refine List.filter_congr fun p hp => ?_
  rw [h _ (mem_of_mem_ranked key hp)]

theorem surplus_zero (l : List α) : surplus key (fun _ => 0) l = l := by
  simp [surplus, map_fst_ranked]

theorem surplus_cons (n : κ → Nat) (x : α) (l : List α) :
    surplus key n (x :: l) =
      (if n (key x) = 0 then [x] else []) ++
        surplus key (fun c => n c - if c = key x then 1 else 0) l := by
  have htail : ((ranked key l).map fun p => (p.1, p.2 + if key p.1 = key x then 1 else 0)).filter
        (fun p => n (key p.1) ≤ p.2) =
      ((ranked key l).filter fun p => n (key p.1) - (if key p.1 = key x then 1 else 0) ≤ p.2).map
        fun p => (p.1, p.2 + if key p.1 = key x then 1 else 0) := by
    simp [List.filter_map, Function.comp_def]
  unfold surplus
  rw [ranked_cons, List.filter_cons, htail]
  by_cases h : n (key x) = 0
  · simp [h, Function.comp_def]
  · simp [h, Function.comp_def]

/-- Of each class the surplus keeps what follows its first items. -/
theorem members_surplus (n : κ → Nat) (c : κ) (l : List α) :
    members key c (surplus key n l) = (members key c l).drop (n c) := by
  induction l generalizing n with
  | nil => simp [surplus, members]
  | cons x l ih =>
    have happ : ∀ l₁ l₂, members key c (l₁ ++ l₂) = members key c l₁ ++ members key c l₂ :=
      fun _ _ => List.filter_append ..
    rw [surplus_cons, happ, ih]
    by_cases hx : key x = c
    · subst hx
      cases hn : n (key x) with
      | zero => simp [members]
      | succ m => simp [members]
    · have hxc : ¬ c = key x := fun h => hx h.symm
      cases hn : n (key x) with
      | zero => simp [members, hx, hxc]
      | succ m => simp [members, hx, hxc]

theorem countOf_surplus (n : κ → Nat) (c : κ) (l : List α) :
    countOf key (surplus key n l) c = countOf key l c - n c := by
  rw [← length_members, members_surplus, List.length_drop, length_members]

theorem sum_countOf {S : Finset κ} {l : List α} (h : ∀ x ∈ l, key x ∈ S) :
    ∑ c ∈ S, countOf key l c = l.length := by
  have hcount : ∀ c, countOf key l c = (l.map key : Multiset κ).count c := by
    intro c
    simp [countOf, List.count, List.countP_map, Function.comp_def, beq_eq_decide]
  simp only [hcount]
  rw [Multiset.sum_count_eq_card]
  · simp
  · simpa using h

/-- The surplus is shorter by what each class gives away. -/
theorem length_surplus (n : κ → Nat) {S : Finset κ} {l : List α} (h : ∀ x ∈ l, key x ∈ S) :
    (surplus key n l).length + ∑ c ∈ S, min (countOf key l c) (n c) = l.length := by
  have hsub : ∀ x ∈ surplus key n l, key x ∈ S := by
    intro x hx
    obtain ⟨p, hp, rfl⟩ := List.mem_map.1 hx
    exact h _ (mem_of_mem_ranked key (List.mem_filter.1 hp).1)
  rw [← sum_countOf key hsub, ← sum_countOf key h, ← Finset.sum_add_distrib]
  refine Finset.sum_congr rfl fun c _ => ?_
  rw [countOf_surplus]
  omega

/-! ## One partner taken out -/

theorem takeFirst_eq_none {c : κ} {ys : List α} (h : takeFirst key c ys = none) :
    ∀ y ∈ ys, key y ≠ c := by
  induction ys with
  | nil => simp
  | cons z zs ih =>
    rw [takeFirst] at h
    split at h
    · cases h
    · next hz =>
      intro y hy
      rcases List.mem_cons.1 hy with rfl | hy
      · exact hz
      · exact ih (Option.map_eq_none_iff.1 h) y hy

theorem perm_of_takeFirst {c : κ} {ys rest : List α} {y : α}
    (h : takeFirst key c ys = some (y, rest)) : (y :: rest).Perm ys := by
  induction ys generalizing rest with
  | nil => simp [takeFirst] at h
  | cons z zs ih =>
    rw [takeFirst] at h
    split at h
    · cases h
      exact .refl _
    · obtain ⟨r, hr, he⟩ := Option.map_eq_some_iff.1 h
      cases he
      exact (List.Perm.swap ..).trans ((ih hr).cons z)

theorem members_takeFirst {c : κ} {ys rest : List α} {y : α}
    (h : takeFirst key c ys = some (y, rest)) (d : κ) :
    members key d ys = if d = c then y :: members key d rest else members key d rest := by
  induction ys generalizing rest with
  | nil => simp [takeFirst] at h
  | cons z zs ih =>
    rw [takeFirst] at h
    split at h
    · next hz =>
      cases h
      by_cases hd : d = c
      · simp [members, hz, hd]
      · have : ¬ key y = d := fun h => hd (h.symm.trans hz)
        simp [members, hd, this]
    · next hz =>
      obtain ⟨r, hr, he⟩ := Option.map_eq_some_iff.1 h
      cases he
      have ih := ih hr
      unfold members at ih ⊢
      by_cases hd : d = c
      · simp only [hd, if_true] at ih ⊢
        simp [hz, ih]
      · simp only [hd, if_false] at ih ⊢
        by_cases hzd : key z = d
        · simp [hzd, ih]
        · simp [hzd, ih]

theorem surplus_takeFirst {c : κ} {ys rest : List α} {y : α}
    (h : takeFirst key c ys = some (y, rest)) (n : κ → Nat) :
    surplus key (fun d => n d + if d = c then 1 else 0) ys = surplus key n rest := by
  induction ys generalizing rest n with
  | nil => simp [takeFirst] at h
  | cons z zs ih =>
    rw [takeFirst] at h
    split at h
    · next hz =>
      cases h
      rw [surplus_cons, hz]
      simp
    · next hz =>
      obtain ⟨r, hr, he⟩ := Option.map_eq_some_iff.1 h
      cases he
      -- The item passed over lowers the number of its own class, the partner that of another.
      have hswap : (fun d => n d + (if d = c then 1 else 0) - if d = key z then 1 else 0) =
          fun d => (n d - if d = key z then 1 else 0) + if d = c then 1 else 0 := by
        funext d
        by_cases hd : d = key z
        · have : ¬ d = c := fun h => hz (hd.symm.trans h)
          simp [hd, hz]
        · simp [hd]
      rw [surplus_cons, surplus_cons, hswap, ih hr]
      simp [hz]

/-! ## The whole pairing -/

/-- The leading item of rank `k` has the member of rank `k` of its class as its
partner, and the surplus is left. -/
theorem pairUp_eq (xs pool : List α) :
    pairUp key xs pool =
      ((ranked key xs).map fun p => (p.1, (members key (key p.1) pool)[p.2]?),
        surplus key (countOf key xs) pool) := by
  -- Induction on the leading side; taking one partner shifts the ranks of its class by one.
  induction xs generalizing pool with
  | nil =>
    have hzero : countOf key ([] : List α) = fun _ => 0 := by
      funext c
      simp [countOf]
    simp [pairUp, hzero, surplus_zero]
  | cons x xs ih =>
    have hcount : countOf key (x :: xs) = fun c => countOf key xs c + if c = key x then 1 else 0 :=
      funext fun c => countOf_cons key x xs c
    rw [pairUp, ranked_cons, hcount]
    cases ht : takeFirst key (key x) pool with
    | none =>
      have hnone := takeFirst_eq_none key ht
      have hmembers : members key (key x) pool = [] := by
        simpa [members, List.filter_eq_nil_iff] using hnone
      have hsurplus : surplus key (fun c => countOf key xs c + if c = key x then 1 else 0) pool =
          surplus key (countOf key xs) pool :=
        surplus_congr key fun y hy => by simp [hnone y hy]
      simp only [ih pool, hsurplus]
      simp only [List.map_cons, List.map_map, hmembers, List.getElem?_nil, Prod.mk.injEq,
        List.cons.injEq, true_and, and_true]
      refine List.map_congr_left fun p _ => ?_
      by_cases hp : key p.1 = key x
      · simp [hp, hmembers]
      · simp [hp]
    | some r =>
      obtain ⟨y, rest⟩ := r
      simp only [ih rest, surplus_takeFirst key ht]
      simp only [List.map_cons, List.map_map, members_takeFirst key ht, if_true,
        List.getElem?_cons_zero, Prod.mk.injEq, List.cons.injEq, true_and, and_true]
      refine List.map_congr_left fun p _ => ?_
      by_cases hp : key p.1 = key x
      · simp [hp]
      · simp [hp]

example : pairUp (· % 2) [1, 2, 3] [4, 5, 6, 7, 9] =
    ([(1, some 5), (2, some 4), (3, some 7)], [6, 9]) := by decide

theorem map_fst_pairUp (xs pool : List α) : (pairUp key xs pool).1.map Prod.fst = xs := by
  rw [pairUp_eq, List.map_map]
  exact map_fst_ranked key xs

/-- The partners and what is left are the pool. -/
theorem perm_pairUp (xs pool : List α) :
    ((pairUp key xs pool).1.filterMap Prod.snd ++ (pairUp key xs pool).2).Perm pool := by
  induction xs generalizing pool with
  | nil => simp [pairUp]
  | cons x xs ih =>
    rw [pairUp]
    cases ht : takeFirst key (key x) pool with
    | none => simpa using ih pool
    | some r =>
      obtain ⟨y, rest⟩ := r
      simpa using ((ih rest).cons y).trans (perm_of_takeFirst key ht)

theorem takeFirst_map (f : β → α) (c : κ) (ys : List β) :
    takeFirst key c (ys.map f) =
      (takeFirst (key ∘ f) c ys).map fun r => (f r.1, r.2.map f) := by
  induction ys with
  | nil => rfl
  | cons z zs ih =>
    rw [List.map_cons, takeFirst, takeFirst, ih]
    by_cases hz : key (f z) = c
    · simp [hz]
    · cases ht : takeFirst (key ∘ f) c zs with
      | none => simp [hz]
      | some r => simp [hz]

/-- Pairing looks at the keys only. -/
theorem pairUp_map (f : β → α) (xs pool : List β) :
    pairUp key (xs.map f) (pool.map f) =
      ((pairUp (key ∘ f) xs pool).1.map (Prod.map f (Option.map f)),
        (pairUp (key ∘ f) xs pool).2.map f) := by
  induction xs generalizing pool with
  | nil => rfl
  | cons x xs ih =>
    rw [List.map_cons, pairUp, pairUp, takeFirst_map, Function.comp_apply]
    cases ht : takeFirst (key ∘ f) (key (f x)) pool with
    | none => simp [ih]
    | some r => simp [ih]

theorem places_map (f : β → α) (reorders : Bool) (as bs : List β) :
    places key reorders (as.map f) (bs.map f) =
      (places (key ∘ f) reorders as bs).map (Prod.map (Option.map f) (Option.map f)) := by
  cases reorders with
  | true => simp [places, pairUp_map, Function.comp_def]
  | false => simp [places, pairUp_map, Function.comp_def]

theorem perm_places_left (reorders : Bool) (as bs : List α) :
    ((places key reorders as bs).filterMap Prod.fst).Perm as := by
  cases reorders with
  | true =>
    simp [places, List.filterMap_append, List.filterMap_map, map_fst_pairUp]
  | false =>
    have h := perm_pairUp key bs as
    simpa [places, List.filterMap_append, List.filterMap_map, Function.comp_def] using h

theorem perm_places_right (reorders : Bool) (as bs : List α) :
    ((places key reorders as bs).filterMap Prod.snd).Perm bs := by
  cases reorders with
  | true =>
    have h := perm_pairUp key as bs
    simpa [places, List.filterMap_append, List.filterMap_map, Function.comp_def] using h
  | false =>
    simp [places, List.filterMap_append, List.filterMap_map, map_fst_pairUp]

end

/-! ## Unified children -/

variable (s : KeySchema)

/-- What a child of the leading side becomes under its partner. -/
theorem unifyChildren_eq_places (a b : Element) :
    (unifyChildren s a b).map some =
      (places s.classOf a.reorders a.children b.children).map fun p =>
        unifyOptions s p.1 p.2 := by
  unfold unifyChildren places joinBy
  cases a.reorders with
  | true =>
    simp only [if_true, List.map_append, List.map_map]
    congr 1
    refine List.map_congr_left fun p _ => ?_
    cases hp : p.2 with
    | none => simp [hp, unifyJoined, unifyOptions]
    | some y => simp [hp, unifyJoined, unifyOptions]
  | false =>
    simp only [Bool.false_eq_true, if_false, List.map_append, List.map_map]
    congr 1
    refine List.map_congr_left fun p _ => ?_
    cases hp : p.2 with
    | none => simp [hp, unifyJoined, unifyOptions]
    | some y => simp [hp, unifyJoined, unifyOptions]

theorem unifyChildren_eq_joinRanked (a b : Element) :
    unifyChildren s a b =
      if a.reorders then joinRanked s.classOf (unify s) a.children b.children
      else joinRanked s.classOf (fun y x => unify s x y) b.children a.children := by
  unfold unifyChildren joinBy joinRanked
  cases a.reorders with
  | true =>
    simp only [if_true, pairUp_eq, List.map_append, List.map_map]
    congr 1
    · refine List.map_congr_left fun p _ => ?_
      cases h : (members s.classOf (s.classOf p.1) b.children)[p.2]? with
      | none => simp [h, unifyJoined]
      | some y => simp [h, unifyJoined]
    · simp [Function.comp_def, unifyJoined]
  | false =>
    simp only [Bool.false_eq_true, if_false, pairUp_eq, List.map_append, List.map_map]
    congr 1
    · refine List.map_congr_left fun p _ => ?_
      cases h : (members s.classOf (s.classOf p.1) a.children)[p.2]? with
      | none => simp [h, unifyJoined]
      | some y => simp [h, unifyJoined]
    · simp [Function.comp_def, unifyJoined]

theorem length_unifyChildren (a b : Element) {S : Finset (String × List (Option String))}
    (ha : ∀ x ∈ a.children, s.classOf x ∈ S) (hb : ∀ y ∈ b.children, s.classOf y ∈ S) :
    (unifyChildren s a b).length +
        ∑ c ∈ S, min (countOf s.classOf a.children c) (countOf s.classOf b.children c) =
      a.children.length + b.children.length := by
  have hranked : ∀ l, (ranked s.classOf l).length = l.length := by simp [ranked]
  have hsurplus_b := length_surplus s.classOf (countOf s.classOf a.children) hb
  have hsurplus_a := length_surplus s.classOf (countOf s.classOf b.children) ha
  simp only [min_comm (countOf s.classOf b.children _)] at hsurplus_b
  rw [unifyChildren_eq_joinRanked]
  split
  · rw [joinRanked, List.length_append, List.length_map, hranked]
    omega
  · rw [joinRanked, List.length_append, List.length_map, hranked]
    omega

/-- Nothing is lost or doubled among unified children, and their order is that of
the leading side. The places of the two lists are paired up: each index of either
side stands in exactly one pair. -/
theorem unifyChildren_counted (a b : Element) :
    (unifyChildren s a b =
      if a.reorders then joinRanked s.classOf (unify s) a.children b.children
      else joinRanked s.classOf (fun y x => unify s x y) b.children a.children) ∧
    (∃ pairs : List (Option (Element × Nat) × Option (Element × Nat)),
      (pairs.filterMap Prod.fst).Perm a.children.zipIdx ∧
      (pairs.filterMap Prod.snd).Perm b.children.zipIdx ∧
      (unifyChildren s a b).map some =
        pairs.map fun p => unifyOptions s (p.1.map Prod.fst) (p.2.map Prod.fst)) ∧
    (unifyChildren s a b).length +
        ∑ c ∈ (a.children.map s.classOf ++ b.children.map s.classOf).toFinset,
          min (countOf s.classOf a.children c) (countOf s.classOf b.children c) =
      a.children.length + b.children.length := by
  refine ⟨unifyChildren_eq_joinRanked s a b, ?_, ?_⟩
  · refine ⟨places (s.classOf ∘ Prod.fst) a.reorders a.children.zipIdx b.children.zipIdx,
      perm_places_left .., perm_places_right .., ?_⟩
    have hplaces := places_map s.classOf Prod.fst a.reorders a.children.zipIdx b.children.zipIdx
    rw [List.zipIdx_map_fst, List.zipIdx_map_fst] at hplaces
    rw [unifyChildren_eq_places, hplaces, List.map_map]
    rfl
  · refine length_unifyChildren s a b ?_ ?_
    · intro x hx
      simp only [List.mem_toFinset, List.mem_append, List.mem_map]
      exact .inl ⟨x, hx, rfl⟩
    · intro y hy
      simp only [List.mem_toFinset, List.mem_append, List.mem_map]
      exact .inr ⟨y, hy, rfl⟩

end TemplateInventory
