import TemplateInventory.Proofs.Memory
import TemplateInventory.Proofs.Questions
/-!
# Cycles of bases

The bases of derived elements may lead in a circle. `resolveWithin` is the lookup of a
key with the state that it runs in: the keys that are being resolved go in and come
back, and calls are nested up to a given depth. However the bases lead, one level more
than there are alterations is enough, and the keys come back as they went in
(`resolveWithin_eq`).

A key that is being resolved was looked up in vain and stays without an element until
its call ends (`Pending.resolve`). So where a base leads back to it, the derived element
is taken as it is, and a key that has a derived element never goes without an answer
(`resolving_ends`).
-/

namespace TemplateInventory

namespace Holdings

/-- The element of a name and key values, with the keys that are being resolved: a key
joins them while its base is resolved, and leaves them again. Gives up if calls are
nested deeper than `depth`. -/
def resolveWithin (depth : Nat) (h : Holdings) (resolving : List ElementKey) (name : String)
    (values : List (Option String)) : Option (Option Handle × Holdings × List ElementKey) :=
  match depth with
  | 0 => none
  | depth + 1 =>
    match h.findIn .main name values with
    | (some found, h) => some (some found, h, resolving)
    | (none, h) =>
      let k := ElementKey.of name values .main
      if k ∈ resolving then some (none, h, resolving)
      else
        match h.findIn .alterations name values with
        | (none, h) => some (none, h, resolving)
        | (some a, h) =>
          match a.element.base.bind (baseValues values) with
          | none =>
            let (result, h) := h.settle k a none
            some (some result, h, resolving)
          | some values' =>
            match resolveWithin depth h (k :: resolving) name values' with
            | none => none
            | some (b, h, resolving) =>
              let (result, h) := h.settle k a b
              some (some result, h, resolving.erase k)

/-- Keys that were looked up in vain. -/
def Pending (h : Holdings) (keys : List ElementKey) : Prop := ∀ k ∈ keys, h.cache.get k = .miss

/-- The keys of the alterations that are held. -/
def alterationKeys (h : Holdings) : List ElementKey :=
  h.alterations.handles.map fun a => h.schema.keyOf a.element

section
variable {h h' : Holdings} {r keys : List ElementKey} {name : String} {added : List Handle}
  {values values' : List (Option String)} {a x : Handle} {o : Option Handle} {s : StoreId}
  {outside : List Handle} {k : ElementKey} {depth : Nat}

/-! ## Keys that are being resolved -/

namespace Pending

theorem findIn (hp : h.Pending keys) : (h.findIn s name values).2.Pending keys := by
  intro k hk
  exact (get_findIn_known s name values (by simp [hp k hk])).trans (hp k hk)

theorem afterFind (hp : h.Pending keys) : (h.afterFind name values).Pending keys := hp.findIn.findIn

/-- A key that a lookup misses joins them. -/
theorem afterFind_cons (hp : h.Pending keys) (hm : (h.findIn .main name values).1 = none) :
    (h.afterFind name values).Pending (.of name values .main :: keys) := by
  refine findIn fun k hk => ?_
  rcases List.mem_cons.1 hk with rfl | hk
  · exact (get_findIn_self .main name values).trans (by rw [hm])
  · exact hp.findIn k hk

theorem settle (hp : h.Pending keys) (hk : k ∉ keys) (a : Handle) (b : Option Handle) :
    (h.settle k a b).2.Pending keys := by
  intro q hq
  have hne : k ≠ q := fun he => hk (he ▸ hq)
  cases b <;> exact (get_remember _ _ _ _).trans ((if_neg hne).trans (hp q hq))

/-- They have no element when a call comes back to them, and none when it ends. -/
theorem resolve (hp : h.Pending r) : (h.resolve r name values).2.Pending r := by
  induction h, r, values using resolve_induction (n := name) with
  | found hm => rw [resolve_found hm]; exact hp.findIn
  | open_ hm hk => rw [resolve_open hm hk]; exact hp.findIn
  | missing hm hk ha => rw [resolve_missing hm hk ha]; exact hp.afterFind
  | alone hm hk ha hb =>
    rw [resolve_alone hm hk ha hb]
    exact hp.afterFind.settle hk _ none
  | based hm hk ha hb ih =>
    rw [resolve_based hm hk ha hb]
    have hrest := ih (hp.afterFind_cons hm)
    exact settle (fun q hq => hrest q (List.mem_cons_of_mem _ hq)) hk _ _

theorem resolve_again (hp : h.Pending r) (hk : ElementKey.of name values .main ∈ r) :
    (h.resolve r name values).1 = none := by
  have hm : (h.findIn .main name values).1 = none := by rw [findIn_of_miss (hp _ hk)]
  rw [resolve_open hm hk]

end Pending

/-- A lookup in one store does not change what another answers. -/
theorem findIn_findIn {s' : StoreId} (hs : s ≠ s') :
    ((h.findIn s name values).2.findIn s' name values').1 = (h.findIn s' name values').1 := by
  have hget : (h.findIn s name values).2.cache.get (.of name values' s') =
      h.cache.get (.of name values' s') := by
    unfold findIn
    split
    · rfl
    · rfl
    · refine (get_remember h _ _ _).trans (if_neg fun he => hs ?_)
      exact congrArg ElementKey.store he
  have hsearch : (h.findIn s name values).2.search s' name values' = h.search s' name values' := by
    rw [search, store_findIn, schema_findIn]
    rfl
  rw [findIn, hget, hsearch]
  conv => rhs; rw [findIn]
  split <;> rfl

/-- A derived element whose base leads back to a key that is being resolved, or to its
own, is taken as it is. -/
theorem resolve_back (hp : h.Pending r) (hk : ElementKey.of name values .main ∉ r)
    (hm : (h.findIn .main name values).1 = none)
    (ha : ((h.findIn .main name values).2.findIn .alterations name values).1 = some a)
    (hb : a.element.base.bind (baseValues values) = some values')
    (hback : ElementKey.of name values' .main ∈ .of name values .main :: r) :
    (h.resolve r name values).1 = some a := by
  rw [resolve_based hm hk ha hb]
  simp only [(hp.afterFind_cons hm).resolve_again hback]
  rfl

/-! ## Depth -/

theorem alterationKeys_findIn (h : Holdings) (s : StoreId) (name : String)
    (values : List (Option String)) : (h.findIn s name values).2.alterationKeys = h.alterationKeys := by
  have ha : (h.findIn s name values).2.alterations = h.alterations :=
    store_findIn h s .alterations name values
  rw [alterationKeys, ha, schema_findIn]
  rfl

theorem alterationKeys_afterFind (h : Holdings) (name : String) (values : List (Option String)) :
    (h.afterFind name values).alterationKeys = h.alterationKeys := by
  rw [afterFind, alterationKeys_findIn, alterationKeys_findIn]

/-- Only a key that has an alteration is resolved further. -/
theorem Recalls.mem_alterationKeys (hr : Recalls h)
    (hv : values.length = (h.schema.attrsFor name).length)
    (ha : (h.findIn .alterations name values).1 = some a) :
    ElementKey.of name values .main ∈ h.alterationKeys :=
  List.mem_map.2 ⟨a, hr.mem_of_findIn ha, hr.keyOf_findIn hv ha⟩

/-- A lookup never nests deeper than there are keys of alterations that are not being
resolved yet. -/
theorem resolveWithin_eq (hr : Recalls h) (hc : Coherent outside h)
    (hv : values.length = (h.schema.attrsFor name).length)
    (hd : (itemsOutside r h.alterationKeys).length < depth) :
    h.resolveWithin depth r name values =
      some ((h.resolve r name values).1, (h.resolve r name values).2, r) := by
  induction h, r, values using resolve_induction (n := name) generalizing depth with
  | @found h r values x hm =>
    obtain ⟨depth, rfl⟩ := Nat.exists_eq_add_of_lt hd
    have hmain : h.findIn .main name values = (some x, (h.findIn .main name values).2) := by rw [← hm]
    rw [resolve_found hm, resolveWithin, hmain]
  | @open_ h r values hm hk =>
    obtain ⟨depth, rfl⟩ := Nat.exists_eq_add_of_lt hd
    have hmain : h.findIn .main name values = (none, (h.findIn .main name values).2) := by rw [← hm]
    rw [resolve_open hm hk, resolveWithin, hmain]
    exact if_pos hk
  | @missing h r values hm hk ha =>
    obtain ⟨depth, rfl⟩ := Nat.exists_eq_add_of_lt hd
    have hmain : h.findIn .main name values = (none, (h.findIn .main name values).2) := by rw [← hm]
    have halt : (h.findIn .main name values).2.findIn .alterations name values =
        (none, h.afterFind name values) := by rw [← ha]; rfl
    rw [resolve_missing hm hk ha, resolveWithin, hmain]
    simp only [if_neg hk, halt]
  | @alone h r values a hm hk ha hb =>
    obtain ⟨depth, rfl⟩ := Nat.exists_eq_add_of_lt hd
    have hmain : h.findIn .main name values = (none, (h.findIn .main name values).2) := by rw [← hm]
    have halt : (h.findIn .main name values).2.findIn .alterations name values =
        (some a, h.afterFind name values) := by rw [← ha]; rfl
    rw [resolve_alone hm hk ha hb, resolveWithin, hmain]
    simp only [if_neg hk, halt, hb]
  | @based h r values a values' hm hk ha hb ih =>
    obtain ⟨base, hbase, hvals⟩ := Option.bind_eq_some_iff.1 hb
    have hmem := (hr.findIn hv).mem_alterationKeys (by rwa [schema_findIn]) ha
    rw [alterationKeys_findIn] at hmem
    -- The key was not being resolved, so one key less is left to be met.
    have hless := length_outside_lt (fun q hq => hq) hmem hk
    obtain ⟨depth, rfl⟩ : ∃ d, depth = d + 1 := ⟨depth - 1, by omega⟩
    have hmain : h.findIn .main name values = (none, (h.findIn .main name values).2) := by rw [← hm]
    have halt : (h.findIn .main name values).2.findIn .alterations name values =
        (some a, h.afterFind name values) := by rw [← ha]; rfl
    have hrest := @ih depth (hr.afterFind hv) hc.afterFind
      (by rw [schema_afterFind, length_baseValues hvals, hv])
      (by rw [alterationKeys_afterFind]; omega)
    rw [resolve_based hm hk ha hb, resolveWithin, hmain]
    simp only [if_neg hk, halt, hb, hrest, List.erase_cons_head]

/-! ## What is pushed -/

/-- What a lookup adds to the served elements: no two of one key, and none of a key
that is being resolved. -/
structure Pushes (h h' : Holdings) (resolving : List ElementKey) (added : List Handle) : Prop where
  handles : h'.main.handles = h.main.handles ++ added
  nodup : (added.map fun x => h.schema.keyOf x.element).Nodup
  apart : ∀ x ∈ added, h.schema.keyOf x.element ∉ resolving

theorem handles_settle (h : Holdings) (k : ElementKey) (a : Handle) (b : Option Handle) :
    (h.settle k a b).2.main.handles = h.main.handles ++ [(h.settle k a b).1] := by
  cases b <;> rfl

theorem main_afterFind (h : Holdings) (name : String) (values : List (Option String)) :
    (h.afterFind name values).main = h.main := by
  have hmain := store_findIn h .main .main name values
  exact (store_findIn (h.findIn .main name values).2 .alterations .main name values).trans hmain

namespace Pushes

theorem none (he : h'.main = h.main) : Pushes h h' r [] :=
  ⟨by rw [he, List.append_nil], List.nodup_nil, fun x hx => by cases hx⟩

theorem of_afterFind (hp : Pushes (h.afterFind name values) h' r added) : Pushes h h' r added where
  handles := by rw [hp.handles, main_afterFind]
  nodup := by simpa only [schema_afterFind] using hp.nodup
  apart := by simpa only [schema_afterFind] using hp.apart

/-- What the base of a key has added is of other keys, as the key was being resolved. -/
theorem settle {b : Option Handle} (hp : Pushes h h' (k :: r) added) (hk : k ∉ r)
    (hkey : h.schema.keyOf (h'.settle k a b).1.element = k) :
    Pushes h (h'.settle k a b).2 r (added ++ [(h'.settle k a b).1]) := by
  refine ⟨?_, ?_, fun x hx => ?_⟩
  · rw [handles_settle, hp.handles, List.append_assoc]
  · rw [List.map_append, List.nodup_append]
    refine ⟨hp.nodup, by simp, ?_⟩
    intro q hq q' hq' he
    obtain ⟨y, hy, rfl⟩ := List.mem_map.1 hq
    rw [List.map_singleton, List.mem_singleton, hkey] at hq'
    exact hp.apart y hy (by rw [he, hq']; exact List.mem_cons_self)
  · rcases List.mem_append.1 hx with hx | hx
    · exact fun hmem => hp.apart x hx (List.mem_cons_of_mem _ hmem)
    · rw [List.mem_singleton.1 hx, hkey]
      exact hk

end Pushes

/-- Each level of a lookup adds one element at most, that of its own key, which is the key of an
alteration. -/
theorem exists_derived_pushes_resolve (hr : Recalls h) (hc : Coherent outside h)
    (hv : values.length = (h.schema.attrsFor name).length) :
    ∃ added, Pushes h (h.resolve r name values).2 r added ∧
      ∀ x ∈ added, h.schema.keyOf x.element ∈ h.alterationKeys := by
  induction h, r, values using resolve_induction (n := name) with
  | found hm =>
    rw [resolve_found hm]
    exact ⟨[], .none (store_findIn _ _ .main _ _), fun x hx => by cases hx⟩
  | open_ hm hk =>
    rw [resolve_open hm hk]
    exact ⟨[], .none (store_findIn _ _ .main _ _), fun x hx => by cases hx⟩
  | missing hm hk ha =>
    rw [resolve_missing hm hk ha]
    exact ⟨[], .none (main_afterFind _ _ _), fun x hx => by cases hx⟩
  | alone hm hk ha hb =>
    have hkey := hr.keyOf_resolve hc hv (congrArg Prod.fst (resolve_alone hm hk ha hb))
    have hmem := (hr.findIn hv).mem_alterationKeys (by rwa [schema_findIn]) ha
    rw [alterationKeys_findIn, ← hkey] at hmem
    rw [resolve_alone hm hk ha hb]
    refine ⟨_, (Pushes.none (main_afterFind _ _ _)).settle hk hkey, fun x hx => ?_⟩
    rwa [List.mem_singleton.1 hx]
  | based hm hk ha hb ih =>
    obtain ⟨base, hbase, hvals⟩ := Option.bind_eq_some_iff.1 hb
    have hkey := hr.keyOf_resolve hc hv (congrArg Prod.fst (resolve_based hm hk ha hb))
    have hmem := (hr.findIn hv).mem_alterationKeys (by rwa [schema_findIn]) ha
    rw [alterationKeys_findIn, ← hkey] at hmem
    obtain ⟨added, hadded, hderived⟩ := ih (hr.afterFind hv) hc.afterFind
      (by rw [schema_afterFind, length_baseValues hvals, hv])
    rw [schema_afterFind, alterationKeys_afterFind] at hderived
    rw [resolve_based hm hk ha hb]
    refine ⟨_, hadded.of_afterFind.settle hk hkey, fun x hx => ?_⟩
    rcases List.mem_append.1 hx with hx | hx
    · exact hderived x hx
    · rwa [List.mem_singleton.1 hx]

theorem exists_pushes_resolve (hr : Recalls h) (hc : Coherent outside h)
    (hv : values.length = (h.schema.attrsFor name).length) :
    ∃ added, Pushes h (h.resolve r name values).2 r added :=
  (exists_derived_pushes_resolve hr hc hv).imp fun _ => And.left

/-- A key that has an alteration is answered, unless it is being resolved. -/
theorem isSome_resolve (hr : Recalls h) (hv : values.length = (h.schema.attrsFor name).length)
    (hk : ElementKey.of name values .main ∉ r)
    (ha : ElementKey.of name values .main ∈ h.alterationKeys) :
    (h.resolve r name values).1.isSome = true := by
  cases hm : (h.findIn .main name values).1 with
  | some x => rw [resolve_found hm]; rfl
  | none =>
    -- What is held is remembered, so it is found.
    rw [← alterationKeys_findIn h .main name values] at ha
    obtain ⟨a, hmem, hkey⟩ := List.mem_map.1 ha
    obtain ⟨y, hy⟩ := (hr.findIn hv).known a hmem
    rw [hkey] at hy
    have halt : ((h.findIn .main name values).2.findIn .alterations name values).1 = some y :=
      findIn_remembered hy
    cases hb : y.element.base.bind (baseValues values) with
    | none => rw [resolve_alone hm hk halt hb]; rfl
    | some values' => rw [resolve_based hm hk halt hb]; rfl

end

end Holdings

open Holdings

/-- Whatever the bases of derived elements lead to, a lookup ends: it nests at most one
level deeper than there are alterations, and the keys that are being resolved come back
as they were, none if there were none. It pushes at most one element of each key. A
key that is being resolved has no element, so a derived element whose base leads back
to one is taken as it is; and a key that has a derived element is answered. -/
theorem resolving_ends {w : Workspace} (hw : Reachable w) {resolving : List ElementKey}
    (hp : w.inventory.holdings.Pending resolving) (name : String) (values : List (Option String)) :
    let h := w.inventory.holdings
    let fitting := h.schema.fit name values
    let k := h.schema.keyAt name values
    let answer := h.resolve resolving name fitting
    (∀ depth, h.alterations.size < depth →
      h.resolveWithin depth resolving name fitting = some (answer.1, answer.2, resolving)) ∧
    (∃ added, Pushes h answer.2 resolving added) ∧
    (k ∈ resolving → answer.1 = none) ∧
    (∀ a base back, k ∉ resolving → (h.findIn .main name fitting).1 = none →
      (h.getAlteration name values).1 = some a → a.element.base = some base →
      k.based base = some back → back ∈ k :: resolving → answer.1 = some a) ∧
    (∀ a ∈ h.alterations.handles, h.schema.keyOf a.element = k → k ∉ resolving →
      answer.1.isSome = true) := by
  intro h fitting k answer
  have hr : Recalls h := hw.recalls
  have hc : Coherent [] h := hw.coherent
  have hv : fitting.length = (h.schema.attrsFor name).length := KeySchema.length_fit _ _ _
  refine ⟨fun depth hd => ?_, exists_pushes_resolve hr hc hv, hp.resolve_again, ?_, ?_⟩
  · refine resolveWithin_eq hr hc hv (Nat.lt_of_le_of_lt ?_ hd)
    have hsub : ∀ q ∈ itemsOutside resolving h.alterationKeys, q ∈ h.alterationKeys :=
      fun q hq => (mem_itemsOutside.1 hq).1
    have hle := length_le_of_nodup_of_subset ((nodup_distinctItems _).filter _) hsub
    rwa [alterationKeys, List.length_map] at hle
  · intro a base back hout hm ha hb hbased hback
    obtain ⟨values', hv', rfl⟩ := Option.map_eq_some_iff.1
      ((map_baseValues name fitting base .main).trans hbased)
    refine resolve_back hp hout hm ?_ (by rw [hb]; exact hv') hback
    rw [findIn_findIn (by simp)]
    exact ha
  · intro a ha hk hout
    exact isSome_resolve hr hv hout (List.mem_map.2 ⟨a, ha, hk⟩)

/-- Two parts that are derived from each other, one of them under capitals, and one that
is derived from itself. -/
def headPart : Element := .part [("id", "head"), ("base", "tail")]

def tailPart : Element := .part [("id", "tail"), ("base", "HEAD")]

def loopPart : Element := .part [("id", "loop"), ("base", "Loop")]

/-- A workspace to which they were added. -/
def Workspace.ofRing : Workspace :=
  [headPart, tailPart, loopPart].zipIdx.foldl
    (fun w e => (w.run (.make e.1)).run (.add (.fresh e.2 e.1))) (.blank .parts)

theorem reachable_ofRing : Reachable .ofRing := by
  have hadd : ∀ {w : Workspace}, Reachable w → ∀ e, Reachable ((w.run (.make e)).run
      (.add (.fresh w.inventory.holdings.nextSerial e))) := fun hw e =>
    (hw.step (r := .make e) trivial).step (hw.made e)
  exact hadd (hadd (hadd (reachable_blank .parts) headPart) tailPart) loopPart

/-- Whatever is asked for first, each of them is answered, with three levels at most,
and the part that is derived from itself is taken as it is. -/
theorem resolving_ends_ring :
    let h := Workspace.ofRing.inventory.holdings
    Reachable .ofRing ∧ h.Pending [] ∧
      (∀ depth, 3 < depth → h.resolveWithin depth [] "part" [some "Head"] =
        some ((h.getElement "part" [some "Head"]).1, (h.getElement "part" [some "Head"]).2, [])) ∧
      (h.getElement "part" [some "Head"]).1.isSome = true ∧
      (h.getElement "part" [some "LOOP"]).1 = some (.fresh 2 loopPart) := by
  intro h
  have hp : h.Pending [] := fun k hk => by cases hk
  obtain ⟨hdepth, -, -, -, hsome⟩ := resolving_ends reachable_ofRing hp "part" [some "Head"]
  obtain ⟨-, -, -, hback, -⟩ := resolving_ends reachable_ofRing hp "part" [some "LOOP"]
  refine ⟨reachable_ofRing, hp, hdepth, ?_, ?_⟩
  · exact hsome (.fresh 0 headPart) List.mem_cons_self (by decide) List.not_mem_nil
  · exact hback (.fresh 2 loopPart) "Loop" (h.schema.keyAt "part" [some "loop"]) List.not_mem_nil rfl
      rfl (by decide) (by decide) (by decide)

end TemplateInventory
