import TemplateInventory.Proofs.Reachable
import TemplateInventory.Registry
/-!
# Names and scopes of a registry

A registry is asked by a name and a scope, and it keeps one table of texts. What a pair
of a name and a scope should hold is `Registry.standing`: what the calls for that pair
made of it, whatever the others did.

The text of a pair is its name, a `$` and its scope. So two pairs have one text exactly
if the name of one goes on after the name of the other with a `$`
(`Place.key_eq_iff`). As long as no call is for such a pair, a registry is a map on
names and scopes (`get?_run`). Where one is, an inventory takes the place of another
project's (`projects_collide`).
-/

namespace TemplateInventory

namespace Registry

/-- What an inventory is registered for: a name and a scope, if there is one. -/
structure Place where
  name : String
  scope : Option String
  scope_ne : scope ≠ some ""
  deriving DecidableEq

namespace Place

/-- The place of a name and a scope; an empty scope is none. -/
def of (name : String) (scope : Option String) : Place :=
  ⟨name, scope.filter (· != ""), by simp [Option.filter_eq_some_iff]⟩

/-- The text under which a place is kept. -/
def key (p : Place) : String := Registry.key p.name p.scope

@[simp] theorem key_of (name : String) (scope : Option String) :
    (of name scope).key = Registry.key name scope := by
  simp [key, of, Registry.key, Option.filter_filter]

theorem key_alone {p : Place} (h : p.scope = none) : p.key = p.name := by
  simp [key, Registry.key, h]

theorem key_scoped {p : Place} (s : String) (h : p.scope = some s) :
    p.key = p.name ++ "$" ++ s := by
  have hne : s ≠ "" := fun he => p.scope_ne (he ▸ h)
  simp [key, Registry.key, h, Option.filter, hne]

/-- `p` names what `q` names, a `$` and more, and the scope of `q` is what comes then. -/
def Extends (p q : Place) : Prop :=
  ∃ more, p.name = q.name ++ "$" ++ more ∧
    q.scope = some (match p.scope with
      | none => more
      | some scope => more ++ "$" ++ scope)

/-- Two texts with a `$` in them are cut at the same one, or one text goes on after the
`$` at which the other is cut. -/
theorem append_dollar_eq_iff (a b s t : List Char) :
    a ++ '$' :: s = b ++ '$' :: t ↔
      (a = b ∧ s = t) ∨ (∃ m, a = b ++ '$' :: m ∧ t = m ++ '$' :: s) ∨
        ∃ m, b = a ++ '$' :: m ∧ s = m ++ '$' :: t := by
  constructor
  · intro h
    rcases List.append_eq_append_iff.1 h with ⟨m, hb, hs⟩ | ⟨m, ha, ht⟩
    · cases m with
      | nil => exact .inl ⟨by simpa using hb.symm, by simpa using hs⟩
      | cons c m =>
        rw [List.cons_append, List.cons.injEq] at hs
        exact .inr (.inr ⟨m, by rw [hb, hs.1], hs.2⟩)
    · cases m with
      | nil => exact .inl ⟨by simpa using ha, by simpa using ht.symm⟩
      | cons c m =>
        rw [List.cons_append, List.cons.injEq] at ht
        exact .inr (.inl ⟨m, by rw [ha, ht.1], ht.2⟩)
  · rintro (⟨rfl, rfl⟩ | ⟨m, rfl, rfl⟩ | ⟨m, rfl, rfl⟩) <;> simp

theorem text_dollar_eq_iff (a b s t : String) :
    a ++ "$" ++ s = b ++ "$" ++ t ↔
      (a = b ∧ s = t) ∨ (∃ m, a = b ++ "$" ++ m ∧ t = m ++ "$" ++ s) ∨
        ∃ m, b = a ++ "$" ++ m ∧ s = m ++ "$" ++ t := by
  have hchars : ∀ x y : String, (x ++ "$" ++ y).toList = x.toList ++ '$' :: y.toList := by
    intro x y
    simp
  have hex : ∀ x y u v : String, (∃ m : String, x = y ++ "$" ++ m ∧ u = m ++ "$" ++ v) ↔
      ∃ m : List Char, x.toList = y.toList ++ '$' :: m ∧ u.toList = m ++ '$' :: v.toList := by
    intro x y u v
    constructor
    · rintro ⟨m, rfl, rfl⟩
      exact ⟨m.toList, hchars y m, hchars m v⟩
    · rintro ⟨m, hx, hu⟩
      refine ⟨String.ofList m, String.toList_inj.1 ?_, String.toList_inj.1 ?_⟩
      · rw [hchars, String.toList_ofList, hx]
      · rw [hchars, String.toList_ofList, hu]
  rw [← String.toList_inj, hchars, hchars, append_dollar_eq_iff, hex, hex, String.toList_inj,
    String.toList_inj]

/-- Two places have one text if they are one place, or one extends the other. -/
theorem key_eq_iff (p q : Place) : p.key = q.key ↔ p = q ∨ p.Extends q ∨ q.Extends p := by
  rcases p with ⟨n, ps, hp⟩
  rcases q with ⟨m, qs, hq⟩
  cases ps with
  | none =>
    cases qs with
    | none => simp [key_alone, Extends]
    | some t => simp [key_alone, key_scoped t, Extends]
  | some s =>
    cases qs with
    | none => simp [key_alone, key_scoped s, Extends, eq_comm]
    | some t => simp [key_scoped s, key_scoped t, Extends, text_dollar_eq_iff]

end Place

/-- `p` and `q` are one place, or neither of them extends the other. -/
def Place.Apart (p q : Place) : Prop := p = q ∨ (¬ p.Extends q ∧ ¬ q.Extends p)

theorem Place.Apart.eq_of_key {p q : Place} (h : p.Apart q) (hkey : p.key = q.key) : p = q := by
  rcases (key_eq_iff p q).1 hkey with heq | hext | hext
  · exact heq
  · exact h.resolve_right fun hn => hn.1 hext
  · exact h.resolve_right fun hn => hn.2 hext

/-- Only names with a `$` go on after another name. -/
theorem Place.apart_of_plain {p q : Place} (hp : '$' ∉ p.name.toList) (hq : '$' ∉ q.name.toList) :
    p.Apart q := by
  refine .inr ⟨?_, ?_⟩
  · rintro ⟨more, hname, -⟩
    exact hp (by simp [hname])
  · rintro ⟨more, hname, -⟩
    exact hq (by simp [hname])

/-! ## Calls -/

/-- A call of a registry. -/
inductive Call where
  | set (name : String) (scope : Option String) (i : Inventory)
  | remove (name : String) (scope : Option String)
  | get (name : String) (scope : Option String)
  /-- The inventory is asked for in order to be changed. -/
  | update (name : String) (scope : Option String) (f : Inventory → Inventory)

/-- What a call is for. -/
def Call.place : Call → Place
  | .set name scope _ | .remove name scope | .get name scope | .update name scope _ =>
    .of name scope

/-- The registry after a call. -/
def after (r : Registry) : Call → Registry
  | .set name scope i =>
    match r.set name scope i with
    | .ok (_, r) => r
    | .error _ => r
  | .remove name scope => (r.remove name scope).2
  | .get _ _ => r
  | .update name scope f => r.update name scope f

/-- The registry after calls of a new one. -/
def run (calls : List Call) : Registry := calls.foldl after empty

/-- The inventory can be registered so: there is a name, and its own scope, if it has
one, is the one it is registered for. -/
def Fits (name : String) (scope : Option String) (i : Inventory) : Prop :=
  name ≠ "" ∧ (i.scope = none ∨ i.scope = scope)

instance (name : String) (scope : Option String) (i : Inventory) : Decidable (Fits name scope i) :=
  inferInstanceAs (Decidable (_ ∧ _))

/-- What a call for a place makes of what the place held. -/
def Call.apply (held : Option Inventory) : Call → Option Inventory
  | .set name scope i => if Fits name scope i then some { i with scope := scope } else held
  | .remove _ _ => none
  | .get _ _ => held
  | .update _ _ f => held.map f

/-- What a place holds after a call; one for another place does not count. -/
def standingAfter (p : Place) (held : Option Inventory) (c : Call) : Option Inventory :=
  if c.place = p then c.apply held else held

/-- What a place holds after calls of a new registry. -/
def standing (p : Place) (calls : List Call) : Option Inventory :=
  calls.foldl (standingAfter p) none

/-- An inventory is registered if it fits, and nothing changes if it does not. -/
theorem set_cases (r : Registry) (name : String) (scope : Option String) (i : Inventory) :
    (Fits name scope i ∧ r.set name scope i = .ok (r.get? name scope,
      ⟨r.inventories.put (Registry.key name scope) { i with scope := scope }⟩)) ∨
    (¬ Fits name scope i ∧ ∃ e, r.set name scope i = .error e) := by
  unfold Fits set bind
  by_cases hname : name = ""
  · exact .inr ⟨fun h => h.1 hname, _, if_pos hname⟩
  · rw [if_neg hname]
    cases hown : i.scope with
    | none => exact .inl ⟨⟨hname, .inl rfl⟩, rfl⟩
    | some own =>
      by_cases hscope : scope = some own
      · refine .inl ⟨⟨hname, .inr hscope.symm⟩, ?_⟩
        simp only [hscope, if_true, Except.map, ← hown]
      · refine .inr ⟨?_, .registry (.otherScope own scope), ?_⟩
        · rintro ⟨-, h | h⟩
          · simp at h
          · exact hscope h.symm
        · simp only [hscope, if_false, Except.map]

/-- What a registry holds under a text after a call: the call changes what is held under
the text of its own place, and nothing else. -/
theorem get?_after (r : Registry) (c : Call) (k : String) :
    (r.after c).inventories.get? k =
      if c.place.key = k then c.apply (r.inventories.get? k) else r.inventories.get? k := by
  cases c with
  | set name scope i =>
    obtain ⟨hfits, hset⟩ | ⟨hfits, e, hset⟩ := r.set_cases name scope i
    · simp [after, hset, Call.place, Call.apply, hfits]
    · simp [after, hset, Call.place, Call.apply, hfits]
  | remove name scope => simp [after, remove, Call.place, Call.apply]
  | get name scope => simp [after, Call.apply]
  | update name scope f =>
    by_cases hk : Registry.key name scope = k
    · subst hk
      cases hheld : r.inventories.get? (Registry.key name scope) with
      | none => simp [after, update, get?, hheld, Call.place, Call.apply]
      | some i => simp [after, update, get?, hheld, Call.place, Call.apply]
    · cases hheld : r.inventories.get? (Registry.key name scope) with
      | none => simp [after, update, get?, hheld, Call.place, hk]
      | some i => simp [after, update, get?, hheld, Call.place, hk]

theorem get?_foldl_after (p : Place) {r : Registry} {held : Option Inventory} {calls : List Call}
    (hr : r.inventories.get? p.key = held) (hc : ∀ c ∈ calls, c.place.Apart p) :
    (calls.foldl after r).inventories.get? p.key = calls.foldl (standingAfter p) held := by
  induction calls generalizing r held with
  | nil => exact hr
  | cons c rest ih =>
    refine ih ?_ fun c' hc' => hc c' (List.mem_cons_of_mem c hc')
    rw [get?_after, hr, standingAfter]
    by_cases hp : c.place = p
    · rw [if_pos (congrArg Place.key hp), if_pos hp]
    · rw [if_neg fun hk => hp ((hc c List.mem_cons_self).eq_of_key hk), if_neg hp]

/-- After any calls, a lookup finds what the calls for its name and scope have left, if no
call is for another place that extends it or that it extends. -/
theorem get?_run (calls : List Call) (name : String) (scope : Option String)
    (h : ∀ c ∈ calls, c.place.Apart (.of name scope)) :
    (run calls).get? name scope = standing (.of name scope) calls := by
  rw [get?, ← Place.key_of]
  exact get?_foldl_after (.of name scope) (Table.get?_empty _) h

/-- Two projects keep their layouts side by side. The second cannot take over those of
the first, and the copy that no project owns is taken away again. -/
def sideBySide : List Call :=
  let i := Workspace.ofParts.inventory
  [.set "layouts" (some "Sena") { i with version := 1 }, .set "layouts" none { i with version := 2 },
    .set "layouts" (some "Sena") { i with version := 3, scope := some "Malay" },
    .set "layouts" (some "Malay") { i with version := 4 }, .get "layouts" (some "Sena"),
    .update "layouts" (some "Malay") ({ · with version := 5 }), .remove "layouts" (some "")]

theorem get?_run_sideBySide :
    (∀ c ∈ sideBySide, c.place.Apart (.of "layouts" (some "Sena"))) ∧
      (run sideBySide).get? "layouts" (some "Sena") =
        standing (.of "layouts" (some "Sena")) sideBySide ∧
      (standing (.of "layouts" (some "Sena")) sideBySide).map (·.version) = some 1 := by
  have hplain : ∀ c ∈ sideBySide, '$' ∉ c.place.name.toList := by decide
  have hapart : ∀ c ∈ sideBySide, c.place.Apart (.of "layouts" (some "Sena")) :=
    fun c hc => Place.apart_of_plain (hplain c hc) (by decide)
  exact ⟨hapart, get?_run sideBySide "layouts" (some "Sena") hapart, by decide⟩

/-- The layouts of a project, and then an inventory whose name ends in `$` and the
project. -/
def colliding : List Call :=
  let i := Workspace.ofParts.inventory
  [.set "layouts" (some "Sena") { i with version := 1 },
    .set "layouts$Sena" none { i with version := 2 }]

/-- The inventory of another name takes the place of the one of the project. -/
theorem projects_collide :
    (standing (.of "layouts" (some "Sena")) colliding).map (·.version) = some 1 ∧
      ((run colliding).get? "layouts" (some "Sena")).map (·.version) = some 2 := by
  decide

end Registry

end TemplateInventory
