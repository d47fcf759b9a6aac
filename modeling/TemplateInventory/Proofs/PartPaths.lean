import TemplateInventory.Override
/-!
# What an override changes

The steps of a display path ask for one thing after the other: for an indent, for a part. A
`Stop` tells which children will do and what is appended where none does, so an override is
made by going down through the stops of its path (`Edit.along_eq_through`).

`Edit.Follows` says what that comes to. At each level the first child that will do is changed,
or a new one comes last; nothing else is touched, so whatever is not on the way to the edited
part is where it was (`Edit.Follows.at?_of_not_prefix`).

A path has an override if it has a start, which is said by `Override.Starts` without
searching for it, and shows a part with a reference after that (`override_edits_one_path`).
-/

namespace TemplateInventory

/-- What a display path asks for below a node: which children will do, and what is appended
where none does. -/
structure Stop where
  isIt : Element → Bool
  new : Element
  /-- What the new element is taken over from. -/
  source : Option Handle

/-- What a step asks for, an indent before its part. -/
def PartStep.stops (s : PartStep) : List Stop :=
  (s.indent.map fun h => ⟨(·.name = h.element.name), h.element, some h⟩).toList ++
    [⟨s.isFor, s.newPart, none⟩]

namespace PathNode

/-- Whether a node of a path is a sublayout. -/
def IsSublayout (n : PathNode) : Prop := n.node.element.name = "sublayout"

/-- Whether a node of a path is a part with a reference. -/
def ShowsPart (n : PathNode) (ref : String) : Prop :=
  n.node.element.name = "part" ∧ n.node.element.attr "ref" = some ref

end PathNode

namespace Edit

/-- Sets an attribute at the end of the stops. -/
def through (attr value : String) : List Stop → Element → Edit
  | [], e => ⟨e.setAttr attr value, [], []⟩
  | t :: ts, e => within t.isIt t.new t.source (through attr value ts) e

/-- Setting an attribute at a place that is reached through stops. Each node on the way has
the first child that will do changed, or where none does, the new one appended. -/
inductive Follows (attr value : String) : List Stop → List Nat → Element → Element → Prop
  | here (e : Element) : Follows attr value [] [] e (e.setAttr attr value)
  | into {t : Stop} {ts : List Stop} {place : List Nat} {e c c' : Element}
      {before after : List Element} (he : e.children = before ++ c :: after)
      (hc : t.isIt c = true) (hbefore : ∀ b ∈ before, t.isIt b = false)
      (h : Follows attr value ts place c c') :
      Follows attr value (t :: ts) (before.length :: place) e
        { e with children := before ++ c' :: after }
  | appended {t : Stop} {ts : List Stop} {place : List Nat} {e c' : Element}
      (hnone : ∀ c ∈ e.children, t.isIt c = false) (h : Follows attr value ts place t.new c') :
      Follows attr value (t :: ts) (e.children.length :: place) e (e.push c')

section
variable {attr value : String} {isIt : Element → Bool} {c e e' x : Element}
  {before after : List Element}
  {t : Stop} {ts : List Stop} {place q : List Nat}

/-! ## One level -/

/-- The first child that will do is changed. -/
theorem within_of_found (new : Element) (source : Option Handle) (change : Element → Edit)
    (he : e.children = before ++ c :: after) (hc : isIt c = true)
    (hbefore : ∀ b ∈ before, isIt b = false) :
    (within isIt new source change e).element =
        { e with children := before ++ (change c).element :: after } ∧
      (within isIt new source change e).place = before.length :: (change c).place := by
  have hi : e.children.findIdx? isIt = some before.length := by
    rw [he, List.findIdx?_append, List.findIdx?_eq_none_iff.2 hbefore, List.findIdx?_cons, if_pos hc]
    simp
  have hat : e.children[before.length]? = some c := by
    rw [he, List.getElem?_append_right (Nat.le_refl _), Nat.sub_self]
    rfl
  have hset : ∀ d, e.children.set before.length d = before ++ d :: after := by
    intro d
    rw [he, List.set_append_right _ _ (Nat.le_refl _), Nat.sub_self, List.set_cons_zero]
  unfold within
  simp only [hi, hat, Option.getD_some, hset, and_self]

/-- Where no child will do, a new one comes last. -/
theorem within_of_none (new : Element) (source : Option Handle) (change : Element → Edit)
    (hnone : ∀ c ∈ e.children, isIt c = false) :
    (within isIt new source change e).element = e.push (change new).element ∧
      (within isIt new source change e).place = e.children.length :: (change new).place := by
  unfold within
  simp only [List.findIdx?_eq_none_iff.2 hnone, and_self]

/-- The children in front of the first that will do, or all of them. -/
theorem found_or_none (isIt : Element → Bool) (cs : List Element) :
    (∃ before c after, cs = before ++ c :: after ∧ isIt c = true ∧
        ∀ b ∈ before, isIt b = false) ∨
      ∀ c ∈ cs, isIt c = false := by
  cases hf : cs.find? isIt with
  | none => exact .inr fun c hc => by simpa using List.find?_eq_none.1 hf c hc
  | some c =>
    obtain ⟨hc, before, after, hcs, hbefore⟩ := List.find?_eq_some_iff_append.1 hf
    exact .inl ⟨before, c, after, hcs, hc, fun b hb => by simpa using hbefore b hb⟩

/-! ## All levels -/

theorem along_eq_through (attr value : String) (steps : List PartStep) :
    along attr value steps = through attr value (steps.flatMap PartStep.stops) := by
  induction steps with
  | nil => rfl
  | cons s steps ih =>
    funext e
    rw [along, List.flatMap_cons, PartStep.stops]
    cases s.indent with
    | none => simp only [ih]; rfl
    | some h => simp only [ih]; rfl

theorem follows_through (attr value : String) (ts : List Stop) (e : Element) :
    Follows attr value ts (through attr value ts e).place e (through attr value ts e).element := by
  induction ts generalizing e with
  | nil => exact .here e
  | cons t ts ih =>
    rw [through]
    rcases found_or_none t.isIt e.children with ⟨before, c, after, he, hc, hbefore⟩ | hnone
    · obtain ⟨helement, hplace⟩ := within_of_found t.new t.source (through attr value ts)
        he hc hbefore
      rw [helement, hplace]
      exact .into he hc hbefore (ih c)
    · obtain ⟨helement, hplace⟩ := within_of_none t.new t.source (through attr value ts)
        hnone
      rw [helement, hplace]
      exact .appended hnone (ih t.new)

namespace Follows

/-- What is not on the way to the place is left as it is, at its old place. -/
theorem at?_of_not_prefix (h : Follows attr value ts place e e') (hx : e.at? q = some x)
    (hq : ¬ q <+: place) : e'.at? q = some x := by
  induction h generalizing q x with
  | here e =>
    cases q with
    | nil => exact absurd List.nil_prefix hq
    | cons i q => exact hx
  | @into t ts place e c c' before after he hc hbefore h ih =>
    cases q with
    | nil => exact absurd List.nil_prefix hq
    | cons i q =>
      rw [Element.at?, he] at hx
      rw [Element.at?]
      rcases Nat.lt_trichotomy i before.length with hi | rfl | hi
      · rw [List.getElem?_append_left hi] at hx ⊢
        exact hx
      · rw [List.getElem?_append_right (Nat.le_refl _), Nat.sub_self] at hx ⊢
        exact ih hx fun hp => hq (List.cons_prefix_cons.2 ⟨rfl, hp⟩)
      · obtain ⟨j, rfl⟩ := Nat.exists_eq_add_of_lt hi
        rw [List.getElem?_append_right (by omega)] at hx ⊢
        rw [show before.length + j + 1 - before.length = j + 1 by omega] at hx ⊢
        exact hx
  | @appended t ts place e c' hnone h ih =>
    cases q with
    | nil => exact absurd List.nil_prefix hq
    | cons i q =>
      rw [Element.at?] at hx
      have hi : i < e.children.length := by
        refine Nat.lt_of_not_le fun hle => ?_
        rw [List.getElem?_eq_none hle] at hx
        cases hx
      rw [Element.at?, Element.push, List.getElem?_append_left hi]
      exact hx

/-- The way goes on through a child that will do, or that is new. -/
theorem step (h : Follows attr value (t :: ts) place e e') :
    ∃ i rest c c', place = i :: rest ∧ (t.isIt c = true ∨ c = t.new) ∧
      Follows attr value ts rest c c' ∧ e'.children[i]? = some c' := by
  cases h with
  | @into _ _ rest _ c c' before after he hc hbefore h =>
    refine ⟨before.length, rest, c, c', rfl, .inl hc, h, ?_⟩
    rw [List.getElem?_append_right (Nat.le_refl _), Nat.sub_self]
    rfl
  | @appended _ _ rest _ c' hnone h =>
    refine ⟨e.children.length, rest, t.new, c', rfl, .inr rfl, h, ?_⟩
    rw [Element.push, List.getElem?_append_right (Nat.le_refl _), Nat.sub_self]
    rfl

/-- The place is there, and holds what the last stop asks for with the attribute set. -/
theorem exists_at? (h : Follows attr value (ts ++ [t]) place e e') :
    ∃ p, e'.at? place = some (p.setAttr attr value) ∧ (t.isIt p = true ∨ p = t.new) := by
  induction ts generalizing place e e' with
  | nil =>
    obtain ⟨i, rest, c, c', rfl, hc, h, hat⟩ := h.step
    cases h
    exact ⟨c, by rw [Element.at?, hat]; rfl, hc⟩
  | cons u us ih =>
    obtain ⟨i, rest, c, c', rfl, -, h, hat⟩ := h.step
    obtain ⟨p, hp, hlast⟩ := ih h
    exact ⟨p, by rw [Element.at?, hat]; exact hp, hlast⟩

end Follows

end

end Edit

/-! ## Steps -/

namespace PartStep

section
variable {s : PartStep} {n : PathNode} {ref : String} {ns : List PathNode}

theorem attr_ref_of_isFor {e : Element} (h : s.isFor e = true) : e.attr "ref" = some s.ref := by
  simp only [isFor, Bool.and_eq_true, beq_iff_eq] at h
  exact h.1

theorem attr_ref_newPart (s : PartStep) : s.newPart.attr "ref" = some s.ref := by
  unfold newPart
  split
  · split <;> simp
  · simp

theorem showsPart_iff : n.ShowsPart ref ↔ ∃ s, ofNode n = some s ∧ s.ref = ref := by
  unfold ofNode PathNode.ShowsPart
  by_cases hn : n.node.element.name = "part"
  · cases n.node.element.attr "ref" with
    | none => simp [hn]
    | some r => simp [hn]
  · simp [hn]

theorem ofNode_eq_none_iff : ofNode n = none ↔ ∀ ref, ¬ n.ShowsPart ref := by
  simp only [showsPart_iff, not_exists, not_and, Option.eq_none_iff_forall_ne_some]
  exact ⟨fun h _ s hs _ => h s hs, fun h s hs => h s.ref s hs rfl⟩

theorem steps_eq_nil_iff : ns.filterMap ofNode = [] ↔ ∀ n ∈ ns, ∀ ref, ¬ n.ShowsPart ref := by
  rw [List.filterMap_eq_nil_iff]
  exact forall₂_congr fun _ _ => ofNode_eq_none_iff

/-- The last step comes from the last part with a reference. -/
theorem exists_last_step (h : ns.filterMap ofNode ≠ []) :
    ∃ before last after s, ns = before ++ last :: after ∧ (∀ n ∈ after, ∀ ref, ¬ n.ShowsPart ref) ∧
      last.ShowsPart s.ref ∧ ns.filterMap ofNode = before.filterMap ofNode ++ [s] := by
  induction ns with
  | nil => exact absurd rfl h
  | cons n ns ih =>
    by_cases hns : ns.filterMap ofNode = []
    · cases hn : ofNode n with
      | none => exact absurd (by rw [List.filterMap_cons_none hn, hns]) h
      | some s =>
        exact ⟨[], n, ns, s, rfl, steps_eq_nil_iff.1 hns, showsPart_iff.2 ⟨s, hn, rfl⟩,
          by rw [List.filterMap_cons_some hn, hns]; rfl⟩
    · obtain ⟨before, last, after, s, rfl, hafter, hlast, hsteps⟩ := ih hns
      refine ⟨n :: before, last, after, s, rfl, hafter, hlast, ?_⟩
      rw [List.filterMap_cons, List.filterMap_cons, hsteps]
      cases ofNode n <;> rfl

end

end PartStep

/-! ## The start of an override -/

namespace Override

/-- What an override is made for: the path from the node after the last sublayout, or else
the whole path. A sublayout at the very start of a path does not count. -/
def Starts (path : List PathNode) (start : PathNode) (rest : List PathNode) : Prop :=
  (∀ n ∈ rest, ¬ n.IsSublayout) ∧
    (path = start :: rest ∨
      ¬ start.IsSublayout ∧ ∃ first before sub, PathNode.IsSublayout sub ∧
        path = first :: (before ++ sub :: start :: rest))

section
variable {path ns rest : List PathNode} {start : PathNode} {attr value : String} {version : Int}
  {o : Override}

theorem afterSublayout_eq_none : afterSublayout ns = none ↔ ∀ n ∈ ns, ¬ n.IsSublayout := by
  induction ns with
  | nil => simp [afterSublayout]
  | cons n ns ih =>
    rw [afterSublayout, List.forall_mem_cons, ← ih]
    cases afterSublayout ns with
    | none => simp [PathNode.IsSublayout]
    | some rest => simp

theorem afterSublayout_eq_some : afterSublayout ns = some rest ↔
    (∀ n ∈ rest, ¬ n.IsSublayout) ∧
      ∃ before sub, PathNode.IsSublayout sub ∧ ns = before ++ sub :: rest := by
  induction ns with
  | nil => simp [afterSublayout]
  | cons n ns ih =>
    rw [afterSublayout]
    cases hns : afterSublayout ns with
    | none =>
      have hnone := afterSublayout_eq_none.1 hns
      by_cases hn : n.IsSublayout
      · simp only [if_pos (show n.node.element.name = "sublayout" from hn), Option.some.injEq]
        constructor
        · rintro rfl
          exact ⟨hnone, [], n, hn, rfl⟩
        · rintro ⟨-, before, sub, hsub, heq⟩
          cases before with
          | nil => exact (List.cons.inj heq).2
          | cons b before =>
            refine absurd hsub (hnone sub ?_)
            rw [(List.cons.inj heq).2]
            exact List.mem_append_right _ List.mem_cons_self
      · simp only [if_neg (show ¬ n.node.element.name = "sublayout" from hn), reduceCtorEq,
          false_iff]
        rintro ⟨-, before, sub, hsub, heq⟩
        refine absurd hsub ?_
        have hmem : sub ∈ n :: ns := by simp [heq]
        rcases List.mem_cons.1 hmem with rfl | hmem
        · exact hn
        · exact hnone sub hmem
    | some later =>
      simp only [← hns, ih]
      refine and_congr_right fun hrest => ⟨?_, ?_⟩
      · rintro ⟨before, sub, hsub, rfl⟩
        exact ⟨n :: before, sub, hsub, rfl⟩
      · rintro ⟨before, sub, hsub, heq⟩
        cases before with
        | nil =>
          rw [(List.cons.inj heq).2, afterSublayout_eq_none.2 hrest] at hns
          cases hns
        | cons b before => exact ⟨before, sub, hsub, (List.cons.inj heq).2⟩

theorem relevant_eq_cons_iff : relevant path = start :: rest ↔ Starts path start rest := by
  cases path with
  | nil => simp [relevant, Starts]
  | cons first ns =>
    rw [relevant]
    cases hns : afterSublayout ns with
    | none =>
      have hnone := afterSublayout_eq_none.1 hns
      constructor
      · intro h
        cases h
        exact ⟨hnone, .inl rfl⟩
      · rintro ⟨-, h | ⟨-, first', before, sub, hsub, h⟩⟩
        · exact h
        · refine absurd hsub (hnone sub ?_)
          simp [(List.cons.inj h).2]
    | some later =>
      obtain ⟨hlater, before, sub, hsub, rfl⟩ := afterSublayout_eq_some.1 hns
      constructor
      · rintro rfl
        rw [List.forall_mem_cons] at hlater
        exact ⟨hlater.2, .inr ⟨hlater.1, first, before, sub, hsub, rfl⟩⟩
      · rintro ⟨hrest, h | ⟨hstart, first', before', sub', hsub', h⟩⟩
        · cases h
          exact absurd hsub (hrest sub (by simp))
        · rw [(List.cons.inj h).2, afterSublayout_eq_some.2
            ⟨List.forall_mem_cons.2 ⟨hstart, hrest⟩, before', sub', hsub', rfl⟩] at hns
          exact (Option.some.inj hns).symm

/-- An override is made of a path that has a start and a step after it. -/
theorem ofPath_eq_ok_iff : ofPath path attr value version = .ok o ↔
    ∃ start rest, Starts path start rest ∧ rest.filterMap PartStep.ofNode ≠ [] ∧
      o = ⟨start.node, Edit.along attr value (rest.filterMap PartStep.ofNode)
        (start.node.element.setAttr Element.versionAttr (toString version))⟩ := by
  simp only [← relevant_eq_cons_iff]
  unfold ofPath
  cases relevant path with
  | nil => simp
  | cons start rest =>
    simp only [List.cons.injEq]
    split
    · next h =>
      simp only [reduceCtorEq, false_iff]
      rintro ⟨_, _, ⟨rfl, rfl⟩, hne, -⟩
      exact hne h
    · next hne =>
      constructor
      · intro h
        cases h
        exact ⟨start, rest, ⟨rfl, rfl⟩, hne, rfl⟩
      · rintro ⟨_, _, ⟨rfl, rfl⟩, -, rfl⟩
        rfl

/-- An override follows the stops of its path below the start with its version set. -/
theorem follows_of_ofPath (h : ofPath path attr value version = .ok o) :
    ∃ start rest, Starts path start rest ∧ rest.filterMap PartStep.ofNode ≠ [] ∧
      Edit.Follows attr value ((rest.filterMap PartStep.ofNode).flatMap PartStep.stops)
        o.partPlace (start.node.element.setAttr Element.versionAttr (toString version))
        o.element := by
  obtain ⟨start, rest, hstarts, hsteps, rfl⟩ := ofPath_eq_ok_iff.1 h
  refine ⟨start, rest, hstarts, hsteps, ?_⟩
  rw [partPlace, element, Edit.along_eq_through]
  exact Edit.follows_through attr value _ _

end

end Override

open Override in
/-- A path has an override exactly if it has a start and shows a part with a reference after
that. The override has the edited part at its place, with the attribute and, unless that is
the reference, the reference of the last such part. It is the start with its version set,
changed only along the way through the stops of the path; what is not on that way stays the
same at its place. -/
theorem override_edits_one_path (path : List PathNode) (attr value : String) (version : Int) :
    ((∃ o, ofPath path attr value version = .ok o) ↔
      ∃ start rest, Starts path start rest ∧ ∃ n ∈ rest, ∃ ref, n.ShowsPart ref) ∧
    ∀ o, ofPath path attr value version = .ok o →
      ∃ start rest, Starts path start rest ∧
        (∃ before last after ref part, rest = before ++ last :: after ∧ last.ShowsPart ref ∧
          (∀ n ∈ after, ∀ r, ¬ n.ShowsPart r) ∧ o.part = some part ∧
          part.attr attr = some value ∧ (attr ≠ "ref" → part.attr "ref" = some ref)) ∧
        Edit.Follows attr value ((rest.filterMap PartStep.ofNode).flatMap PartStep.stops)
          o.partPlace (start.node.element.setAttr Element.versionAttr (toString version))
          o.element ∧
        ∀ place x, start.node.element.at? place = some x → ¬ place <+: o.partPlace →
          o.element.at? place = some x := by
  refine ⟨⟨?_, ?_⟩, fun o ho => ?_⟩
  · rintro ⟨o, ho⟩
    obtain ⟨start, rest, hstarts, hsteps, -⟩ := follows_of_ofPath ho
    obtain ⟨before, last, after, s, rfl, -, hlast, -⟩ := PartStep.exists_last_step hsteps
    exact ⟨start, _, hstarts, last, by simp, s.ref, hlast⟩
  · rintro ⟨start, rest, hstarts, n, hn, ref, href⟩
    exact ⟨_, ofPath_eq_ok_iff.2 ⟨start, rest, hstarts,
      fun h => PartStep.steps_eq_nil_iff.1 h n hn ref href, rfl⟩⟩
  · obtain ⟨start, rest, hstarts, hsteps, hfollows⟩ := follows_of_ofPath ho
    refine ⟨start, rest, hstarts, ?_, hfollows, fun place x hx hplace => ?_⟩
    · obtain ⟨before, last, after, s, hrest, hafter, hlast, hsplit⟩ :=
        PartStep.exists_last_step hsteps
      have hends : (rest.filterMap PartStep.ofNode).flatMap PartStep.stops =
          ((before.filterMap PartStep.ofNode).flatMap PartStep.stops ++
            (s.indent.map fun h => ⟨(·.name = h.element.name), h.element, some h⟩).toList) ++
              [⟨s.isFor, s.newPart, none⟩] := by
        rw [hsplit, List.flatMap_append, List.flatMap_singleton, PartStep.stops,
          List.append_assoc]
      rw [hends] at hfollows
      obtain ⟨p, hp, hasked⟩ := hfollows.exists_at?
      have href : p.attr "ref" = some s.ref := by
        rcases hasked with h | rfl
        · exact PartStep.attr_ref_of_isFor h
        · exact s.attr_ref_newPart
      refine ⟨before, last, after, s.ref, p.setAttr attr value, hrest, hlast, hafter, hp, ?_, ?_⟩
      · rw [Element.attr_setAttr, if_pos rfl]
      · intro hattr
        rw [Element.attr_setAttr, if_neg hattr, href]
    · refine hfollows.at?_of_not_prefix ?_ hplace
      cases place with
      | nil => exact absurd List.nil_prefix hplace
      | cons i place => exact hx

/-! ## A custom part in an indent -/

/-- A custom part for a parameter. -/
def customPart (param : String) : Element :=
  ((Element.bare "part").setAttr "ref" PartStep.customRef).setAttr "param" param

/-- An entry without parts, and a custom part that is shown inside an indent. -/
def entryNode : PathNode := ⟨.fresh 0 (.bare "layout"), none⟩

def customNode (param : String) : PathNode :=
  ⟨.fresh 1 (customPart param), some (.fresh 2 (.bare "indent"))⟩

/-- The path has no sublayout, so it starts with its first node. -/
theorem start_customPath {param : String} {start : PathNode} {rest : List PathNode}
    (h : Override.Starts [entryNode, customNode param] start rest) :
    entryNode = start ∧ [customNode param] = rest :=
  List.cons.inj (Override.relevant_eq_cons_iff.2 h)

open Override in
/-- The indent is copied into the entry, and the part is added to it. -/
theorem override_edits_one_path_indentedCustom : ∃ o part,
    ofPath [entryNode, customNode "c"] "visibility" "never" 25 = .ok o ∧ o.part = some part ∧
      part.attr "visibility" = some "never" ∧ part.attr "ref" = some "Custom" := by
  obtain ⟨hiff, hedits⟩ :=
    override_edits_one_path [entryNode, customNode "c"] "visibility" "never" 25
  have hstarts : Starts [entryNode, customNode "c"] entryNode [customNode "c"] :=
    relevant_eq_cons_iff.1 rfl
  obtain ⟨o, ho⟩ := hiff.2 ⟨_, _, hstarts, customNode "c", by simp, "Custom", rfl, rfl⟩
  obtain ⟨start, rest, hstarts, ⟨before, last, after, ref, part, hrest, hlast, -, hpart, hattr,
    href⟩, -⟩ := hedits o ho
  obtain ⟨rfl, rfl⟩ := start_customPath hstarts
  refine ⟨o, part, ho, hpart, hattr, ?_⟩
  -- The custom part is the only node after the start.
  have hmem : last ∈ [customNode "c"] := hrest ▸ List.mem_append_right _ List.mem_cons_self
  rw [href (by decide), ← hlast.2, List.mem_singleton.1 hmem]
  rfl

end TemplateInventory
