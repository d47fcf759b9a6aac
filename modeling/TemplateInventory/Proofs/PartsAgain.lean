import TemplateInventory.Proofs.Listing
import TemplateInventory.Proofs.PartPaths
/-!
# Editing a part again

The override of a path is put in the place of its start, and the same part is edited once more.
At each stop the second run finds the child that the first one changed, and it finds
the one that was appended if that is what was asked for (`Edit.Follows.through_again_iff`).

New parts are what was asked for, except those for custom parts with an empty parameter:
an empty parameter is not copied, and the part without one is then not found. So the second run
gives the same override at the same place just if no such part was added
(`edited_again`), and otherwise adds another one (`custom_part_added_again`).
-/

namespace TemplateInventory

/-! ## Setting what is set -/

/-- Setting an attribute to its value does nothing. -/
theorem Element.setAttr_of_attr {e : Element} {n v : String} (h : e.attr n = some v) :
    e.setAttr n v = e := by
  obtain ⟨before, after, hsplit, hput⟩ := putEntry_of_findEntry h
  have hself : e.attributes.put n v = e.attributes := Table.ext ((hput v).trans hsplit.symm)
  rw [setAttr, hself]
  cases e
  rfl

/-! ## Stops -/

namespace Stop

/-- Whether a stop looks neither at an attribute nor at children. -/
def Ignores (t : Stop) (attr : String) : Prop :=
  ∀ x y : Element, x.name = y.name → (∀ n, n ≠ attr → x.attr n = y.attr n) → t.isIt x = t.isIt y

/-- The stops for which something is appended. -/
def added : List Stop → Element → List Stop
  | [], _ => []
  | t :: ts, e =>
    match e.children.find? t.isIt with
    | some c => added ts c
    | none => t :: added ts t.new

end Stop

namespace Edit

section
variable {attr value : String} {t : Stop} {ts : List Stop} {place : List Nat} {c e e' : Element}
  {before after : List Element}

namespace Follows

/-- Above its end, an edit leaves everything of a node but the children. -/
theorem attributes_eq (h : Follows attr value ts place e e') (hts : ts ≠ []) :
    e'.attributes = e.attributes := by
  cases h with
  | here => exact absurd rfl hts
  | into => rfl
  | appended => rfl

theorem name_eq (h : Follows attr value ts place e e') : e'.name = e.name := by
  cases h <;> rfl

theorem attr_eq (h : Follows attr value ts place e e') {n : String} (hn : n ≠ attr) :
    e'.attr n = e.attr n := by
  cases h with
  | here => rw [Element.attr_setAttr, if_neg (Ne.symm hn)]
  | into => rfl
  | appended => rfl

/-- A child that was changed will do if it did before. -/
theorem isIt_eq {u : Stop} (h : Follows attr value ts place e e') (hu : u.Ignores attr) :
    u.isIt e' = u.isIt e :=
  hu e' e h.name_eq fun _ hn => h.attr_eq hn

end Follows

/-- Going down again through a child that was found. -/
theorem through_eq_self_iff (he : e.children = before ++ c :: after) (hc : t.isIt c = true)
    (hbefore : ∀ b ∈ before, t.isIt b = false) :
    (through attr value (t :: ts) e).element = e ∧
        (through attr value (t :: ts) e).place = before.length :: place ↔
      (through attr value ts c).element = c ∧ (through attr value ts c).place = place := by
  obtain ⟨helement, hplace⟩ := within_of_found t.new t.source (through attr value ts)
    he hc hbefore
  rw [through, helement, hplace, List.cons.injEq, and_iff_right rfl]
  refine and_congr_left fun _ => ⟨fun h => ?_, fun h => ?_⟩
  · have hchildren := congrArg Element.children h
    rw [he] at hchildren
    exact (List.cons.inj (List.append_cancel_left hchildren)).1
  · rw [h, ← he]
    cases e
    rfl

/-- A second run comes to the same if all that the first one appended was what was asked for. -/
theorem Follows.through_again_iff (h : Follows attr value ts place e e')
    (hts : ∀ t ∈ ts, t.Ignores attr) :
    (through attr value ts e').element = e' ∧ (through attr value ts e').place = place ↔
      ∀ t ∈ Stop.added ts e, t.isIt t.new = true := by
  induction h with
  | here e =>
    rw [through, Stop.added]
    simp only [List.not_mem_nil, false_implies, implies_true, iff_true, and_true]
    exact Element.setAttr_of_attr (by rw [Element.attr_setAttr, if_pos rfl])
  | @into t ts place e c c' before after he hc hbefore h ih =>
    obtain ⟨ht, hts⟩ := List.forall_mem_cons.1 hts
    have hfind : e.children.find? t.isIt = some c := by
      rw [List.find?_eq_some_iff_append]
      exact ⟨hc, before, after, he, fun b hb => by simpa using hbefore b hb⟩
    rw [through_eq_self_iff rfl ((h.isIt_eq ht).trans hc) hbefore, ih hts, Stop.added, hfind]
  | @appended t ts place e c' hnone h ih =>
    obtain ⟨ht, hts⟩ := List.forall_mem_cons.1 hts
    have hfind : e.children.find? t.isIt = none := by
      rw [List.find?_eq_none]
      exact fun c hc => by simpa using hnone c hc
    rw [Stop.added, hfind, List.forall_mem_cons, ← ih hts]
    cases hnew : t.isIt t.new with
    | true =>
      rw [and_iff_right rfl]
      exact through_eq_self_iff rfl ((h.isIt_eq ht).trans hnew) hnone
    | false =>
      -- What was appended will not do, so something is appended after it.
      have hagain : ∀ c ∈ (e.push c').children, t.isIt c = false := by
        intro c hc
        rcases List.mem_append.1 hc with hc | hc
        · exact hnone c hc
        · rw [List.mem_singleton.1 hc, h.isIt_eq ht, hnew]
      have helement := (within_of_none t.new t.source (through attr value ts) hagain).1
      simp only [Bool.false_eq_true, false_and, iff_false, not_and]
      intro hself
      rw [through, helement] at hself
      have hlength := congrArg (List.length ∘ Element.children) hself
      simp [Element.push] at hlength

end

end Edit

/-! ## Steps -/

namespace PartStep

/-- Where a step looks for its part: in an indent that is there or is copied, if it has one. -/
def inside (s : PartStep) (e : Element) : Element :=
  match s.indent with
  | some h => (e.children.find? (·.name = h.element.name)).getD h.element
  | none => e

/-- The steps of a path for which a part is added. -/
def added : List PartStep → Element → List PartStep
  | [], _ => []
  | s :: steps, e =>
    match (s.inside e).children.find? s.isFor with
    | some c => added steps c
    | none => s :: added steps s.newPart

/-- Whether a step shows a custom part with an empty parameter. -/
def HasEmptyParam (s : PartStep) : Prop := s.ref = customRef ∧ s.param = some ""

instance (s : PartStep) : Decidable s.HasEmptyParam :=
  inferInstanceAs (Decidable (s.ref = customRef ∧ s.param = some ""))

section
variable {s : PartStep} {steps : List PartStep} {attr : String} {t : Stop} {e : Element}

theorem attr_param_newPart (href : s.ref = customRef) :
    s.newPart.attr "param" = s.param.filter (· ≠ "") := by
  have hbare : (Element.bare "part").attr "param" = none := rfl
  unfold newPart
  cases s.param with
  | none => simp [hbare]
  | some param => by_cases hempty : param = "" <;> simp [href, hempty, hbare, Option.filter]

/-- A new part is what was asked for, unless an empty parameter was. -/
theorem isFor_newPart_iff : s.isFor s.newPart = true ↔ ¬ s.HasEmptyParam := by
  unfold isFor HasEmptyParam
  by_cases href : s.ref = customRef
  · rw [attr_ref_newPart, attr_param_newPart href]
    cases s.param with
    | none => simp
    | some param => by_cases hempty : param = "" <;> simp [href, hempty]
  · simp [attr_ref_newPart, href]

theorem ignores_of_mem_stops (href : attr ≠ "ref") (hparam : attr ≠ "param") (ht : t ∈ s.stops) :
    t.Ignores attr := by
  intro x y hname hattr
  rcases List.mem_append.1 ht with ht | ht
  · obtain ⟨h, -, rfl⟩ := Option.map_eq_some_iff.1 (Option.mem_toList.1 ht)
    simp only [hname]
  · rw [List.mem_singleton.1 ht]
    simp only [isFor, hattr _ (Ne.symm href), hattr _ (Ne.symm hparam)]

theorem flatMap_stops_ne_nil (h : steps ≠ []) : steps.flatMap stops ≠ [] := by
  cases steps with
  | nil => exact absurd rfl h
  | cons s steps => simp [stops]

theorem added_stops_iff : (∀ t ∈ Stop.added (steps.flatMap stops) e, t.isIt t.new = true) ↔
    ∀ s ∈ added steps e, ¬ s.HasEmptyParam := by
  induction steps generalizing e with
  | nil => simp [Stop.added, added]
  | cons s steps ih =>
    -- Past the indent, if there is one, which is always what was asked for.
    have hpart : ∀ e', (∀ t ∈ Stop.added (⟨s.isFor, s.newPart, none⟩ :: steps.flatMap stops) e',
        t.isIt t.new = true) ↔ ∀ s' ∈ (match e'.children.find? s.isFor with
          | some c => added steps c
          | none => s :: added steps s.newPart), ¬ s'.HasEmptyParam := by
      intro e'
      rw [Stop.added]
      cases hfind : e'.children.find? s.isFor with
      | some c => exact ih
      | none => simp only [List.forall_mem_cons, isFor_newPart_iff, ih]
    rw [List.flatMap_cons, stops, added, inside]
    cases s.indent with
    | none => exact hpart e
    | some h =>
      simp only [Option.map_some, Option.toList_some, List.cons_append, List.nil_append]
      rw [Stop.added]
      cases hfind : e.children.find? (·.name = h.element.name) with
      | some c => exact hpart c
      | none =>
        simp only [List.forall_mem_cons, decide_true, true_and]
        exact hpart h.element

end

end PartStep

/-! ## Overrides -/

namespace Override

section
variable {path rest : List PathNode} {start : PathNode}

/-- The start stands in the path, which starts at the same place if an element of the same
name stands there. -/
theorem Starts.exists_before (h : Starts path start rest) :
    ∃ before, path = before ++ start :: rest ∧
      ∀ again : PathNode, again.node.element.name = start.node.element.name →
        Starts (before ++ again :: rest) again rest := by
  obtain ⟨hrest, rfl | ⟨hstart, first, between, sub, hsub, rfl⟩⟩ := h
  · exact ⟨[], rfl, fun again _ => ⟨hrest, .inl rfl⟩⟩
  · refine ⟨first :: (between ++ [sub]), by simp, fun again hname => ⟨hrest, .inr ⟨?_, ?_⟩⟩⟩
    · rwa [PathNode.IsSublayout, hname]
    · exact ⟨first, between, sub, hsub, by simp⟩

end

end Override

/-- Only the children of a node tell which parts are added below it. -/
theorem PartStep.added_setAttr (steps : List PartStep) (e : Element) (n v : String) :
    added steps (e.setAttr n v) = added steps e := by
  cases steps with
  | nil => rfl
  | cons s steps =>
    have hinside : (s.inside (e.setAttr n v)).children = (s.inside e).children := by
      unfold inside
      cases s.indent <;> rfl
    rw [added, added, hinside]

open Override in
/-- Let the start of a path be replaced by the override that was made of it. Another override
of the same part with the same attribute, which is neither the reference nor the parameter,
can be made then. It is the same element with its part at the same place, exactly if the
first one had no part added for a custom part with an empty parameter. -/
theorem edited_again {path : List PathNode} {attr value : String} {version : Int} {o : Override}
    (href : attr ≠ "ref") (hparam : attr ≠ "param")
    (ho : ofPath path attr value version = .ok o) :
    ∃ before start rest, path = before ++ start :: rest ∧ Starts path start rest ∧
      ∀ again : PathNode, again.node.element = o.element →
        ∃ o', ofPath (before ++ again :: rest) attr value version = .ok o' ∧
          (o'.element = o.element ∧ o'.partPlace = o.partPlace ↔
            ∀ s ∈ PartStep.added (rest.filterMap PartStep.ofNode) start.node.element,
              ¬ s.HasEmptyParam) := by
  obtain ⟨start, rest, hstarts, hsteps, hfollows⟩ := follows_of_ofPath ho
  obtain ⟨before, hpath, hreplace⟩ := hstarts.exists_before
  refine ⟨before, start, rest, hpath, hstarts, fun again hagain => ?_⟩
  have hname : again.node.element.name = start.node.element.name := by
    rw [hagain]
    exact hfollows.name_eq
  -- There is a stop below the start, so the version is still the one that was set.
  have hversion :
      again.node.element.setAttr Element.versionAttr (toString version) = o.element := by
    rw [hagain]
    refine Element.setAttr_of_attr ?_
    rw [Element.attr, hfollows.attributes_eq (PartStep.flatMap_stops_ne_nil hsteps)]
    exact (Element.attr_setAttr _ _ _ _).trans (if_pos rfl)
  have hignores : ∀ t ∈ (rest.filterMap PartStep.ofNode).flatMap PartStep.stops,
      t.Ignores attr := by
    intro t ht
    obtain ⟨s, -, hs⟩ := List.mem_flatMap.1 ht
    exact PartStep.ignores_of_mem_stops href hparam hs
  have hiff := hfollows.through_again_iff hignores
  rw [PartStep.added_stops_iff, PartStep.added_setAttr, ← Edit.along_eq_through] at hiff
  refine ⟨_, ofPath_eq_ok_iff.2 ⟨again, rest, hreplace again hname, hsteps, rfl⟩, ?_⟩
  rw [hversion]
  exact hiff

/-! ## Custom parts -/

open Override in
/-- The indent and the part that are added for a parameter are found again. -/
theorem edited_again_indentedCustom : ∃ o o',
    ofPath [entryNode, customNode "c"] "visibility" "never" 25 = .ok o ∧ o.partPlace = [0, 0] ∧
      ofPath [⟨.fresh 3 o.element, none⟩, customNode "c"] "visibility" "never" 25 = .ok o' ∧
      o'.element = o.element ∧ o'.partPlace = o.partPlace := by
  obtain ⟨o, ho, hplace⟩ : ∃ o,
      ofPath [entryNode, customNode "c"] "visibility" "never" 25 = .ok o ∧ o.partPlace = [0, 0] :=
    ⟨_, rfl, by decide⟩
  obtain ⟨before, start, rest, hpath, hstarts, hagain⟩ := edited_again (by decide) (by decide) ho
  obtain ⟨rfl, rfl⟩ := start_customPath hstarts
  obtain rfl : before = [] := List.append_left_eq_self.1 hpath.symm
  obtain ⟨o', ho', hiff⟩ := hagain ⟨.fresh 3 o.element, none⟩ rfl
  exact ⟨o, o', ho, hplace, ho', hiff.2 (by decide)⟩

open Override in
/-- The part that is added for an empty parameter is not found again, and another is added. -/
theorem custom_part_added_again : ∃ o o',
    ofPath [entryNode, customNode ""] "visibility" "never" 25 = .ok o ∧ o.partPlace = [0, 0] ∧
      ofPath [⟨.fresh 3 o.element, none⟩, customNode ""] "visibility" "never" 25 = .ok o' ∧
      o'.element ≠ o.element ∧ o'.partPlace = [0, 1] :=
  ⟨_, _, rfl, by decide, rfl, by decide, by decide⟩

end TemplateInventory
