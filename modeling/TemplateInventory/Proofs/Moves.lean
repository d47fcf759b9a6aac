import TemplateInventory.Inventory.Copies
import TemplateInventory.Inventory.Reconcile
import TemplateInventory.Proofs.Events
/-!
# Moves of an inventory

What the operations of an inventory do to its holdings, as events.
`Moves outside i i'` says that events lead from `i` to `i'`, and that the handles
in `outside` can be added afterwards. Reconciling a document makes its survivors
(`moves_reconcile`), which can then be added.
-/

namespace TemplateInventory

open Holdings

/-- The handles of what is not dropped. -/
def Verdict.handles : Verdict → List Handle
  | .kept h => [h]
  | .restamped h => [h]
  | .merged h => [h]
  | .dropped => []

/-- The handles in a result; a failure has none. -/
def handlesOf {α : Type} (f : α → List Handle) : Except InventoryError α → List Handle
  | .ok a => f a
  | .error _ => []

namespace Inventory

/-- Events lead from `i` to `i'`; the handles in `outside` can be added next. -/
structure Moves (outside : List Handle) (i i' : Inventory) : Prop where
  conventions : i'.conventions = i.conventions
  leads : Leads i.conventions.groupingElement (fun _ _ => True) i.holdings i'.holdings
  coherent : Coherent outside i'.holdings

section
variable {outside outside' : List Handle} {i i' i₁ i₂ i₃ : Inventory} {node x : Handle} {e : Event}

namespace Moves

theorem stay (hc : Coherent outside i.holdings) (hh : i'.holdings = i.holdings)
    (hv : i'.conventions = i.conventions) : Moves outside i i' :=
  ⟨hv, hh ▸ .refl, hh ▸ hc⟩

theorem trans (hm : Moves outside i₁ i₂) (hm' : Moves outside' i₂ i₃) : Moves outside' i₁ i₃ :=
  ⟨hm'.conventions.trans hm.conventions, hm.leads.trans (hm.conventions ▸ hm'.leads), hm'.coherent⟩

theorem subset (hm : Moves outside i i') (ho : ∀ x ∈ outside', x ∈ outside) :
    Moves outside' i i' :=
  ⟨hm.conventions, hm.leads, hm.coherent.subset fun x hx => .inl (ho x hx)⟩

theorem leave (hm : Moves (x :: outside) i i') : Moves outside i i' :=
  hm.subset fun _ => List.mem_cons_of_mem x

/-- What happens after a move to something else than the holdings does not matter. -/
theorem keep (hm : Moves outside i₁ i₂) (hh : i₃.holdings = i₂.holdings)
    (hv : i₃.conventions = i₂.conventions) : Moves outside i₁ i₃ :=
  hm.trans (.stay hm.coherent hh hv)

end Moves

/-! ## Single operations -/

variable {name : String} {values : List (Option String)}

theorem moves_findIn (hc : Coherent outside i.holdings) (s : StoreId)
    (hv : values.length = (i.schema.attrsFor name).length) :
    Moves outside i (i.onHoldings (·.findIn s name values)).2 :=
  ⟨rfl, .one (e := .found s name values) trivial hv, hc.findIn⟩

theorem moves_resolve (hc : Coherent outside i.holdings)
    (hv : values.length = (i.schema.attrsFor name).length) :
    Moves outside i (i.onHoldings (·.resolve [] name values)).2 :=
  ⟨rfl, .one (e := .resolved name values) trivial hv, hc.resolve⟩

/-- A handle under the next number can be added once the number is taken. -/
theorem moves_mint (hc : Coherent outside i.holdings) (hx : x.id.serial = i.holdings.nextSerial)
    (e : Element) : Moves (x :: outside) i (i.mint e).2 :=
  ⟨rfl, .one (e := .made) trivial trivial, hc.make hx⟩

theorem moves_revise (hc : Coherent outside i.holdings) (h : Handle) (e : Element) :
    Moves (h.revise i.holdings.nextSerial e :: outside) i (i.mint e).2 :=
  moves_mint hc (congrArg NodeId.serial (Handle.id_revise h i.holdings.nextSerial e)) e

theorem moves_add (hc : Coherent (node :: outside) i.holdings) :
    Moves (node :: outside) i (i.add node).2 :=
  ⟨rfl, .one (e := .added node) trivial (hc.admits (.inl List.mem_cons_self)), hc.add⟩

theorem moves_addGrouping (hc : Coherent (node :: outside) i.holdings)
    (hn : node.element.name = i.conventions.groupingElement) :
    Moves (node :: outside) i (i.addGrouping node).2 := by
  unfold addGrouping
  split
  · exact .stay hc rfl rfl
  · next value _ =>
    generalize hx : i.groupings.find? (·.element.attr i.conventions.groupingAttr == some value) =
      extant
    refine ⟨rfl, .one (e := .grouped extant node) trivial
      ⟨hc.admits (.inl List.mem_cons_self), hn, fun x he => ?_⟩, hc.grouped extant⟩
    have hmem := List.mem_of_find?_eq_some (hx.trans he)
    simpa [groupings, Store.named] using hmem

theorem moves_addAny (hc : Coherent (node :: outside) i.holdings) :
    Moves (node :: outside) i (i.addAny node).2 := by
  unfold addAny
  split
  · next hn => exact moves_addGrouping hc hn
  · exact moves_add hc

theorem holdings_noteTagged (i : Inventory) (node : Handle) :
    (i.noteTagged node).holdings = i.holdings := by
  unfold noteTagged
  split <;> rfl

theorem conventions_noteTagged (i : Inventory) (node : Handle) :
    (i.noteTagged node).conventions = i.conventions := by
  unfold noteTagged
  split <;> rfl

/-! ## Reconciling -/

theorem length_split {r : SuffixRule} {attrs : List String} {values standard : List (Option String)}
    {suffix : String} (h : r.split attrs values = some (suffix, standard)) :
    standard.length = values.length := by
  unfold SuffixRule.split at h
  split at h
  · cases h
  · split at h
    · obtain ⟨⟨stem, suffix'⟩, -, he⟩ := Option.map_eq_some_iff.1 h
      cases he
      exact List.length_set
    · cases h

theorem moves_counterpart (hc : Coherent outside i.holdings) (e : Element) :
    Moves outside i (i.counterpart e).2 := by
  have hv := i.schema.length_valuesOf e
  have hfind := moves_findIn hc .main hv
  unfold counterpart
  simp only
  rcases hr : i.onHoldings (·.findIn .main e.name (i.schema.valuesOf e)) with ⟨_ | x, i₁⟩
  all_goals rw [hr] at hfind
  · simp only
    split
    · exact hfind
    · next suffix standard hs =>
      have hs' : i₁.schema = i.schema := hfind.leads.schema
      have hv' : standard.length = (i₁.schema.attrsFor e.name).length :=
        (length_split hs).trans (hs' ▸ hv)
      have hfind' := moves_findIn hfind.coherent .main hv'
      split
      · next i₂ hr' => rw [hr'] at hfind'; exact hfind.trans hfind'
      · next i₂ hr' => rw [hr'] at hfind'; exact hfind.trans hfind'
  · exact hfind

/-- Merging makes the handle of its result. -/
theorem moves_mergeOutdated (hc : Coherent outside i.holdings) (merger : Merger) (expected : Int)
    (isUser : Bool) (e : Element) :
    Moves (handlesOf Verdict.handles (i.mergeOutdated merger expected isUser e).1 ++ outside) i
      (i.mergeOutdated merger expected isUser e).2 := by
  have hm := moves_counterpart hc e
  unfold mergeOutdated
  rcases hr : i.counterpart e with ⟨_ | ⟨current, suffix⟩, i₁⟩
  all_goals rw [hr] at hm
  · exact hm
  · simp only
    split
    · exact hm
    · next upgraded _ =>
      exact (hm.trans (moves_revise hm.coherent current _)).keep rfl rfl

theorem moves_judge (hc : Coherent outside i.holdings) (all : List Selected) (expected : Int)
    (isUser : Bool) (s : Selected) :
    Moves (handlesOf Verdict.handles (i.judge all expected isUser s).1 ++ outside) i
      (i.judge all expected isUser s).2 := by
  unfold judge
  split
  · exact .stay hc rfl rfl
  · split
    · exact moves_mint hc rfl s.element
    · split
      · exact .stay hc rfl rfl
      · next merger _ =>
        split
        · exact moves_mint hc rfl (s.element.setAttr Element.versionAttr (toString expected))
        · exact moves_mergeOutdated hc merger expected isUser s.element

theorem moves_judgeAll {r : Reconciled} (hc : Coherent r.survivors i.holdings)
    (all : List Selected) (expected : Int) (isUser : Bool) (selected : List Selected) :
    Moves (handlesOf Reconciled.survivors (i.judgeAll all expected isUser r selected).1) i
      (i.judgeAll all expected isUser r selected).2 := by
  induction selected generalizing i r with
  | nil => exact .stay hc rfl rfl
  | cons s rest ih =>
    have hm := moves_judge hc all expected isUser s
    rw [judgeAll]
    rcases hr : i.judge all expected isUser s with ⟨_ | verdict, i₁⟩
    all_goals rw [hr] at hm
    · exact hm.subset fun _ h => nomatch h
    · refine hm.trans (ih (hm.coherent.subset ?_))
      -- Survivors keep the order of the document, so a new one comes last.
      intro x hx
      cases verdict with
      | dropped => exact .inl hx
      | kept h => exact .inl (by simpa [handlesOf, Verdict.handles, or_comm] using hx)
      | restamped h => exact .inl (by simpa [handlesOf, Verdict.handles, or_comm] using hx)
      | merged h => exact .inl (by simpa [handlesOf, Verdict.handles, or_comm] using hx)

/-- The survivors of a document can be added once it is reconciled. -/
theorem moves_reconcile (hc : Coherent [] i.holdings) (selected : List Selected) (expected : Int)
    (isUser : Bool) :
    Moves (handlesOf Reconciled.survivors (i.reconcile selected expected isUser).1) i
      (i.reconcile selected expected isUser).2 :=
  moves_judgeAll (r := ⟨[], false⟩) hc selected expected isUser _

/-! ## Copies of layouts -/

theorem length_valuesOfCopy (i : Inventory) (name : String) (e : Element) :
    (i.valuesOfCopy name e).length = (i.schema.attrsFor e.name).length := by
  unfold valuesOfCopy
  simp only
  split
  · rw [List.length_set, KeySchema.length_valuesOf]
  · exact KeySchema.length_valuesOf _ _

theorem moves_expandOne (hc : Coherent [] i.holdings) (tag : String) (node : Handle) :
    Moves [] i (i.expandOne tag node).2 := by
  unfold expandOne
  split
  · exact .stay hc rfl rfl
  · next name _ =>
    have hm := moves_resolve hc (length_valuesOfCopy i (withTag name tag) node.element)
    simp only
    rcases hr : i.onHoldings (·.resolve [] node.element.name
      (i.valuesOfCopy (withTag name tag) node.element)) with ⟨_ | x, i₁⟩
    all_goals rw [hr] at hm
    · simp only
      split
      · exact hm
      · next copy _ =>
        have hm' := hm.trans (moves_revise hm.coherent node copy)
        have hadd := (hm'.trans (moves_add hm'.coherent)).leave
        split
        · next he => rw [he] at hadd; exact hadd
        · next he => rw [he] at hadd; exact hadd
    · exact hm

theorem moves_expandAll (hc : Coherent [] i.holdings) (tag : String) (added : Nat)
    (nodes : List Handle) : Moves [] i (i.expandAll tag added nodes).2 := by
  induction nodes generalizing i added with
  | nil => exact .stay hc rfl rfl
  | cons node nodes ih =>
    have hm := moves_expandOne hc tag node
    rw [expandAll]
    rcases hr : i.expandOne tag node with ⟨_ | isNew, i₁⟩
    all_goals rw [hr] at hm
    · exact hm
    · exact hm.trans (ih hm.coherent _)

end

/-! ## What reconciling keeps -/

/-- Whether looking up served elements, making elements and counting merges keep a
property, which is all that reconciling does. -/
structure KeptByReconciling (Q : Inventory → Prop) : Prop where
  found : ∀ {i : Inventory} {name : String} {values : List (Option String)},
    values.length = (i.schema.attrsFor name).length → Q i →
      Q (i.onHoldings (·.findIn .main name values)).2
  made : ∀ {i : Inventory} (e : Element), Q i → Q (i.mint e).2
  merged : ∀ {i : Inventory} (n : Nat), Q i → Q { i with merges := n }

namespace KeptByReconciling

section
variable {Q : Inventory → Prop} {i : Inventory}

theorem counterpart (hq : KeptByReconciling Q) (h : Q i) (e : Element) : Q (i.counterpart e).2 := by
  have hfirst := hq.found (i.schema.length_valuesOf e) h
  have hschema : (i.onHoldings (·.findIn .main e.name (i.schema.valuesOf e))).2.schema = i.schema :=
    schema_findIn i.holdings .main e.name (i.schema.valuesOf e)
  unfold Inventory.counterpart
  simp only
  rcases hr : i.onHoldings (·.findIn .main e.name (i.schema.valuesOf e)) with ⟨_ | current, i₁⟩
  all_goals rw [hr] at hfirst hschema
  · simp only
    split
    · exact hfirst
    · next suffix standard hs =>
      have hv : standard.length = (i₁.schema.attrsFor e.name).length := by
        rw [length_split hs, show i₁.schema = i.schema from hschema, KeySchema.length_valuesOf]
      have hsecond := hq.found hv hfirst
      split
      · next i₂ hr' => rw [hr'] at hsecond; exact hsecond
      · next i₂ hr' => rw [hr'] at hsecond; exact hsecond
  · exact hfirst

theorem mergeOutdated (hq : KeptByReconciling Q) (h : Q i) (merger : Merger) (expected : Int)
    (isUser : Bool) (e : Element) : Q (i.mergeOutdated merger expected isUser e).2 := by
  have hcounterpart := hq.counterpart h e
  unfold Inventory.mergeOutdated
  rcases hr : i.counterpart e with ⟨_ | ⟨current, suffix⟩, i₁⟩
  all_goals rw [hr] at hcounterpart
  · exact hcounterpart
  · simp only
    split
    · exact hcounterpart
    · exact hq.merged _ (hq.made _ hcounterpart)

theorem judge (hq : KeptByReconciling Q) (h : Q i) (all : List Selected) (expected : Int)
    (isUser : Bool) (s : Selected) : Q (i.judge all expected isUser s).2 := by
  unfold Inventory.judge
  split
  · exact h
  · split
    · exact hq.made s.element h
    · split
      · exact h
      · split
        · exact hq.made (s.element.setAttr Element.versionAttr (toString expected)) h
        · exact hq.mergeOutdated h _ expected isUser s.element

theorem judgeAll (hq : KeptByReconciling Q) (h : Q i) (all : List Selected) (expected : Int)
    (isUser : Bool) (r : Reconciled) (selected : List Selected) :
    Q (i.judgeAll all expected isUser r selected).2 := by
  induction selected generalizing i r with
  | nil => exact h
  | cons s rest ih =>
    have hstep := hq.judge h all expected isUser s
    rw [Inventory.judgeAll]
    rcases hr : i.judge all expected isUser s with ⟨_ | verdict, i₁⟩
    all_goals rw [hr] at hstep
    · exact hstep
    · exact ih hstep _

theorem reconcile (hq : KeptByReconciling Q) (h : Q i) (selected : List Selected) (expected : Int)
    (isUser : Bool) : Q (i.reconcile selected expected isUser).2 :=
  hq.judgeAll h selected expected isUser _ _

end

end KeptByReconciling

end Inventory

end TemplateInventory
