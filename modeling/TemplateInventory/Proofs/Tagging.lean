import TemplateInventory.Proofs.Seen
/-!
# Tagged layouts that were read

A tagged layout that is read is noted, and then added. Calls that add nothing but what
they read (`Gathered`) therefore keep that what is noted is tagged, and that a tagged
layout which is held or remembered and has no base is noted (`Inventory.Noted`): what
unifying makes has the base of its alteration. So a served layout of that kind is
noted (`Gathered.noted_of_served`). Other definitions of its key may be noted before it,
since nothing that was noted is ever taken away before the next load.
-/

namespace TemplateInventory

open Holdings Inventory

/-- What calls lead to that add nothing but what they read, from an inventory with
nothing loaded. -/
inductive Gathered : Workspace → Prop
  | start {i : Inventory} {schema : KeySchema} (files : FileTree) (hh : i.holdings = .empty schema)
      (hs : i.stamps = []) (ht : i.tagged = []) (hm : i.memo = .empty) : Gathered ⟨i, files⟩
  | step {w : Workspace} {r : Call} (hw : Gathered w) (hr : r.OnlyReads) : Gathered (w.run r)

theorem Call.OnlyReads.accepts {r : Call} (hr : r.OnlyReads) (w : Workspace) : w.Accepts r := by
  cases r with
  | add node => exact hr.elim
  | addGrouping node => exact hr.elim
  | _ => trivial

namespace Gathered

theorem reachable {w : Workspace} (hw : Gathered w) : Reachable w := by
  induction hw with
  | start files hh hs ht hm => exact .start files hh hs ht hm
  | step _ hr ih => exact ih.step (hr.accepts _)

/-- What the steps of loading keep holds of what is gathered, if it holds of nothing. -/
theorem keeps {Q : Inventory → Prop} (hk : KeptByLoading Q)
    (h₀ : ∀ i schema, i.holdings = .empty schema → i.tagged = [] → Q i) {w : Workspace}
    (hw : Gathered w) : Q w.inventory := by
  induction hw with
  | @start i schema files hh _ ht _ => exact h₀ i schema hh ht
  | step _ hr ih => exact hk.run hr ih

end Gathered

/-! ## What is noted -/

namespace Inventory

/-- Whether a tagged layout has to be noted. -/
def NotedIfTagged (i : Inventory) (e : Element) : Prop :=
  e.base = none → i.isTagged e = true → ∃ x ∈ i.tagged, x.element = e

/-- What is noted is tagged, and the tagged layouts that were read are noted. -/
structure Noted (i : Inventory) : Prop where
  coherent : Coherent [] i.holdings
  recalls : Recalls i.holdings
  seen : OnlySees (·.base.isSome = true) i.NotedIfTagged i.holdings
  tagged : ∀ x ∈ i.tagged, i.isTagged x.element = true

section
variable {i : Inventory} {node : Handle}

/-- A unified element has a base, as its alteration has one. -/
theorem unifies_notedIfTagged (i : Inventory) (s : KeySchema) :
    s.Unifies (·.base.isSome = true) i.NotedIfTagged := by
  intro a b _ ha _ _ _ _ hnone
  have hbase : (unify s a b).base = (a.base <|> b.base) := attr_unify s a b Element.baseAttr
  obtain ⟨base, hb⟩ := Option.isSome_iff_exists.1 ha
  rw [hbase, hb] at hnone
  cases hnone

theorem tagged_noteTagged (i : Inventory) (node : Handle) :
    (i.noteTagged node).tagged =
      i.tagged ++ if i.isTagged node.element = true then [node] else [] := by
  unfold noteTagged
  split
  · rfl
  · exact (List.append_nil _).symm

theorem isTagged_noteTagged (i : Inventory) (node : Handle) (e : Element) :
    (i.noteTagged node).isTagged e = i.isTagged e := by
  rw [isTagged, conventions_noteTagged]
  rfl

theorem notedIfTagged_noteTagged (i : Inventory) (node : Handle) :
    (i.noteTagged node).NotedIfTagged node.element := by
  intro _ ht
  rw [isTagged_noteTagged] at ht
  refine ⟨node, ?_, rfl⟩
  rw [tagged_noteTagged, if_pos ht]
  exact List.mem_append_right _ List.mem_cons_self

theorem Noted.noteTagged (hn : i.Noted) (node : Handle) : (i.noteTagged node).Noted where
  coherent := holdings_noteTagged i node ▸ hn.coherent
  recalls := holdings_noteTagged i node ▸ hn.recalls
  seen := by
    rw [holdings_noteTagged]
    refine hn.seen.mono fun e he hb ht => ?_
    rw [isTagged_noteTagged] at ht
    obtain ⟨x, hx, rfl⟩ := he hb ht
    exact ⟨x, by rw [tagged_noteTagged]; exact List.mem_append_left _ hx, rfl⟩
  tagged x hx := by
    rw [isTagged_noteTagged]
    rw [tagged_noteTagged] at hx
    rcases List.mem_append.1 hx with hx | hx
    · exact hn.tagged x hx
    · split at hx
      · next ht => rwa [List.mem_singleton.1 hx]
      · cases hx

theorem Noted.addAny (hn : i.Noted) (hc : Coherent [node] i.holdings)
    (hx : i.NotedIfTagged node.element) : (i.addAny node).2.Noted := by
  unfold Inventory.addAny
  split
  · unfold addGrouping
    split
    · exact hn
    · exact ⟨(hc.replace .main _ (.inl List.mem_cons_self) (by simp)).leave, hn.recalls.setMain _,
        hn.seen.replace .main _ hx (by simp), hn.tagged⟩
  · exact ⟨hc.add.leave, hn.recalls.add hc,
      hn.seen.add (unifies_notedIfTagged _ _) hn.recalls hc hx id, hn.tagged⟩

theorem keptByLoading_noted : KeptByLoading Noted where
  coherent hn := hn.coherent
  found hv hn := ⟨hn.coherent.findIn, hn.recalls.findIn hv, hn.seen.findIn, hn.tagged⟩
  resolved hv hn := ⟨hn.coherent.resolve, hn.recalls.resolve hn.coherent hv,
    hn.seen.resolve (unifies_notedIfTagged _ _) hn.recalls hn.coherent hv, hn.tagged⟩
  made {i} _ hn := ⟨(hn.coherent.make (x := .fresh i.holdings.nextSerial default) rfl).leave,
    hn.recalls.serial _, hn.seen.serial _, hn.tagged⟩
  settings hn := ⟨hn.coherent, hn.recalls, hn.seen, hn.tagged⟩
  cleared hn := ⟨hn.coherent.clear, recalls_clear _, onlySees_clear _ _ _,
    fun _ hx => absurd hx List.not_mem_nil⟩
  taken {i node} hc hn := (hn.noteTagged node).addAny (by rwa [holdings_noteTagged])
    (notedIfTagged_noteTagged i node)

end

end Inventory

namespace Gathered

theorem noted {w : Workspace} (hw : Gathered w) : w.inventory.Noted :=
  hw.keeps keptByLoading_noted fun i schema hh ht =>
    ⟨hh ▸ coherent_empty schema, hh ▸ recalls_empty schema,
      hh ▸ onlySees_clear _ _ (.empty schema), fun x hx => by rw [ht] at hx; cases hx⟩

/-- A tagged layout that is served and has no base is noted. -/
theorem noted_of_served {w : Workspace} (hw : Gathered w) {name : String}
    {values : List (Option String)} {x : Handle}
    (hx : (w.inventory.getElement name values).1 = some x) (hb : x.element.base = none)
    (ht : w.inventory.isTagged x.element = true) :
    ∃ y ∈ w.inventory.tagged, y.element = x.element := by
  have hasked : Gathered (w.run (.getElement name values)) := hw.step (r := .getElement name values) trivial
  exact hasked.noted.seen.seen x (.inr ⟨_, Coherent.remembered_resolve hx⟩) hb ht

end Gathered

end TemplateInventory
