import TemplateInventory.Proofs.Effects
import TemplateInventory.Proofs.Files
/-!
# Loading without a merger

Without a merger an outdated element is dropped or kept as it is, so a load
writes no file (`judge_of_no_merger`). What it leads to depends on the files only by
what it finds in them: `Work.Carries` says that an operation which succeeds over
some files does the same over others, and `carries_load` that a load does, where
the others have more, but not in the directories that are read.

`Loads` is what all loading keeps: the settings, and that the version of every
grouping element can be read.
-/

namespace TemplateInventory

open Holdings

/-- Whether an element has no version, or one that can be read. -/
def Element.IsVersioned (e : Element) : Prop := ∃ v, e.version 0 = .ok v

theorem Element.isVersioned_of_version {e : Element} {default v : Int}
    (h : e.version default = .ok v) : e.IsVersioned := by
  unfold version at h
  split at h
  · next hv => exact ⟨0, by rw [version, hv]⟩
  · next raw hv => exact ⟨v, by rw [version, hv]; exact h⟩

namespace Inventory

/-- The same settings with nothing loaded. -/
def unloaded (i : Inventory) : Inventory :=
  { i with
    holdings := .empty i.schema
    memo := .empty
    stamps := []
    tagged := []
    merges := 0 }

/-- Whether the versions of all grouping elements can be read. -/
def Readable (i : Inventory) : Prop :=
  ∀ x ∈ i.holdings.main.handles, x.element.name = i.conventions.groupingElement →
    x.element.IsVersioned

/-- What loading does to an inventory; the handles in `outside` can be added next. -/
structure Loads (outside : List Handle) (i i' : Inventory) : Prop where
  moves : Moves outside i i'
  settings : i'.unloaded = i.unloaded
  readable : i.Readable → i'.Readable

section
variable {outside outside' : List Handle} {i i' i₁ i₂ : Inventory} {node : Handle}
  {all selected : List Selected} {expected : Int} {isUser : Bool} {s : Selected} {r r' : Reconciled}

/-- What does not depend on what is loaded. -/
theorem eq_of_unloaded {α : Type} (f : Inventory → α) (hf : ∀ i, f i.unloaded = f i)
    (h : i'.unloaded = i.unloaded) : f i' = f i := by
  rw [← hf i', h, hf]

theorem merger_of_unloaded (h : i'.unloaded = i.unloaded) : i'.merger = i.merger :=
  eq_of_unloaded Inventory.merger (fun _ => rfl) h

theorem Loads.stay (hc : Coherent outside i.holdings) (hh : i'.holdings = i.holdings)
    (hu : i'.unloaded = i.unloaded) : Loads outside i i' := by
  have hv : i'.conventions = i.conventions := eq_of_unloaded _ (fun _ => rfl) hu
  refine ⟨.stay hc hh hv, hu, fun hr => ?_⟩
  rwa [Readable, hh, hv]

theorem Loads.trans (h : Loads outside i i₁) (h' : Loads outside' i₁ i₂) : Loads outside' i i₂ :=
  ⟨h.moves.trans h'.moves, h'.settings.trans h.settings, fun hr => h'.readable (h.readable hr)⟩

/-! ## Reconciling -/

/-- Without a merger an element is kept or dropped. -/
theorem judge_of_no_merger (hm : i.merger = none) : i.judge all expected isUser s =
    match effectiveVersion all expected isUser s with
    | .error e => (.error e, i)
    | .ok v =>
      if v = expected ∨ s.element.base.isSome = true then
        (.ok (.kept (.fresh i.holdings.nextSerial s.element)), (i.mint s.element).2)
      else (.ok .dropped, i) := by
  unfold judge
  cases effectiveVersion all expected isUser s with
  | error e => rfl
  | ok v => rw [hm]; rfl

theorem isVersioned_of_effectiveVersion {v : Int}
    (h : effectiveVersion all expected isUser s = .ok v) : s.element.IsVersioned := by
  unfold effectiveVersion at h
  split at h
  · cases h
  · next v' hv => exact Element.isVersioned_of_version hv

theorem judgeAll_of_no_merger (hm : i.merger = none)
    (h : i.judgeAll all expected isUser r selected = (.ok r', i')) :
    r'.changed = r.changed ∧
      (∀ x ∈ r'.survivors,
        x ∈ r.survivors ∨ x.element.IsVersioned ∧ ∃ s ∈ selected, x.element = s.element) ∧
      ∃ n, i' = { i with holdings := { i.holdings with nextSerial := n } } := by
  induction selected generalizing i r with
  | nil =>
    cases h
    exact ⟨rfl, fun _ => .inl, _, rfl⟩
  | cons s rest ih =>
    rw [judgeAll, judge_of_no_merger hm] at h
    cases hv : effectiveVersion all expected isUser s with
    | error e => rw [hv] at h; cases h
    | ok v =>
      rw [hv] at h
      simp only at h
      split at h
      · next he =>
        split at he
        · cases he
        · cases he
      · next verdict i₁ he =>
        split at he
        · cases he
          obtain ⟨hchanged, hsurvivors, n, hi'⟩ := ih (i := (i.mint s.element).2) hm h
          refine ⟨hchanged, fun x hx => ?_, n, hi'⟩
          rcases hsurvivors x hx with hold | ⟨hversioned, t, ht, hxt⟩
          · rcases List.mem_append.1 hold with hold | hnew
            · exact .inl hold
            · rw [List.mem_singleton.1 hnew]
              exact .inr ⟨isVersioned_of_effectiveVersion hv, s, List.mem_cons_self, rfl⟩
          · exact .inr ⟨hversioned, t, List.mem_cons_of_mem s ht, hxt⟩
        · cases he
          obtain ⟨hchanged, hsurvivors, hi'⟩ := ih hm h
          refine ⟨hchanged, fun x hx => (hsurvivors x hx).imp_right ?_, hi'⟩
          rintro ⟨hversioned, t, ht, hxt⟩
          exact ⟨hversioned, t, List.mem_cons_of_mem s ht, hxt⟩

theorem loads_reconcile (hc : Coherent [] i.holdings) (hm : i.merger = none)
    (h : i.reconcile selected expected isUser = (.ok r, i')) :
    r.changed = false ∧
      (∀ x ∈ r.survivors,
        x.element.IsVersioned ∧ ∃ s ∈ firstOfEachForm [] selected, x.element = s.element) ∧
      Loads r.survivors i i' := by
  obtain ⟨hchanged, hsurvivors, n, hi'⟩ := judgeAll_of_no_merger hm h
  have hmoves := moves_reconcile hc selected expected isUser
  rw [h] at hmoves
  refine ⟨hchanged, fun x hx => (hsurvivors x hx).resolve_left List.not_mem_nil, hmoves, ?_, ?_⟩
  · rw [hi']
    rfl
  · rw [hi']
    exact fun hr => hr

/-! ## Adding -/

/-- Adding an element adds none of the names that its own is not among. -/
theorem mem_add_other {p : String → Bool} {h : Holdings} {x : Handle}
    (hc : Coherent (node :: outside) h) (hn : p node.element.name = false)
    (hx : p x.element.name = true) (hmem : x ∈ (h.add node).2.main.handles) :
    x ∈ h.main.handles := by
  have hb := (Beside.add hc hn).listed .main
  have hlisted : (h.schema.keyOf x.element, x) ∈ (h.add node).2.listed p .main := by
    rw [listed, mem_keyed, schema_add]
    exact ⟨hmem, hx, rfl⟩
  rw [hb, listed, mem_keyed] at hlisted
  exact hlisted.1

theorem unloaded_addAny (i : Inventory) (node : Handle) :
    (i.addAny node).2.unloaded = i.unloaded := by
  unfold addAny addGrouping
  split
  · split <;> rfl
  · simp [unloaded, add, onHoldings, schema]

theorem loads_addAny (hc : Coherent (node :: outside) i.holdings) (hv : node.element.IsVersioned) :
    Loads (node :: outside) i (i.addAny node).2 := by
  have hmoves := moves_addAny hc
  refine ⟨hmoves, i.unloaded_addAny node, fun hr x hx hn => ?_⟩
  rw [hmoves.conventions] at hn
  unfold addAny at hx
  split at hx
  · unfold addGrouping at hx
    split at hx
    · exact hr x hx hn
    · rcases Store.mem_replace hx with hx | rfl
      · exact hr x hx hn
      · exact hv
  · next hother =>
    exact hr x (mem_add_other (p := (· = i.conventions.groupingElement)) hc (by simpa using hother)
      (by simpa using hn) hx) hn

theorem unloaded_noteTagged (i : Inventory) (node : Handle) :
    (i.noteTagged node).unloaded = i.unloaded := by
  unfold noteTagged
  split <;> rfl

theorem unloaded_addRead (i : Inventory) (nodes : List Handle) :
    (i.addRead nodes).2.unloaded = i.unloaded := by
  induction nodes generalizing i with
  | nil => rfl
  | cons node nodes ih =>
    have hstep := ((i.noteTagged node).unloaded_addAny node).trans (i.unloaded_noteTagged node)
    rw [addRead]
    rcases hr : (i.noteTagged node).addAny node with ⟨_ | u, i₁⟩
    all_goals rw [hr] at hstep
    · exact hstep
    · exact (ih i₁).trans hstep

theorem loads_addRead {nodes : List Handle} (hc : Coherent nodes i.holdings)
    (hv : ∀ x ∈ nodes, x.element.IsVersioned) : Loads [] i (i.addRead nodes).2 := by
  induction nodes generalizing i with
  | nil => exact .stay hc rfl rfl
  | cons node nodes ih =>
    have hnote : Loads (node :: nodes) i (i.noteTagged node) :=
      .stay hc (holdings_noteTagged i node) (unloaded_noteTagged i node)
    have hadd := hnote.trans (loads_addAny hnote.moves.coherent (hv node List.mem_cons_self))
    rw [addRead]
    rcases hr : (i.noteTagged node).addAny node with ⟨_ | _, i'⟩
    all_goals rw [hr] at hadd
    · exact ⟨hadd.moves.subset fun x hx => absurd hx List.not_mem_nil, hadd.settings, hadd.readable⟩
    · exact hadd.trans (ih hadd.moves.leave.coherent fun x hx => hv x (List.mem_cons_of_mem node hx))

end

end Inventory

namespace Work

open Inventory

section
variable {α β : Type} {work : Work α} {t t' : FileTree} {i : Inventory}
  {post : α → Inventory → Prop}

/-! ## The same over other files -/

/-- Whether an operation that succeeds over the files `t` leads to `post`, writes
nothing, and does the same over `t'`. -/
def Carries (work : Work α) (t t' : FileTree) (i : Inventory) (post : α → Inventory → Prop) : Prop :=
  ∀ a w, work.runOn ⟨i, t⟩ = (.ok a, w) →
    w.files = t ∧ post a w.inventory ∧ work.runOn ⟨i, t'⟩ = (.ok a, ⟨w.inventory, t'⟩)

theorem carries_pure {a : α} (h : post a i) : (pure a : Work α).Carries t t' i post := by
  intro a' w hw
  cases hw
  exact ⟨rfl, h, rfl⟩

theorem carries_inventory {post : Inventory → Inventory → Prop} (h : post i i) :
    inventory.Carries t t' i post := by
  intro a w hw
  cases hw
  exact ⟨rfl, h, rfl⟩

theorem carries_modifyInventory {f : Inventory → Inventory} {post : Unit → Inventory → Prop}
    (h : post () (f i)) : (modifyInventory f).Carries t t' i post := by
  intro a w hw
  cases hw
  exact ⟨rfl, h, rfl⟩

theorem carries_onInventory {f : Inventory → Except InventoryError α × Inventory}
    (h : ∀ a i', f i = (.ok a, i') → post a i') : (onInventory f).Carries t t' i post := by
  intro a w hw
  change ((f i).1, (⟨(f i).2, t⟩ : Workspace)) = (.ok a, w) at hw
  rcases hf : f i with ⟨r, i'⟩
  rw [hf] at hw
  cases hw
  refine ⟨rfl, h a i' hf, ?_⟩
  change ((f i).1, (⟨(f i).2, t'⟩ : Workspace)) = _
  rw [hf]

theorem carries_ask {f : Workspace → Except InventoryError α} (hp : ∀ a, f ⟨i, t⟩ = .ok a → post a i)
    (h : ∀ a, f ⟨i, t⟩ = .ok a → f ⟨i, t'⟩ = .ok a) : (ask f).Carries t t' i post := by
  intro a w hw
  change (f ⟨i, t⟩, (⟨i, t⟩ : Workspace)) = (.ok a, w) at hw
  rw [Prod.mk.injEq] at hw
  obtain ⟨ha, rfl⟩ := hw
  refine ⟨rfl, hp a ha, ?_⟩
  change (f ⟨i, t'⟩, (⟨i, t'⟩ : Workspace)) = _
  rw [h a ha]

theorem Carries.bind {f : α → Work β} {post' : β → Inventory → Prop} (h : work.Carries t t' i post)
    (hf : ∀ a i', post a i' → (f a).Carries t t' i' post') : (work >>= f).Carries t t' i post' := by
  intro b w hw
  rw [runOn_bind] at hw
  rcases hr : work.runOn ⟨i, t⟩ with ⟨_ | a, i', files⟩
  · rw [hr] at hw
    cases hw
  · rw [hr] at hw
    obtain ⟨hfiles, hpost, hother⟩ := h a _ hr
    obtain rfl : files = t := hfiles
    obtain ⟨hfiles', hpost', hother'⟩ := hf a i' hpost b w hw
    exact ⟨hfiles', hpost', by rw [runOn_bind, hother]; exact hother'⟩

theorem Carries.mono {post' : α → Inventory → Prop} (h : work.Carries t t' i post)
    (hp : ∀ a i', post a i' → post' a i') : work.Carries t t' i post' := by
  intro a w hw
  obtain ⟨hfiles, hpost, hother⟩ := h a w hw
  exact ⟨hfiles, hp a _ hpost, hother⟩

/-! ## Loading -/

variable {expected : Int} {isUser : Bool} {p : Path}

theorem modified_of_extends {time : Stamp} (hx : t.Extends t') (h : t.modified p = .ok time) :
    t'.modified p = .ok time := by
  unfold FileTree.modified at h ⊢
  cases hl : t.lookup p with
  | error e => rw [hl] at h; cases h
  | ok found => rw [hl] at h; rw [hx.lookup hl]; exact h

theorem readDocument_of_extends {document : Element} (hx : t.Extends t')
    (h : t.readDocument p = .ok document) : t'.readDocument p = .ok document := by
  unfold FileTree.readDocument FileTree.read at h ⊢
  cases hl : t.lookup p with
  | error e => rw [hl] at h; cases h
  | ok found => rw [hl] at h; rw [hx.lookup hl]; exact h

theorem carries_readFile (hx : t.Extends t') (hc : Coherent [] i.holdings) :
    (readFile p).Carries t t' i fun _ => Loads [] i := by
  have htime : (ask fun w => (w.files.modified p).mapError .file).Carries t t' i
      fun _ i' => i' = i := by
    refine carries_ask (fun _ _ => rfl) fun time h => ?_
    cases ht : t.modified p with
    | error e => rw [ht] at h; cases h
    | ok time' => rw [ht] at h; rw [modified_of_extends hx ht]; exact h
  refine htime.bind ?_
  rintro time _ rfl
  have hstamp : (modifyInventory fun i => { i with stamps := i.stamps ++ [⟨p, time⟩] }).Carries t t' _
      fun _ => Loads [] _ := carries_modifyInventory (.stay hc rfl rfl)
  exact hstamp.bind fun _ i' hl =>
    carries_ask (fun _ _ => hl) fun document => readDocument_of_extends hx

/-- Nothing is written, since without a merger nothing is brought up to date. -/
theorem carries_addFile (hx : t.Extends t') (hc : Coherent [] i.holdings) (hm : i.merger = none)
    (expected : Int) (isUser : Bool) (p : Path) :
    (addFile expected isUser p).Carries t t' i fun _ => Loads [] i := by
  refine (carries_readFile hx hc).bind fun document i₁ hl₁ => ?_
  have hm₁ : i₁.merger = none := (merger_of_unloaded hl₁.settings).trans hm
  have hjudged : (onInventory fun i => i.reconcile (i.selection.select document) expected
      isUser).Carries t t' i₁ fun r i' => r.changed = false ∧
        (∀ x ∈ r.survivors, x.element.IsVersioned) ∧ Loads r.survivors i i' := by
    refine carries_onInventory fun r i₂ hr => ?_
    obtain ⟨hchanged, hsurvivors, hl₂⟩ := loads_reconcile hl₁.moves.coherent hm₁ hr
    exact ⟨hchanged, fun x hx => (hsurvivors x hx).1, hl₁.trans hl₂⟩
  refine hjudged.bind ?_
  rintro r i₂ ⟨hchanged, hversioned, hl₂⟩
  simp only [hchanged, Bool.false_eq_true, if_false]
  refine carries_onInventory fun _ i₃ hr => ?_
  have hl₃ := loads_addRead hl₂.moves.coherent hversioned
  rw [hr] at hl₃
  exact hl₂.trans hl₃

theorem carries_addFiles (hx : t.Extends t') (hc : Coherent [] i.holdings) (hm : i.merger = none)
    (expected : Int) (isUser : Bool) (paths : List Path) :
    (addFiles expected isUser paths).Carries t t' i fun _ => Loads [] i := by
  induction paths generalizing i with
  | nil => exact carries_pure (.stay hc rfl rfl)
  | cons p rest ih =>
    refine (carries_addFile hx hc hm expected isUser p).bind fun _ i' hl => ?_
    have hrest := ih hl.moves.coherent ((merger_of_unloaded hl.settings).trans hm)
    exact hrest.mono fun _ _ hl' => hl.trans hl'

theorem carries_addDirectory (hx : t.Extends t') {kind : SourceKind} {directory : Path}
    (hf : t'.filesIn directory = t.filesIn directory) (hc : Coherent [] i.holdings)
    (hm : i.merger = none) (expected : Int) :
    (addDirectory kind expected directory).Carries t t' i fun _ => Loads [] i := by
  have hfound : (ask fun w => w.inventory.filesOf w.files kind directory).Carries t t' i
      fun _ i' => i' = i := by
    refine carries_ask (fun _ _ => rfl) fun found h => ?_
    unfold filesOf FilePattern.scan at h ⊢
    simp only [hf]
    exact h
  refine hfound.bind ?_
  rintro found _ rfl
  exact carries_addFiles hx hc hm expected _ _

theorem carries_addSources (hx : t.Extends t') {sources : List Source}
    (hf : ∀ s ∈ sources, t'.filesIn s.path = t.filesIn s.path) (hc : Coherent [] i.holdings)
    (hm : i.merger = none) : (addSources sources).Carries t t' i fun _ => Loads [] i := by
  induction sources generalizing i with
  | nil => exact carries_pure (.stay hc rfl rfl)
  | cons s rest ih =>
    have hself : inventory.Carries t t' i fun _ i' => i' = i := carries_inventory rfl
    refine hself.bind ?_
    rintro i₀ _ rfl
    refine (carries_addDirectory hx (hf s List.mem_cons_self) hc hm i₀.version).bind ?_
    intro _ i' hl
    have hrest := ih (fun s' hs => hf s' (List.mem_cons_of_mem s hs)) hl.moves.coherent
      ((merger_of_unloaded hl.settings).trans hm)
    exact hrest.mono fun _ _ hl' => hl.trans hl'

/-- A load finds the same where its directories hold the same. -/
theorem carries_load (hx : t.Extends t')
    (hf : ∀ s ∈ i.sources.entries, t'.filesIn s.2.path = t.filesIn s.2.path)
    (hc : Coherent [] i.holdings) (hm : i.merger = none) :
    load.Carries t t' i fun _ => Loads [] i.clear := by
  have hclear : (modifyInventory (·.clear)).Carries t t' i fun _ i' => i' = i.clear :=
    carries_modifyInventory rfl
  refine hclear.bind ?_
  rintro _ _ rfl
  have hself : inventory.Carries t t' i.clear fun a i' => a = i.clear ∧ i' = i.clear :=
    carries_inventory ⟨rfl, rfl⟩
  refine hself.bind ?_
  rintro _ _ ⟨rfl, rfl⟩
  refine carries_addSources hx (fun s hs => ?_) hc.clear hm
  obtain ⟨e, he, rfl⟩ := List.mem_map.1 hs
  exact hf e he

end

end Work

end TemplateInventory
