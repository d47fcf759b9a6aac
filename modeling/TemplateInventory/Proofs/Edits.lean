import TemplateInventory.Proofs.Groupings
import TemplateInventory.Proofs.Reload
import TemplateInventory.Proofs.Selections
import TemplateInventory.Proofs.Versions
/-!
# Saved elements that are loaded

`Work.persist` looks for the place of an element along the chain of first children, and
takes away one element of its key there. A load goes through all wrappers, counts what is
written alike once, and serves the last element of a key. So what was saved is served if
nothing of its key that is written differently comes after it, or after what is written
like it, and it is not taken for outdated: `Inventory.Yields`, `persisted_served`.
-/

namespace TemplateInventory

open Holdings Inventory

/-! ## Adding one after the other -/

section
variable {i : Inventory} {nodes later : List Handle} {x node : Handle} {k : ElementKey}
  {o : Option Handle}

theorem addRead_append_ok (h : (i.addRead (nodes ++ later)).1 = .ok ()) :
    ∃ i₁, i.addRead nodes = (.ok (), i₁) ∧ i.addRead (nodes ++ later) = i₁.addRead later := by
  induction nodes generalizing i with
  | nil => exact ⟨i, rfl, rfl⟩
  | cons node nodes ih =>
    rw [List.cons_append, addRead] at h ⊢
    rw [addRead]
    rcases hr : (i.noteTagged node).addAny node with ⟨_ | u, i₁⟩
    · rw [hr] at h
      cases h
    · rw [hr] at h
      exact ih h

/-- A key has the answer that it had while elements of other keys are added, and
grouping elements. -/
theorem answered_addAny (ha : i.holdings.Answered k o) (hs : k.store = .main)
    (hn : node.element.name = i.conventions.groupingElement ∨ i.schema.keyOf node.element ≠ k) :
    (i.addAny node).2.holdings.Answered k o := by
  unfold addAny
  split
  · unfold addGrouping
    split
    · exact ha
    · exact ha.congr rfl rfl
  · next hordinary => exact ha.add hs (hn.resolve_left hordinary)

theorem answered_addRead (ha : i.holdings.Answered k o) (hs : k.store = .main)
    (hn : ∀ x ∈ nodes, x.element.name = i.conventions.groupingElement ∨
      i.schema.keyOf x.element ≠ k) : (i.addRead nodes).2.holdings.Answered k o := by
  induction nodes generalizing i with
  | nil => exact ha
  | cons node nodes ih =>
    have hsettings := ((i.noteTagged node).unloaded_addAny node).trans (i.unloaded_noteTagged node)
    have hstep : ((i.noteTagged node).addAny node).2.holdings.Answered k o :=
      answered_addAny (by rwa [holdings_noteTagged]) hs (by
        rw [conventions_noteTagged, Inventory.schema, holdings_noteTagged]
        exact hn node List.mem_cons_self)
    rw [addRead]
    rcases hr : (i.noteTagged node).addAny node with ⟨_ | u, i₁⟩
    all_goals rw [hr] at hstep hsettings
    · exact hstep
    · refine ih hstep fun x hx => ?_
      rw [eq_of_unloaded Inventory.conventions (fun _ => rfl) hsettings,
        eq_of_unloaded Inventory.schema (fun _ => rfl) hsettings]
      exact hn x (List.mem_cons_of_mem node hx)

/-- The last element of a key is served, if it has no base. -/
theorem served_of_last (hb : x.element.base = none)
    (hn : x.element.name ≠ i.conventions.groupingElement)
    (hlater : ∀ y ∈ later, y.element.name = i.conventions.groupingElement ∨
      i.schema.keyOf y.element ≠ i.schema.keyOf x.element)
    (hok : (i.addRead (nodes ++ x :: later)).1 = .ok ()) :
    ((i.addRead (nodes ++ x :: later)).2.getElement x.element.name
      (i.schema.valuesOf x.element)).1 = some x := by
  have hsettings := i.unloaded_addRead nodes
  obtain ⟨i₁, hfirst, hrest⟩ := addRead_append_ok hok
  rw [hfirst] at hsettings
  have hschema : i₁.schema = i.schema := eq_of_unloaded _ (fun _ => rfl) hsettings
  have hconventions : i₁.conventions = i.conventions := eq_of_unloaded _ (fun _ => rfl) hsettings
  let i₂ : Inventory :=
    { i₁.noteTagged x with holdings := i₁.holdings.addPlain (i.schema.keyOf x.element) x }
  have hadd : (i₁.noteTagged x).addAny x = (.ok (), i₂) := by
    rw [addAny, conventions_noteTagged, hconventions, if_neg hn, Inventory.add, onHoldings,
      holdings_noteTagged, add_plain hb, show i₁.holdings.schema = i.schema from hschema]
  have hanswered : i₂.holdings.Answered (i.schema.keyOf x.element) (some x) :=
    (get_remember _ _ _ _).trans (if_pos rfl)
  have hfinal : (i₂.addRead later).2.holdings.Answered (i.schema.keyOf x.element) (some x) := by
    refine answered_addRead hanswered rfl fun y hy => ?_
    rw [show i₂.conventions = i.conventions from (conventions_noteTagged i₁ x).trans hconventions,
      show i₂.schema = i.schema from hschema]
    exact hlater y hy
  have hlast : (i₂.addRead later).2.schema = i.schema :=
    (eq_of_unloaded _ (fun _ => rfl) (i₂.unloaded_addRead later)).trans hschema
  rw [hrest, addRead, hadd]
  change ((i₂.addRead later).2.holdings.resolve [] x.element.name
    ((i₂.addRead later).2.schema.fit x.element.name (i.schema.valuesOf x.element))).1 = some x
  rw [hlast, KeySchema.fit_valuesOf]
  exact hfinal.resolve_eq

end

/-! ## Inventories that merge nothing -/

/-- Whether nothing is served and nothing remembered. -/
def Holdings.IsBlank (h : Holdings) : Prop :=
  h.main.handles = [] ∧ ∀ k, h.remembered k = none

/-- Whether outdated elements are not merged: there is no merger, or nothing that they
could be merged with. -/
def Inventory.MergesNothing (i : Inventory) : Prop := i.merger = none ∨ i.holdings.IsBlank

section
variable {h : Holdings} {i j : Inventory} {all selected later : List Selected} {expected : Int}
  {isUser : Bool} {s t : Selected} {verdict : Verdict} {x : Handle}

theorem Holdings.IsBlank.findIn (hb : h.IsBlank) (name : String) (values : List (Option String)) :
    (h.findIn .main name values).1 = none ∧ (h.findIn .main name values).2.IsBlank := by
  have hnone : (h.findIn .main name values).1 = none := by
    refine Option.eq_none_iff_forall_ne_some.2 fun x hx => ?_
    rcases remembered_or_search hx with hx | hx
    · rw [hb.2] at hx
      cases hx
    · have hmem := mem_of_search hx
      rw [show (h.store .main).handles = [] from hb.1] at hmem
      cases hmem
  refine ⟨hnone, (congrArg Store.handles (store_findIn h .main .main name values)).trans hb.1,
    fun k => ?_⟩
  rw [remembered_findIn, hnone, hb.2, ite_self]

theorem Inventory.counterpart_of_blank (hb : i.holdings.IsBlank) (e : Element) :
    (i.counterpart e).1 = none ∧ (i.counterpart e).2.holdings.IsBlank := by
  obtain ⟨hfirst, hblank⟩ := hb.findIn e.name (i.schema.valuesOf e)
  have hfind : i.onHoldings (·.findIn .main e.name (i.schema.valuesOf e)) = (none,
      { i with holdings := (i.holdings.findIn .main e.name (i.schema.valuesOf e)).2 }) :=
    Prod.ext hfirst rfl
  unfold counterpart
  simp only [hfind]
  split
  · exact ⟨rfl, hblank⟩
  · next suffix standard _ =>
    obtain ⟨hsecond, hblank'⟩ := hblank.findIn e.name standard
    unfold onHoldings
    simp only [hsecond]
    exact ⟨trivial, hblank'⟩

/-- Judging an element keeps the settings. -/
theorem Inventory.unloaded_judge (i : Inventory) (all : List Selected) (expected : Int)
    (isUser : Bool) (s : Selected) : (i.judge all expected isUser s).2.unloaded = i.unloaded :=
  KeptByReconciling.judge (Q := (unloaded · = i.unloaded))
    ⟨fun {j} name values _ h =>
      (show (j.onHoldings (·.findIn .main name values)).2.unloaded = j.unloaded by
        simp [unloaded, onHoldings, Inventory.schema]).trans h,
      fun _ h => h, fun _ h => h⟩
    rfl all expected isUser s

theorem Inventory.MergesNothing.judge (hm : i.MergesNothing) :
    (i.judge all expected isUser s).2.MergesNothing := by
  rcases hm with hm | hb
  · exact .inl ((merger_of_unloaded (i.unloaded_judge all expected isUser s)).trans hm)
  · refine .inr ?_
    unfold Inventory.judge
    split
    · exact hb
    · split
      · exact hb
      · split
        · exact hb
        · split
          · exact hb
          · obtain ⟨hnone, hblank⟩ := counterpart_of_blank hb s.element
            unfold mergeOutdated
            split
            · next hr => rwa [hr] at hblank
            · next hr => rw [hr] at hnone; cases hnone

/-- What survives is as it was, or is a grouping element. -/
theorem Inventory.Becomes.unmerged (h : Becomes i all expected isUser s verdict)
    (hm : i.MergesNothing) (hx : x ∈ verdict.handles) :
    x.element = s.element ∨ x.element.name = i.conventions.groupingElement := by
  cases h with
  | dropped => cases hx
  | kept =>
    obtain rfl := List.mem_singleton.1 hx
    exact .inl rfl
  | restamped _ hn =>
    obtain rfl := List.mem_singleton.1 hx
    exact .inr hn
  | merged _ _ _ _ hmerger hcurrent =>
    rcases hm with hm | hb
    · rw [hm] at hmerger
      cases hmerger
    · rw [(counterpart_of_blank hb s.element).1] at hcurrent
      cases hcurrent

/-- A current element survives, and after it nothing but what comes after it. -/
theorem survivors_around (hforms : firstOfEachForm [] all = selected ++ s :: later)
    (hs : IsCurrent all expected isUser s) (hm : i.MergesNothing) {r : Reconciled} {i' : Inventory}
    (hr : i.reconcile all expected isUser = (.ok r, i')) :
    i'.unloaded = i.unloaded ∧ ∃ before x after, r.survivors = before ++ x :: after ∧
      x.element = s.element ∧ ∀ y ∈ after, (∃ t ∈ later, y.element = t.element) ∨
        y.element.name = i.conventions.groupingElement := by
  let P : Inventory → Prop := fun j => j.unloaded = i.unloaded ∧ j.MergesNothing
  have hP : ∀ j t, P j → P (j.judge all expected isUser t).2 := fun j t hj =>
    ⟨(j.unloaded_judge all expected isUser t).trans hj.1, hj.2.judge⟩
  unfold reconcile at hr
  rw [hforms] at hr
  obtain ⟨r₁, i₁, hfirst, hrest⟩ := judgeAll_append_ok hr
  obtain ⟨verdict, i₂, hj, hlast⟩ := judgeAll_cons_ok hrest
  obtain ⟨hi₁, -, -, before, hbefore, -⟩ := judgeAll_ok (P := P) hP ⟨rfl, hm⟩ hfirst
  have hi₂ := hP i₁ s hi₁
  rw [hj] at hi₂
  rw [judge_current hs] at hj
  obtain ⟨hi', -, -, after, hafter, -, hfrom⟩ := judgeAll_ok (P := P) hP hi₂ hlast
  cases hj
  refine ⟨hi'.1, r₁.survivors, .fresh i₁.holdings.nextSerial s.element, after, ?_, rfl, ?_⟩
  · rw [hafter, Reconciled.and, Verdict.handles, List.append_assoc]
    rfl
  · intro y hy
    obtain ⟨t, ht, j, verdict, hj, hbecomes, hy⟩ := hfrom y hy
    refine (hbecomes.unmerged hj.2 hy).imp (fun h => ⟨t, ht, h⟩) fun h => ?_
    rwa [eq_of_unloaded Inventory.conventions (fun _ => rfl) hj.1] at h

/-! ## The saved document -/

theorem mem_savedChildren (i : Inventory) (e : Element) (grouping : Option Element)
    (children : List Element) : e ∈ i.savedChildren e grouping children := by
  unfold savedChildren
  cases grouping <;> simp

/-- What an element is saved in has it in the first wrapper, and the other wrappers as
they were. -/
theorem select_savedDocument {e old document : Element} {grouping : Option Element}
    (h : i.savedDocument e grouping old = .ok document) :
    ∃ children later, (i.selection.select old = children.map (⟨0, ·⟩) ++ later ∨
        children = [] ∧ later = []) ∧ (∀ t ∈ later, t.wrapper ≠ 0) ∧
      i.selection.select document =
        (i.savedChildren e grouping children).map (⟨0, ·⟩) ++ later := by
  unfold savedDocument at h
  simp only at h
  cases hmap : i.selection.mapInnermost (fun wrapper : Element =>
    { wrapper with children := i.savedChildren e grouping wrapper.children }) old with
  | some d =>
    rw [hmap] at h
    cases h
    obtain ⟨w, later, hbefore, hafter, hlater⟩ :=
      Selection.select_mapInnermost (by exact fun _ => rfl) hmap
    exact ⟨w.children, later, .inl hbefore, hlater, hafter⟩
  | none =>
    rw [hmap, Selection.mapInnermost_skeleton] at h
    cases h
    exact ⟨[], [], .inr ⟨rfl, rfl⟩, nofun, by rw [Selection.select_enclosing, List.append_nil]⟩

/-- Before what is saved together stands what is left of the wrapper. -/
theorem savedChildren_eq (i : Inventory) (e : Element) (grouping : Option Element)
    (children : List Element) : ∃ kept, i.savedChildren e grouping children =
        kept ++ savedTogether e grouping ∧
      ∀ c ∈ kept, c ∈ children.eraseP fun c => i.schema.classOf c = i.schema.classOf e := by
  unfold savedChildren withoutFirst savedTogether
  cases grouping with
  | none => exact ⟨_, rfl, fun _ => id⟩
  | some g => exact ⟨_, rfl, fun c hc => List.mem_of_mem_eraseP hc⟩

/-! ## Names in the saved document -/

theorem named_mapInnermost {f : Element → Element} {d d' : Element} {s : Selection}
    (hf : ∀ w, w.Everywhere Xml.Named → (f w).Everywhere Xml.Named) (hd : d.Everywhere Xml.Named)
    (h : s.mapInnermost f d = some d') : d'.Everywhere Xml.Named := by
  have hbelow : ∀ names e e', Selection.mapInnermostBelow f names e = some e' →
      e.Everywhere Xml.Named → e'.Everywhere Xml.Named := by
    intro names
    induction names with
    | nil =>
      intro e e' h he
      cases h
      exact hf e he
    | cons name names ih =>
      intro e e' h he
      unfold Selection.mapInnermostBelow at h
      split at h
      · cases h
      · next c cs hcs =>
        split at h
        · obtain ⟨c', hc', rfl⟩ := Option.map_eq_some_iff.1 h
          refine Element.everywhere_iff.2 ⟨he.self, List.forall_mem_cons.2 ⟨?_, fun x hx => ?_⟩⟩
          · exact ih c c' hc' (he.child (hcs ▸ List.mem_cons_self))
          · exact he.child (hcs ▸ List.mem_cons_of_mem c hx)
        · cases h
  unfold Selection.mapInnermost at h
  split at h
  · exact hbelow s.inner d d' h hd
  · cases h

theorem named_skeleton {s : Selection} (hs : ∀ name ∈ s.wrappers, Xml.isName name = true) :
    s.skeleton.Everywhere Xml.Named := by
  rw [Selection.skeleton, Selection.nest_eq_nestAround]
  exact (Element.isPrintable_iff.1 (Selection.isPrintable_enclosing hs rfl)).1

theorem named_savedDocument {e old document : Element} {grouping : Option Element}
    (hold : old.Everywhere Xml.Named) (hs : ∀ name ∈ i.selection.wrappers, Xml.isName name = true)
    (he : e.Everywhere Xml.Named) (hg : ∀ g ∈ grouping, g.Everywhere Xml.Named)
    (h : i.savedDocument e grouping old = .ok document) : document.Everywhere Xml.Named := by
  have hsave : ∀ w : Element, w.Everywhere Xml.Named →
      Element.Everywhere Xml.Named { w with children := i.savedChildren e grouping w.children } := by
    intro w hw
    obtain ⟨kept, hchildren, hkept⟩ := savedChildren_eq i e grouping w.children
    refine Element.everywhere_iff.2 ⟨hw.self, fun c hc => ?_⟩
    simp only [hchildren, savedTogether, List.mem_append, List.mem_cons, Option.mem_toList] at hc
    rcases hc with hc | rfl | hc
    · exact hw.child (List.mem_of_mem_eraseP (hkept c hc))
    · exact he
    · exact hg c hc
  unfold savedDocument at h
  simp only at h
  cases hmap : i.selection.mapInnermost (fun wrapper : Element =>
    { wrapper with children := i.savedChildren e grouping wrapper.children }) old with
  | some d =>
    rw [hmap] at h
    cases h
    exact named_mapInnermost hsave hold hmap
  | none =>
    rw [hmap] at h
    simp only at h
    split at h
    · next hskeleton =>
      cases h
      exact named_mapInnermost hsave (named_skeleton hs) hskeleton
    · cases h

end

/-! ## The element that is served -/

/-- Whether a load of some elements of a document serves `e`: from the first that is
written like it on, all of its key are written like it; and if the inventory has no
version, the first version in the wrapper of that one is none either. -/
structure Inventory.Yields (i : Inventory) (e : Element) (all : List Selected) : Prop where
  last : ∀ t ∈ all.dropWhile fun s => Xml.compact s.element ≠ Xml.compact e,
    i.schema.keyOf t.element = i.schema.keyOf e → Xml.compact t.element = Xml.compact e
  current : i.version = 0 → ∀ s ∈ all.find? fun s => Xml.compact s.element = Xml.compact e,
    ∀ t ∈ firstVersioned all s.wrapper, t.element.version 0 = .ok 0

/-- Whether an inventory with the same keys that merges nothing serves `e` once it has
reconciled elements of a user document and added them, if it can. -/
def Inventory.Brings (i : Inventory) (e : Element) (all : List Selected) : Prop :=
  ∀ (j j' : Inventory) (r : Reconciled), j.schema = i.schema → j.conventions = i.conventions →
    j.MergesNothing → j.reconcile all i.version true = (.ok r, j') →
    (j'.addRead r.survivors).1 = .ok () →
    ((j'.addRead r.survivors).2.getElement e.name (i.schema.valuesOf e)).1.map Handle.element =
      some e

section
variable {i : Inventory} {all : List Selected} {e : Element} {w w' : Workspace} {source : Handle}
  {p : Path}

/-- Of elements that are written alike the first counts. -/
theorem first_of_alike (hmem : ∃ t ∈ all, Xml.compact t.element = Xml.compact e) :
    ∃ s before after, all.find? (fun s => Xml.compact s.element = Xml.compact e) = some s ∧
      firstOfEachForm [] all = before ++ s :: after ∧ ∀ t ∈ after,
        (t ∈ all.dropWhile fun s => Xml.compact s.element ≠ Xml.compact e) ∧
          Xml.compact t.element ≠ Xml.compact e := by
  obtain ⟨s, hfind⟩ := Option.isSome_iff_exists.1
    (List.find?_isSome (p := fun s : Selected => decide (Xml.compact s.element = Xml.compact e)).2
      (by simpa using hmem))
  obtain ⟨halike, before, after, rfl, hbefore⟩ := List.find?_eq_some_iff_append.1 hfind
  have halike : Xml.compact s.element = Xml.compact e := by simpa using halike
  have hbefore : ∀ t ∈ before, Xml.compact t.element ≠ Xml.compact e := by simpa using hbefore
  obtain ⟨seen, hseen, hforms⟩ := firstOfEachForm_append [] before (s :: after)
  have hfresh : Xml.compact s.element ∉ seen := by
    rw [hseen]
    rintro (h | ⟨t, ht, hform⟩)
    · cases h
    · exact hbefore t ht (hform.trans halike)
  refine ⟨s, firstOfEachForm [] before, firstOfEachForm (Xml.compact s.element :: seen) after, hfind,
    ?_, fun t ht => ?_⟩
  · rw [hforms, firstOfEachForm]
    simp only [if_neg hfresh]
  · obtain ⟨hmem, hnot⟩ := mem_firstOfEachForm ht
    refine ⟨?_, fun h => hnot (by rw [h, halike]; exact List.mem_cons_self)⟩
    rw [List.dropWhile_append_of_pos (by simpa using hbefore),
      List.dropWhile_cons_of_neg (by simpa using halike)]
    exact List.mem_cons_of_mem s hmem

theorem base_stampVersion (i : Inventory) (e : Element) : (i.stampVersion e).base = e.base := by
  unfold stampVersion
  split
  · rw [Element.base, Element.attr_setAttr, if_neg (by decide), Element.base]
  · rfl

theorem Inventory.Yields.isCurrent {s : Selected} (hy : i.Yields e all)
    (hfind : all.find? (fun s => Xml.compact s.element = Xml.compact e) = some s)
    (hs : s.element.version 0 = .ok i.version) : IsCurrent all i.version true s := by
  refine ⟨i.version, ?_, .inl rfl⟩
  by_cases hzero : i.version = 0
  · rw [effectiveVersion_borrowed (hzero ▸ hs), hzero]
    cases hfirst : firstVersioned all s.wrapper with
    | none => rfl
    | some t => exact hy.current hzero s hfind t hfirst
  · exact effectiveVersion_own hs hzero

/-- Elements of a document that yield `e` bring it. -/
theorem Inventory.Yields.brings (hy : i.Yields e all) (hversion : e.version 0 = .ok i.version)
    (hb : e.base = none) (hn : e.name ≠ i.conventions.groupingElement)
    (halike : ∀ t ∈ all, Xml.compact t.element = Xml.compact e → t.element = e)
    (hmem : ∃ t ∈ all, t.element = e) : i.Brings e all := by
  intro j j' r hschema hconventions hm hr hok
  obtain ⟨s, before, after, hfind, hforms, hafter⟩ :=
    first_of_alike (e := e) (hmem.imp fun t ht => ⟨ht.1, by rw [ht.2]⟩)
  have he : s.element = e :=
    halike s (List.mem_of_find?_eq_some hfind) (by simpa using List.find?_some hfind)
  obtain ⟨hsettings, sooner, x, later, hsurvivors, hx, hlater⟩ :=
    survivors_around hforms (hy.isCurrent hfind (he ▸ hversion)) hm hr
  have hschema' : j'.schema = i.schema := (eq_of_unloaded _ (fun _ => rfl) hsettings).trans hschema
  have hconventions' : j'.conventions = i.conventions :=
    (eq_of_unloaded _ (fun _ => rfl) hsettings).trans hconventions
  have hxe : x.element = e := hx.trans he
  rw [hsurvivors] at hok ⊢
  have hserved := served_of_last (hxe ▸ hb) (by rwa [hxe, hconventions']) (fun y hy' => ?_) hok
  · rw [hxe, hschema'] at hserved
    rw [hserved]
    exact congrArg some hxe
  · rw [hconventions', hschema', hxe]
    rcases hlater y hy' with ⟨t, ht, hyt⟩ | hgroup
    · refine .inr fun hkey => (hafter t ht).2 (hy.last t (hafter t ht).1 ?_)
      rw [← hyt, hkey]
    · exact .inl (hgroup.trans (congrArg Conventions.groupingElement hconventions))

/-! ## Files that have an element once -/

/-- Whether saving an element under a path starts from the document `old`. -/
def Inventory.StartsFrom (i : Inventory) (files : FileTree) (p : Path) (old : Element) : Prop :=
  ∃ d ∈ i.userDirectory, i.documentAt (files.makeDirectories d).2 p = .ok old

/-- Whether a document has at most one element of the key of `e`, and that in its first
wrapper. -/
structure Inventory.HasOnce (i : Inventory) (e old : Element) : Prop where
  first : ∀ t ∈ i.selection.select old, i.schema.keyOf t.element = i.schema.keyOf e →
    t.wrapper = 0
  once : (i.selection.select old).countP (i.schema.keyOf ·.element = i.schema.keyOf e) ≤ 1

theorem keyOf_of_classOf {s : KeySchema} {x y : Element} (h : s.classOf x = s.classOf y) :
    s.keyOf x = s.keyOf y := by
  obtain ⟨hname, hvalues⟩ := Prod.mk.inj h
  rw [KeySchema.keyOf, KeySchema.keyOf, hname, hvalues]

theorem classOf_tidy (s : KeySchema) (e : Element) : s.classOf e.tidy = s.classOf e := by
  cases e
  rfl

/-- The only item of a kind is gone once the first of a narrower kind is taken away. -/
theorem not_of_mem_eraseP {α : Type} {p q : α → Bool} {l : List α} {c : α}
    (hpq : ∀ a, p a = true → q a = true) (honce : l.countP q ≤ 1) (hc : c ∈ l.eraseP p) :
    p c = false := by
  refine Bool.eq_false_iff.2 fun hpc => ?_
  obtain ⟨a, l₁, l₂, hl₁, ha, hl, herase⟩ := List.exists_of_eraseP (List.mem_of_mem_eraseP hc) hpc
  rw [herase] at hc
  rcases List.mem_append.1 hc with hc | hc
  · exact hl₁ c hc hpc
  · have hpos := List.countP_pos_iff.2 ⟨c, hc, hpq c hpc⟩
    rw [hl, List.countP_append, List.countP_cons_of_pos (hpq a ha)] at honce
    omega

/-- A file that had an element of a key once yields what is saved for the key, in an
inventory that has a version. -/
theorem Inventory.Saves.yields {before files : FileTree} {document : Element}
    (hs : i.Saves before e p document files) (hnamed : document.Everywhere Xml.Named)
    (he : e.isPrintable = true) (hn : e.name ≠ i.conventions.groupingElement) (hv : i.version ≠ 0)
    (honce : ∀ old, i.StartsFrom before p old → i.HasOnce e old) :
    i.Yields e (i.selection.select document.tidy) := by
  obtain ⟨name, grouping, directory, old, made, hfile, hdirectory, -, hmade, hold, hdocument, -⟩ := hs
  have honce := honce old ⟨directory, hdirectory, by rw [hmade]; exact hold⟩
  obtain ⟨hnamed', htexts⟩ := Element.isPrintable_iff.1 he
  have htidy := Element.tidy_eq_self_iff.2 htexts
  obtain ⟨children, later, hselectOld, hlater, hselect⟩ := select_savedDocument hdocument
  obtain ⟨kept, hchildren, hkept⟩ := savedChildren_eq i e grouping children
  have hother : ∀ c ∈ kept, i.schema.classOf c ≠ i.schema.classOf e := by
    have hcount : children.countP (i.schema.keyOf · = i.schema.keyOf e) ≤ 1 := by
      rcases hselectOld with hsame | ⟨rfl, -⟩
      · have hall := honce.once
        rw [hsame, List.countP_append, List.countP_map] at hall
        exact Nat.le_trans (Nat.le_add_right _ _) hall
      · exact Nat.zero_le 1
    intro c hc
    have hnot := not_of_mem_eraseP (fun a ha => by simpa using keyOf_of_classOf (by simpa using ha))
      hcount (hkept c hc)
    simpa using hnot
  have hlaterKey : ∀ t ∈ later, i.schema.keyOf t.element ≠ i.schema.keyOf e := by
    intro t ht hk
    rcases hselectOld with hsame | ⟨-, rfl⟩
    · exact hlater t ht (honce.first t (hsame ▸ List.mem_append_right _ ht) hk)
    · cases ht
  have hgroupName : ∀ g ∈ grouping, g.name = i.conventions.groupingElement := by
    obtain ⟨identity, -, hgrouping⟩ := grouping_of_fileFor hfile
    exact fun g hg => (foremost_of_groupingOf (hgrouping.symm.trans hg)).2.2.1
  have hall : i.selection.select document.tidy = kept.map (fun c => ⟨0, c.tidy⟩) ++ ⟨0, e⟩ ::
      (grouping.toList.map (fun g => ⟨0, g.tidy⟩) ++
        later.map fun t => ⟨t.wrapper, t.element.tidy⟩) := by
    rw [Selection.select_tidy, hselect, hchildren, savedTogether]
    simp [htidy, Function.comp_def]
  -- What is left of the wrapper is of other classes, so it is written differently.
  have hdifferent : ∀ t ∈ kept.map (fun c => (⟨0, c.tidy⟩ : Selected)),
      Xml.compact t.element ≠ Xml.compact e := by
    intro t ht hform
    have htnamed := Selection.everywhere_of_mem_select (hnamed.tidy fun _ h => h.tidy)
      (hall ▸ List.mem_append_left _ ht)
    obtain ⟨c, hc, rfl⟩ := List.mem_map.1 ht
    have hsame := Xml.tidy_of_compact htnamed hnamed' hform
    rw [Element.tidy_tidy, htidy] at hsame
    exact hother c hc (by rw [← classOf_tidy, hsame])
  refine ⟨fun t ht hk => ?_, fun hzero => absurd hzero hv⟩
  rw [hall, List.dropWhile_append_of_pos (by simpa using hdifferent),
    List.dropWhile_cons_of_neg (by simp)] at ht
  rcases List.mem_cons.1 ht with rfl | ht
  · rfl
  rcases List.mem_append.1 ht with ht | ht
  · obtain ⟨g, hg, rfl⟩ := List.mem_map.1 ht
    have hname : g.tidy.name = e.name := congrArg ElementKey.element hk
    rw [Selection.name_tidy, hgroupName g (by simpa using hg)] at hname
    exact absurd hname.symm hn
  · obtain ⟨u, hu, rfl⟩ := List.mem_map.1 ht
    refine absurd ?_ (hlaterKey u hu)
    rw [← hk]
    exact (keyOf_of_classOf (classOf_tidy i.schema u.element)).symm

/-! ## Saving and loading -/

/-- Whether an element can be saved so that it comes back: its names and texts can be
read, and it is an ordinary element without a base that has the inventory's version or
none. -/
structure Inventory.IsEdit (i : Inventory) (e : Element) : Prop where
  printable : e.isPrintable = true
  plain : e.base = none
  ordinary : e.name ≠ i.conventions.groupingElement
  version : e.version i.version = .ok i.version

/-- Whether all names can be read that are saved with an element. -/
structure Inventory.WritesNames (i : Inventory) (files : FileTree) (p : Path) : Prop where
  old : ∀ old, i.StartsFrom files p old → old.Everywhere Xml.Named
  wrappers : ∀ name ∈ i.selection.wrappers, Xml.isName name = true
  groupings : ∀ g ∈ i.groupings, g.element.Everywhere Xml.Named

theorem Inventory.Saves.named {before files : FileTree} {document : Element}
    (hs : i.Saves before e p document files) (he : e.isPrintable = true)
    (hnames : i.WritesNames before p) : document.Everywhere Xml.Named := by
  obtain ⟨name, grouping, directory, old, made, hfile, hdirectory, -, hmade, hold, hdocument, -⟩ := hs
  have hstart : i.StartsFrom before p old := ⟨directory, hdirectory, by rw [hmade]; exact hold⟩
  refine named_savedDocument (hnames.old old hstart) hnames.wrappers (Element.isPrintable_iff.1 he).1
    (fun g hg => ?_) hdocument
  obtain ⟨identity, -, hgrouping⟩ := grouping_of_fileFor hfile
  obtain ⟨-, -, hname, x, hx, rfl⟩ := foremost_of_groupingOf (hgrouping.symm.trans hg)
  exact hnames.groupings x (mem_groupings.2 ⟨hx, hname⟩)

/-- The document of a saved element has it as it is, and nothing else that is written
like it. -/
theorem Inventory.Saves.brings {before files : FileTree} {document : Element}
    (hs : i.Saves before e p document files) (hnamed : document.Everywhere Xml.Named)
    (he : e.isPrintable = true) (hversion : e.version 0 = .ok i.version) (hb : e.base = none)
    (hn : e.name ≠ i.conventions.groupingElement)
    (hy : i.Yields e (i.selection.select document.tidy)) :
    i.Brings e (i.selection.select document.tidy) := by
  obtain ⟨name, grouping, directory, old, made, -, -, -, -, -, hdocument, -⟩ := hs
  obtain ⟨hnamed', htexts⟩ := Element.isPrintable_iff.1 he
  have htidy := Element.tidy_eq_self_iff.2 htexts
  have hselected := Selection.select_tidy i.selection document
  refine hy.brings hversion hb hn (fun t ht halike => ?_) ?_
  · -- What was read comes back as it is, so that it is told by how it is written.
    have htnamed := Selection.everywhere_of_mem_select (hnamed.tidy fun _ h => h.tidy) ht
    obtain ⟨u, -, rfl⟩ := List.mem_map.1 (hselected ▸ ht)
    have hread := Xml.tidy_of_compact htnamed hnamed' halike
    rwa [Element.tidy_tidy, htidy] at hread
  · obtain ⟨children, later, -, -, hselect⟩ := select_savedDocument hdocument
    refine ⟨⟨0, e.tidy⟩, ?_, htidy⟩
    rw [hselected, hselect]
    exact List.mem_map.2 ⟨_, List.mem_append_left _ (List.mem_map.2
      ⟨_, mem_savedChildren _ _ grouping children, rfl⟩), rfl⟩

/-- The document of an element that was saved can be read wherever it is found. If it
yields the element, what is selected in it brings the element. It does so if there is a
version and the file had an element of the key once. -/
theorem persisted_served (hsave : (Work.persist source).runOn w = (.ok p, w'))
    (hbounds : Text.least32 ≤ w.inventory.version ∧ w.inventory.version ≤ Text.greatest32)
    (hedit : w.inventory.IsEdit source.element) (hnames : w.inventory.WritesNames w.files p) :
    let i := w.inventory
    let e := i.stampVersion source.element
    ∃ document place time, i.Saves w.files e p document w'.files ∧
      w'.files.fileAt place = some ((Xml.printDocument document ++ "\n").toUTF8, time) ∧
      (∀ q, w'.files.lookup q =
          .ok (place, .file (Xml.printDocument document ++ "\n").toUTF8 time) →
        w'.files.readDocument q = .ok document.tidy) ∧
      (i.Yields e (i.selection.select document.tidy) →
        i.Brings e (i.selection.select document.tidy)) ∧
      (i.version ≠ 0 → (∀ old, i.StartsFrom w.files p old → i.HasOnce e old) →
        i.Brings e (i.selection.select document.tidy)) := by
  obtain ⟨⟨document, hsaves⟩, -⟩ := Work.persist_ok hsave
  obtain ⟨place, time, hfile, -⟩ := hsaves.only
  have he := isPrintable_stampVersion (i := w.inventory) hedit.printable
  have hn : (w.inventory.stampVersion source.element).name ≠ w.inventory.conventions.groupingElement :=
    by
    rw [name_stampVersion]
    exact hedit.ordinary
  have hnamed := hsaves.named he hnames
  have hbrings := hsaves.brings hnamed he (version_stampVersion hbounds hedit.version)
    ((base_stampVersion _ _).trans hedit.plain) hn
  exact ⟨document, place, time, hsaves, hfile, fun q hq => (FileTree.readTidy_of_lookup hnamed hq).2,
    hbrings, fun hv honce => hbrings (hsaves.yields hnamed he hn hv honce)⟩

end

/-! ## Edits that are served, and others -/

/-- What a user document leads to in an inventory at a key. -/
def Inventory.serveFrom (i : Inventory) (e : Element) (all : List Selected) :
    Option (Option Element) :=
  match i.reconcile all i.version true with
  | (.error _, _) => none
  | (.ok r, j) =>
    match j.addRead r.survivors with
    | (.error _, _) => none
    | (.ok (), j) => some ((j.getElement e.name (i.schema.valuesOf e)).1.map Handle.element)

/-- What a load makes of an element that was saved: the path of its file, and if that can
be read, what an inventory that has nothing loaded serves. -/
def Workspace.serveSaved (w : Workspace) (source : Handle) :
    Option (Path × Option (Option Element)) :=
  match (Work.persist source).runOn w with
  | (.error _, _) => none
  | (.ok p, w') =>
    match w'.files.readDocument p with
    | .error _ => some (p, none)
    | .ok d => (w.inventory.serveFrom (w.inventory.stampVersion source.element)
        (w.inventory.selection.select d)).map fun o => (p, some o)

/-- The document that saving under a path in the directory `user` starts from. -/
def Workspace.oldDocument (w : Workspace) (p : Path) : Except InventoryError Element :=
  w.inventory.documentAt (w.files.makeDirectories ⟨"user"⟩).2 p

/-- A workspace with one user file. -/
def Workspace.ofUserFile (version : Int) (selection : Selection) (name text : String) :
    Workspace where
  inventory :=
    { (Workspace.ofUser .parts).inventory with selection := selection, version := version }
  files :=
    { entries := .ofList [(["user"], .directory), (["user", name], .file text.toUTF8 (.given 0))]
      workDir := []
      writes := 0 }

/-- An edit of the part `a`, and the path that it is saved under. -/
def editedPart : Handle := .fresh 0 (.part [("id", "a"), ("n", "2")])

def partPath : Path := ⟨"user/default$$a"⟩

/-- A file with another edition. -/
def Workspace.ofEdition : Workspace :=
  .ofUserFile 25 ⟨"i", []⟩ "default$$a" "<i><part id=\"a\"/></i>"

/-- A file with two wrappers, and another edition in the second. -/
def Workspace.ofSecondWrapper : Workspace :=
  .ofUserFile 0 ⟨"i", ["w"]⟩ "default$$a" "<i><w/><w><part id=\"a\"/></w></i>"

/-- A file with an edition that is written like the edit, between two others. -/
def Workspace.ofThreeParts : Workspace :=
  .ofUserFile 0 ⟨"i", []⟩ "default$$a"
    "<i><part id=\"a\"/><part id=\"a\" n=\"2\"/><part id=\"a\" n=\"3\"/></i>"

/-- A file with an old part of another key. -/
def Workspace.ofOldNeighbour : Workspace :=
  .ofUserFile 0 ⟨"i", []⟩ "default$$a" "<i><part id=\"b\" version=\"5\"/></i>"

/-- A wrapper whose name has a space. -/
def Workspace.ofSpacedWrapper : Workspace := .ofUserFile 0 ⟨"a b", []⟩ "default$$a" "<i/>"

/-- A grouping element with a space in the name of an attribute, of which `viewPart` is a
view, and the path that this is saved under. -/
def spacedView : Element :=
  ⟨"layoutType", .ofList [("layout", "a#t"), ("label", "V"), ("a b", "1")], [], none⟩

def Workspace.ofSpacedView : Workspace :=
  ((Workspace.ofUserFile 0 ⟨"i", []⟩ "default$$V_" "<i/>").run (.make spacedView)).run
    (.addGrouping (.fresh 0 spacedView))

def viewPath : Path := ⟨"user/default$$V_"⟩

theorem edits_of_part :
    ((Workspace.ofEdition.oldDocument partPath).toOption =
        some ⟨"i", .empty, [.part [("id", "a")]], none⟩ ∧
      ((Work.persist editedPart).runOn Workspace.ofEdition).1.toOption = some partPath) ∧
    (∀ w ∈ [Workspace.ofSecondWrapper, .ofThreeParts, .ofOldNeighbour, .ofSpacedWrapper],
      (w.oldDocument partPath).toOption.all Element.isPrintable = true) ∧
    (Workspace.ofSpacedView.oldDocument viewPath).toOption.all Element.isPrintable = true ∧
    Workspace.ofSecondWrapper.serveSaved editedPart =
      some (partPath, some (some (.part [("id", "a")]))) ∧
    Workspace.ofThreeParts.serveSaved editedPart =
      some (partPath, some (some (.part [("id", "a"), ("n", "3")]))) ∧
    Workspace.ofOldNeighbour.serveSaved editedPart = some (partPath, some none) ∧
    Workspace.ofSpacedWrapper.serveSaved editedPart = some (partPath, none) ∧
    Workspace.ofSpacedView.serveSaved viewPart = some (viewPath, none) := by
  decide +kernel

theorem old_named {w : Workspace} {p : Path} (hd : w.inventory.userDirectory = some ⟨"user"⟩)
    (hold : (w.oldDocument p).toOption.all Element.isPrintable = true) :
    ∀ old, w.inventory.StartsFrom w.files p old → old.Everywhere Xml.Named := by
  rintro old ⟨d, hd', hold'⟩
  cases hd.symm.trans hd'
  rw [Workspace.oldDocument, hold'] at hold
  exact (Element.isPrintable_iff.1 hold).1

/-- The edit of a part that the file had once comes with the version, and is served. -/
theorem persisted_served_editedPart :
    let w' := ((Work.persist editedPart).runOn .ofEdition).2
    let e : Element := .part [("id", "a"), ("n", "2"), ("version", "25")]
    ∃ document, Workspace.ofEdition.inventory.Saves Workspace.ofEdition.files e partPath document
        w'.files ∧
      Workspace.ofEdition.inventory.Brings e
        (Workspace.ofEdition.inventory.selection.select document.tidy) := by
  obtain ⟨⟨hold, hsave⟩, -⟩ := edits_of_part
  have hnamed := old_named (w := .ofEdition) (p := partPath) rfl (by rw [hold]; decide)
  obtain ⟨document, place, time, hsaves, -, -, -, hbrings⟩ := persisted_served (w := .ofEdition)
    (Prod.ext (ok_of_toOption hsave) rfl) (by decide) ⟨by decide, rfl, by decide, rfl⟩
    ⟨hnamed, by decide, nofun⟩
  have he : Workspace.ofEdition.inventory.stampVersion editedPart.element =
      .part [("id", "a"), ("n", "2"), ("version", "25")] := by decide
  rw [he] at hsaves hbrings
  refine ⟨document, hsaves, hbrings (by decide) fun old h => ?_⟩
  obtain ⟨d, hd, hold'⟩ := h
  cases hd
  rw [Workspace.oldDocument, hold'] at hold
  cases hold
  exact ⟨by decide, by decide⟩

/-- Whether the file of a saved edit can be read and what is in it brings the edit, with
no word about the names of wrappers and grouping elements. -/
def Workspace.BringsEdits (w : Workspace) : Prop :=
  ∀ source p w', w.inventory.IsEdit source.element →
    (∀ old, w.inventory.StartsFrom w.files p old → old.Everywhere Xml.Named) →
    (Work.persist source).runOn w = (.ok p, w') →
    ∃ d, w'.files.readDocument p = .ok d ∧
      w.inventory.Brings (w.inventory.stampVersion source.element) (w.inventory.selection.select d)

theorem Workspace.BringsEdits.serveSaved {w : Workspace} {source : Handle} {p : Path}
    {o : Option (Option Element)} (h : w.BringsEdits) (hedit : w.inventory.IsEdit source.element)
    (hd : w.inventory.userDirectory = some ⟨"user"⟩)
    (hold : (w.oldDocument p).toOption.all Element.isPrintable = true)
    (hm : w.inventory.MergesNothing) (ho : w.serveSaved source = some (p, o)) :
    o = some (some (w.inventory.stampVersion source.element)) := by
  have hnamed := old_named hd hold
  unfold Workspace.serveSaved at ho
  split at ho
  · cases ho
  · next p' w' hsave =>
    split at ho
    · next hread =>
      cases ho
      obtain ⟨d, hd, -⟩ := h source p w' hedit hnamed hsave
      cases hread.symm.trans hd
    · next d hread =>
      obtain ⟨o', ho', he⟩ := Option.map_eq_some_iff.1 ho
      cases he
      obtain ⟨d', hd', hbrings⟩ := h source p w' hedit hnamed hsave
      cases hread.symm.trans hd'
      unfold Inventory.serveFrom at ho'
      split at ho'
      · cases ho'
      · next r j hr =>
        have hserved := hbrings _ _ _ rfl rfl hm hr
        split at ho'
        · cases ho'
        · next j' hadd =>
          rw [hadd] at hserved
          cases ho'
          exact congrArg some (hserved rfl)

/-- An edition in another wrapper is served in place of the edit, and so is one that
stands after one that is written like it. Where there is no version, the version of a
neighbour counts for the edit. And names with a space, of a wrapper or in a grouping
element, make a file that cannot be read. -/
theorem saved_edit_lost :
    (Reachable .ofSecondWrapper ∧ ¬ Workspace.ofSecondWrapper.BringsEdits) ∧
      (Reachable .ofThreeParts ∧ ¬ Workspace.ofThreeParts.BringsEdits) ∧
      (Reachable .ofOldNeighbour ∧ ¬ Workspace.ofOldNeighbour.BringsEdits) ∧
      (Reachable .ofSpacedWrapper ∧ ¬ Workspace.ofSpacedWrapper.BringsEdits) ∧
      Reachable .ofSpacedView ∧ ¬ Workspace.ofSpacedView.BringsEdits := by
  obtain ⟨-, hold, hview, hsecond, hthree, hneighbour, hwrapper, hgrouping⟩ := edits_of_part
  simp only [List.forall_mem_cons, List.not_mem_nil, false_imp_iff, implies_true, and_true] at hold
  obtain ⟨hold₁, hold₂, hold₃, hold₄⟩ := hold
  have hstart : ∀ version selection name text,
      Reachable (.ofUserFile version selection name text) := fun _ _ _ _ => .start _ rfl rfl rfl rfl
  refine ⟨⟨hstart .., fun h => ?_⟩, ⟨hstart .., fun h => ?_⟩, ⟨hstart .., fun h => ?_⟩,
    ⟨hstart .., fun h => ?_⟩, ?_, fun h => ?_⟩
  · have hserved := h.serveSaved ⟨by decide, rfl, by decide, rfl⟩ rfl hold₁ (.inl rfl) hsecond
    revert hserved
    decide
  · have hserved := h.serveSaved ⟨by decide, rfl, by decide, rfl⟩ rfl hold₂ (.inl rfl) hthree
    revert hserved
    decide
  · have hserved := h.serveSaved ⟨by decide, rfl, by decide, rfl⟩ rfl hold₃ (.inl rfl) hneighbour
    cases hserved
  · have hserved := h.serveSaved ⟨by decide, rfl, by decide, rfl⟩ rfl hold₄ (.inl rfl) hwrapper
    cases hserved
  · exact ((hstart ..).step (r := .make spacedView) trivial).step
      (r := .addGrouping (.fresh 0 spacedView)) ⟨(hstart ..).made spacedView, rfl⟩
  · have hserved := h.serveSaved ⟨by decide, rfl, by decide, rfl⟩ rfl hview (.inl rfl) hgrouping
    cases hserved

end TemplateInventory
