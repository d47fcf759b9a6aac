import TemplateInventory.Proofs.Aside
import TemplateInventory.Proofs.Freshness
import TemplateInventory.Proofs.Overrides
/-!
# Answers for grouping elements

Grouping elements are put among the elements that are served without a word to the
memory of lookups, and yet they are looked up through it. So a key that was not
asked for yet has a grouping element that is held now, and from the first lookup
on its answer stays, be it an element that was replaced since or none
(`grouping_answers`). Only clearing, or adding an element at the key in the
ordinary way, ends that.

`Holdings.Answered` says that a lookup has had its answer; it looks at the memory
alone, and so it holds at every name.
-/

namespace TemplateInventory

open Holdings

/-- Whether an event can put a key of a name into the memory. -/
def Event.Asks (n : String) : Event → Prop
  | .made => False
  | .cleared => False
  | .added node => node.element.name = n
  | .grouped _ _ => False
  | .found _ name _ => name = n
  | .resolved name _ => name = n

theorem LookupCache.get_of_not_contains {c : LookupCache} {k : ElementKey}
    (hk : c.entries.contains k = false) : c.get k = .notQueried := by
  rw [Table.contains, Option.isSome_eq_false_iff, Option.isNone_iff_eq_none] at hk
  rw [get, hk]

theorem Step.accepts_own (s : KeySchema) (e : Element) :
    (Step.ofKey e.name (s.attrsFor e.name) (s.valuesOf e)).accepts e = true := by
  simp only [accepts, ofKey, beq_self_eq_true, Bool.true_and, KeySchema.valuesOf, Element.keyValues,
    List.zipWith_map_right, List.zipWith_self, List.all_map, List.all_eq_true, Function.comp_apply,
    Predicate.holds_ofValue, implies_true]

namespace Holdings

section
variable {g : String} {h h' : Holdings} {s : StoreId} {name : String}
  {values values' : List (Option String)} {k q : ElementKey} {r : List ElementKey} {e : Event}
  {x node : Handle} {o : Option Handle} {P : Holdings → Event → Prop}

/-! ## Keys that were not asked for -/

theorem notQueried_apply (he : ¬ e.Asks k.element) (hk : h.cache.get k = .notQueried) :
    (h.apply e).cache.get k = .notQueried := by
  cases e with
  | made => exact hk
  | cleared => rfl
  | added node => exact (get_add_other he).trans hk
  | grouped extant node => exact hk
  | found s name values => exact (get_findIn_other h s values he).trans hk
  | resolved name values => exact (get_resolve_other he).trans hk

theorem Leads.notQueried (hl : Leads g (fun _ e => ¬ e.Asks k.element) h h')
    (hk : h.cache.get k = .notQueried) : h'.cache.get k = .notQueried := by
  induction hl with
  | refl => exact hk
  | step _ he _ ih => exact notQueried_apply he ih

/-- The first lookup of a key finds what is held. -/
theorem getElement_of_notQueried (hx : x ∈ h.main.handles)
    (hk : h.cache.get (h.schema.keyOf x.element) = .notQueried) :
    ∃ y ∈ h.main.handles, y.element.name = x.element.name ∧
      h.schema.valuesOf y.element = h.schema.valuesOf x.element ∧
      (h.getElement x.element.name (h.schema.valuesOf x.element)).1 = some y := by
  have hv := h.schema.length_valuesOf x.element
  have hsome : (h.search .main x.element.name (h.schema.valuesOf x.element)).isSome = true := by
    refine List.find?_isSome.2 ⟨x, hx, ?_⟩
    rw [hv, Nat.sub_self, List.replicate_zero, List.append_nil]
    exact Step.accepts_own h.schema x.element
  obtain ⟨y, hy⟩ := Option.isSome_iff_exists.1 hsome
  refine ⟨y, mem_of_search hy, name_of_search hy, valuesOf_of_search hv hy, ?_⟩
  have hfind : (h.findIn .main x.element.name (h.schema.valuesOf x.element)).1 = some y := by
    rw [findIn, show h.cache.get (.of x.element.name (h.schema.valuesOf x.element) .main) =
      .notQueried from hk]
    exact hy
  rw [getElement, KeySchema.fit_valuesOf, resolve_found hfind]

/-! ## Keys that were answered -/

/-- Whether the memory has all that a lookup of a key asks for, and with it the
answer. -/
def Answered (h : Holdings) (k : ElementKey) : Option Handle → Prop
  | some x => h.cache.get k = .found x
  | none => h.cache.get k = .miss ∧ h.cache.get (k.inStore .alterations) = .miss

/-- What is in the memory stays there while nothing else is put. -/
theorem get_findIn_known (s : StoreId) (name : String) (values : List (Option String))
    (hq : h.cache.get q ≠ .notQueried) : (h.findIn s name values).2.cache.get q = h.cache.get q := by
  unfold findIn
  split
  · rfl
  · rfl
  · next hn =>
    refine (get_remember h (.of name values s) q _).trans (if_neg ?_)
    rintro rfl
    exact hq hn

namespace Answered

theorem findIn (ha : h.Answered k o) (s : StoreId) (name : String) (values : List (Option String)) :
    (h.findIn s name values).2.Answered k o := by
  cases o with
  | some x =>
    exact (get_findIn_known s name values (by rw [show h.cache.get k = _ from ha]; nofun)).trans ha
  | none =>
    exact ⟨(get_findIn_known s name values (by rw [ha.1]; nofun)).trans ha.1,
      (get_findIn_known s name values (by rw [ha.2]; nofun)).trans ha.2⟩

theorem congr (ha : h.Answered k o) (hk : h'.cache.get k = h.cache.get k)
    (hx : h'.cache.get (k.inStore .alterations) = h.cache.get (k.inStore .alterations)) :
    h'.Answered k o := by
  cases o with
  | some x => exact hk.trans ha
  | none => exact ⟨hk.trans ha.1, hx.trans ha.2⟩

theorem afterFind (ha : h.Answered k o) (name : String) (values : List (Option String)) :
    (h.afterFind name values).Answered k o :=
  (ha.findIn .main name values).findIn .alterations name values

/-- A miss tells that there is no alteration either. -/
theorem findIn_none (ha : h.Answered (.of name values .main) none) :
    (h.findIn .main name values).1 = none ∧
      ((h.findIn .main name values).2.findIn .alterations name values).1 = none := by
  have hx : h.countHit.cache.get (.of name values .alterations) = .miss := ha.2
  rw [findIn_of_miss ha.1]
  exact ⟨rfl, congrArg Prod.fst (findIn_of_miss hx)⟩

/-- An alteration that is going to be resolved has another key. -/
theorem apart_of_found (ha : h.Answered k o) (hs : k.store = .main)
    (hm : (h.findIn .main name values).1 = none)
    (hx : ((h.findIn .main name values).2.findIn .alterations name values).1 = some x) :
    Apart (.of name values .main) k := by
  refine .of_ne hs.symm ?_
  rintro rfl
  cases o with
  | some y => rw [findIn_of_found ha] at hm; cases hm
  | none => rw [ha.findIn_none.2] at hx; cases hx

theorem settle (ha : h.Answered k o) (hq : Apart q k) (x : Handle) (b : Option Handle) :
    (h.settle q x b).2.Answered k o :=
  ha.congr (get_settle_apart x b hq) (get_settle_apart x b (hq.inStore .alterations))

theorem resolve (ha : h.Answered k o) (hs : k.store = .main) (r : List ElementKey) (name : String)
    (values : List (Option String)) : (h.resolve r name values).2.Answered k o := by
  induction h, r, values using resolve_induction (n := name) with
  | found hm => rw [resolve_found hm]; exact ha.findIn _ _ _
  | open_ hm hk => rw [resolve_open hm hk]; exact ha.findIn _ _ _
  | missing hm hk hx => rw [resolve_missing hm hk hx]; exact ha.afterFind _ _
  | alone hm hk hx hb =>
    rw [resolve_alone hm hk hx hb]
    exact (ha.afterFind _ _).settle (ha.apart_of_found hs hm hx) _ none
  | based hm hk hx hb ih =>
    rw [resolve_based hm hk hx hb]
    exact (ih (ha.afterFind _ _)).settle (ha.apart_of_found hs hm hx) _ _

theorem overridden (ha : h.Answered k o) (hs : k.store = .main) (name : String)
    (values : List (Option String)) : (h.overridden name values).2.Answered k o := by
  unfold Holdings.overridden
  split
  · exact ha
  · exact ha.resolve hs [] name values

theorem add (ha : h.Answered k o) (hs : k.store = .main) (hn : h.schema.keyOf node.element ≠ k) :
    (h.add node).2.Answered k o := by
  have hq : Apart (h.schema.keyOf node.element) k := .of_ne hs.symm hn
  have ho := ha.overridden hs node.element.name (h.schema.valuesOf node.element)
  cases o with
  | some x => exact (get_add_apart hq (ho.trans ha.symm)).trans ha
  | none =>
    exact ⟨(get_add_apart hq (ho.1.trans ha.1.symm)).trans ha.1,
      (get_add_apart (hq.inStore .alterations) (ho.2.trans ha.2.symm)).trans ha.2⟩

theorem apply (ha : h.Answered k o) (hs : k.store = .main) (he : e.Spares h.schema k) :
    (h.apply e).Answered k o := by
  cases e with
  | made => exact ha
  | cleared => exact he.elim
  | added node => exact ha.add hs he
  | grouped extant node => exact ha
  | found s name values => exact ha.findIn s name values
  | resolved name values => exact ha.resolve hs [] name values

theorem leads (ha : h.Answered k o) (hs : k.store = .main)
    (hl : Leads g (fun h e => e.Spares h.schema k) h h') : h'.Answered k o := by
  induction hl with
  | refl => exact ha
  | step _ he _ ih => exact ih.apply hs he

theorem resolve_eq (ha : h.Answered (.of name values .main) o) : (h.resolve [] name values).1 = o := by
  cases o with
  | some x => exact resolve_of_found ha []
  | none =>
    exact congrArg Prod.fst (resolve_missing ha.findIn_none.1 List.not_mem_nil ha.findIn_none.2)

end Answered

theorem get_findIn_self (s : StoreId) (name : String) (values : List (Option String)) :
    (h.findIn s name values).2.cache.get (.of name values s) =
      match (h.findIn s name values).1 with
      | some x => .found x
      | none => .miss := by
  unfold findIn
  split
  · next hx => exact hx
  · next hx => exact hx
  · exact (get_remember h (.of name values s) _ _).trans (if_pos rfl)

theorem get_of_remembered (hx : h.remembered k = some x) : h.cache.get k = .found x := by
  unfold remembered at hx
  cases hk : h.cache.get k with
  | notQueried => rw [hk] at hx; cases hx
  | miss => rw [hk] at hx; cases hx
  | found y => rw [hk] at hx; exact congrArg Lookup.found (Option.some.inj hx)

/-- A lookup answers its key. -/
theorem answered_resolve (h : Holdings) (name : String) (values : List (Option String)) :
    (h.resolve [] name values).2.Answered (.of name values .main) (h.resolve [] name values).1 := by
  cases ho : (h.resolve [] name values).1 with
  | some x => exact get_of_remembered (Coherent.remembered_resolve ho)
  | none =>
    -- Only a key that neither store has is left without an element.
    cases hm : (h.findIn .main name values).1 with
    | some x => rw [resolve_found hm] at ho; cases ho
    | none =>
      cases hx : ((h.findIn .main name values).2.findIn .alterations name values).1 with
      | some a =>
        cases hb : a.element.base.bind (baseValues values) with
        | none => rw [resolve_alone hm List.not_mem_nil hx hb] at ho; cases ho
        | some values' => rw [resolve_based hm List.not_mem_nil hx hb] at ho; cases ho
      | none =>
        have hmain := get_findIn_self (h := h) .main name values
        have halt := get_findIn_self (h := (h.findIn .main name values).2) .alterations name values
        rw [hm] at hmain
        rw [hx] at halt
        rw [resolve_missing hm List.not_mem_nil hx]
        exact ⟨(get_findIn_known .alterations name values (by rw [hmain]; nofun)).trans hmain, halt⟩

end

end Holdings

/-! ## Grouping elements -/

section
variable {i i' : Inventory} {node x : Handle} {values : List (Option String)}

theorem mem_groupings :
    x ∈ i.groupings ↔ x ∈ i.holdings.main.handles ∧ x.element.name = i.conventions.groupingElement := by
  simp [Inventory.groupings, Store.named]

/-- A grouping element that is added is held, and the memory does not notice. -/
theorem addGrouping_ok (hok : (i.addGrouping node).1 = .ok ()) :
    ∃ extant, (i.addGrouping node).2 =
      { i with holdings := { i.holdings with main := i.holdings.main.replace extant node } } := by
  unfold Inventory.addGrouping at hok ⊢
  split at hok
  · cases hok
  · exact ⟨_, rfl⟩

theorem mem_groupings_addGrouping (hn : node.element.name = i.conventions.groupingElement)
    (hok : (i.addGrouping node).1 = .ok ()) : node ∈ (i.addGrouping node).2.groupings := by
  obtain ⟨extant, he⟩ := addGrouping_ok hok
  rw [he]
  exact mem_groupings.2 ⟨Store.mem_replace_self _, hn⟩

end

/-- After a grouping element was added, a key of a grouping element that is held
and that was never asked for has an element that is held and has its values. A key
that was asked for before still has the answer of that time. -/
theorem grouping_answers {i : Inventory} {node : Handle}
    (hn : node.element.name = i.conventions.groupingElement)
    (hok : (i.addGrouping node).1 = .ok ()) :
    let i' := (i.addGrouping node).2
    node ∈ i'.groupings ∧ ∀ x ∈ i'.groupings,
      (∀ h₀ : Holdings, h₀.cache.get (i.schema.keyOf x.element) = .notQueried →
        Leads node.element.name (fun _ e => ¬ e.Asks node.element.name) h₀ i.holdings →
        ∃ y ∈ i'.groupings, i.schema.valuesOf y.element = i.schema.valuesOf x.element ∧
          (i'.getElement node.element.name (i.schema.valuesOf x.element)).1 = some y) ∧
      ∀ (h₀ : Holdings) (values : List (Option String)),
        .of node.element.name (h₀.schema.fit node.element.name values) .main =
          i.schema.keyOf x.element →
        Leads node.element.name (fun h e => e.Spares h.schema (i.schema.keyOf x.element))
          (h₀.getElement node.element.name values).2 i.holdings →
        (i'.getElement node.element.name (i.schema.valuesOf x.element)).1 =
          (h₀.getElement node.element.name values).1 := by
  refine ⟨mem_groupings_addGrouping hn hok, ?_⟩
  obtain ⟨extant, he⟩ := addGrouping_ok hok
  rw [he]
  intro x hx
  obtain ⟨hmem, hname⟩ := mem_groupings.1 hx
  replace hname : x.element.name = node.element.name := hname.trans hn.symm
  rw [← hname]
  constructor
  · intro h₀ hk hl
    have hget := hl.notQueried (k := i.schema.keyOf x.element) hk
    obtain ⟨y, hy, hyn, hyv, hans⟩ := getElement_of_notQueried
      (h := { i.holdings with main := i.holdings.main.replace extant node }) hmem hget
    exact ⟨y, mem_groupings.2 ⟨hy, hyn.trans (hname.trans hn)⟩, hyv, hans⟩
  · intro h₀ values hv hl
    have hans := answered_resolve h₀ x.element.name (h₀.schema.fit x.element.name values)
    rw [hv] at hans
    have hold := hans.leads rfl hl
    have hnow : Answered { i.holdings with main := i.holdings.main.replace extant node }
        (i.schema.keyOf x.element) (h₀.getElement x.element.name values).1 := hold
    refine Eq.trans (congrArg (fun vs => (Holdings.resolve _ [] x.element.name vs).1) ?_)
      hnow.resolve_eq
    exact i.schema.fit_valuesOf x.element

/-! ## Pages that were asked for too early -/

/-- Pages, which are grouping elements: one in two editions, and another one. -/
def Element.page (attributes : List (String × String)) : Element :=
  ⟨"layoutType", .ofList attributes, [], none⟩

def oldPage : Element := .page [("layout", "page"), ("label", "old")]

def newPage : Element := .page [("layout", "page"), ("label", "new")]

def sheetPage : Element := .page [("layout", "sheet")]

/-- A workspace in which a page was asked for before any was added. -/
def Workspace.ofMissedPage : Workspace :=
  (Workspace.blank .pages).run (.getElement "layoutType" [some "page"])

/-- A workspace with two pages. -/
def Workspace.ofTwoPages : Workspace :=
  ((((Workspace.blank .pages).run (.make oldPage)).run (.addGrouping (.fresh 0 oldPage))).run
    (.make sheetPage)).run (.addGrouping (.fresh 1 sheetPage))

/-- The same after one of them was asked for. -/
def Workspace.ofAskedPage : Workspace :=
  Workspace.ofTwoPages.run (.getElement "layoutType" [some "page"])

theorem reachable_ofMissedPage : Reachable .ofMissedPage :=
  (reachable_blank .pages).step (r := .getElement "layoutType" [some "page"]) trivial

theorem reachable_ofTwoPages : Reachable .ofTwoPages := by
  have hold : Reachable (((Workspace.blank .pages).run (.make oldPage)).run
      (.addGrouping (.fresh 0 oldPage))) :=
    ((reachable_blank .pages).step (r := .make oldPage) trivial).step
      ⟨(reachable_blank .pages).made oldPage, rfl⟩
  exact (hold.step (r := .make sheetPage) trivial).step ⟨hold.made sheetPage, rfl⟩

theorem reachable_ofAskedPage : Reachable .ofAskedPage :=
  reachable_ofTwoPages.step (r := .getElement "layoutType" [some "page"]) trivial

/-- The next edition of the page. -/
def Workspace.nextPage (w : Workspace) : Handle := .fresh w.inventory.holdings.nextSerial newPage

/-- The inventory after the next edition was made and added. -/
def Workspace.renewed (w : Workspace) : Inventory :=
  ((w.run (.make newPage)).inventory.addGrouping w.nextPage).2

/-- What the key of the page is answered. -/
def Workspace.pageAnswer (w : Workspace) : Option Element :=
  (w.renewed.getElement newPage.name (w.renewed.schema.valuesOf newPage)).1.map Handle.element

theorem answers_renewed :
    Workspace.ofMissedPage.pageAnswer = none ∧ Workspace.ofAskedPage.pageAnswer = some oldPage ∧
      (Workspace.ofTwoPages.inventory.getElement "layoutType" [some "page"]).1.map Handle.element =
        some oldPage ∧
      Workspace.ofAskedPage.inventory.schema = .pages ∧
      Workspace.ofAskedPage.renewed.groupings.map Handle.element = [newPage, sheetPage] ∧
      Workspace.ofAskedPage.inventory.holdings.cache.entries.contains
        (KeySchema.pages.keyOf sheetPage) = false := by
  decide +kernel

theorem added_nextPage (w : Workspace) (hg : w.inventory.conventions = {}) :
    ((w.run (.make newPage)).inventory.addGrouping w.nextPage).1 = .ok () := by
  have hattr : w.nextPage.element.requiredAttr
      (w.run (.make newPage)).inventory.conventions.groupingAttr = .ok "page" := by
    rw [show (w.run (.make newPage)).inventory.conventions = {} from hg]
    rfl
  unfold Inventory.addGrouping
  rw [hattr]

/-- The page that was asked for is answered in its old edition, the other one as it
is. -/
theorem grouping_answers_pages :
    (Workspace.ofAskedPage.renewed.getElement "layoutType" [some "page"]).1.map Handle.element =
        some oldPage ∧
      ∃ y ∈ Workspace.ofAskedPage.renewed.groupings,
        KeySchema.pages.valuesOf y.element = [some "sheet"] ∧
        (Workspace.ofAskedPage.renewed.getElement "layoutType" [some "sheet"]).1 = some y := by
  obtain ⟨-, -, hthen, hs, hgroupings, hnever⟩ := answers_renewed
  obtain ⟨hnew, hall⟩ := grouping_answers
    (show Workspace.ofAskedPage.nextPage.element.name = _ from rfl) (added_nextPage .ofAskedPage rfl)
  rw [show (Workspace.ofAskedPage.run (.make newPage)).inventory.schema = .pages from hs] at hall
  constructor
  · have hans := (hall _ hnew).2 Workspace.ofTwoPages.inventory.holdings [some "page"]
      (by decide) (.one (e := .made) trivial trivial)
    rw [show KeySchema.pages.valuesOf Workspace.ofAskedPage.nextPage.element = [some "page"] by
      decide] at hans
    exact (congrArg (Option.map Handle.element) hans).trans hthen
  · obtain ⟨x, hx, he⟩ := List.mem_map.1
      (hgroupings ▸ List.mem_cons_of_mem newPage List.mem_cons_self : sheetPage ∈ _)
    have hfresh := (hall x hx).1 Workspace.ofAskedPage.inventory.holdings
    rw [he, show KeySchema.pages.valuesOf sheetPage = [some "sheet"] by decide] at hfresh
    exact hfresh (LookupCache.get_of_not_contains hnever) (.one (e := .made) id trivial)

/-- Whether a grouping element that was added leaves every key of a grouping element
with one that is held. -/
def Workspace.AnswersGroupings (w : Workspace) : Prop :=
  ∀ node, w.Accepts (.addGrouping node) → (w.inventory.addGrouping node).1 = .ok () →
    let i := (w.inventory.addGrouping node).2
    ∀ x ∈ i.groupings, ∃ y ∈ i.groupings,
      i.schema.valuesOf y.element = i.schema.valuesOf x.element ∧
        (i.getElement x.element.name (i.schema.valuesOf x.element)).1.map Handle.element =
          some y.element

/-- A page that was asked for too early is not found once it is there, and one that
was replaced after it was asked for is still answered. -/
theorem asked_page_stale :
    (Reachable (Workspace.ofMissedPage.run (.make newPage)) ∧
        ¬ (Workspace.ofMissedPage.run (.make newPage)).AnswersGroupings) ∧
      Reachable (Workspace.ofAskedPage.run (.make newPage)) ∧
        ¬ (Workspace.ofAskedPage.run (.make newPage)).AnswersGroupings := by
  obtain ⟨hmissed, hasked, -, -, hgroupings, -⟩ := answers_renewed
  refine ⟨⟨reachable_ofMissedPage.step (r := .make newPage) trivial, fun hall => ?_⟩,
    reachable_ofAskedPage.step (r := .make newPage) trivial, fun hall => ?_⟩
  · have hok := added_nextPage .ofMissedPage rfl
    obtain ⟨y, -, -, hans⟩ := hall _ ⟨reachable_ofMissedPage.made newPage, rfl⟩ hok _
      (mem_groupings_addGrouping rfl hok)
    cases hmissed.symm.trans hans
  · have hok := added_nextPage .ofAskedPage rfl
    obtain ⟨y, hy, -, hans⟩ := hall _ ⟨reachable_ofAskedPage.made newPage, rfl⟩ hok _
      (mem_groupings_addGrouping rfl hok)
    have hmem : oldPage ∈ Workspace.ofAskedPage.renewed.groupings.map Handle.element :=
      List.mem_map.2 ⟨y, hy, (Option.some.inj (hasked.symm.trans hans)).symm⟩
    rw [hgroupings] at hmem
    revert hmem
    decide

end TemplateInventory
