import TemplateInventory.Proofs.Upgrades
/-!
# Deciding on each element alone

Reconciling goes through the elements of a document and looks others up on the way, which
fills the memory of lookups, and it counts what it merges. None of this tells on the
elements that come later: what becomes of an element is its `Inventory.fate`, which is read
off the inventory as it was before (`Inventory.reconcile_decides_each`).

What carries the proof is `Consulted`: the stores and settings stay, and the memory goes on
agreeing with tables of the stores at all names that lookups are made for. An element of
the name of grouping elements is never looked up.
-/

namespace TemplateInventory

open Holdings

/-! ## The version that counts -/

/-- The version of an element of shipped data, which is the expected one if it has none; or
of user data, where one without a version or with zero has that of its wrapper. -/
def countedVersion (all : List Selected) (expected : Int) (isUser : Bool) (s : Selected) :
    Except InventoryError Int :=
  if isUser then
    (s.element.version 0).bind fun v =>
      if v = 0 then
        ((firstVersioned all s.wrapper).map (·.element.version 0)).getD (.ok 0)
      else .ok v
  else s.element.version expected

theorem effectiveVersion_eq_countedVersion (all : List Selected) (expected : Int) (isUser : Bool)
    (s : Selected) : effectiveVersion all expected isUser s = countedVersion all expected isUser s := by
  cases isUser with
  | false => exact effectiveVersion_shipped all expected s
  | true =>
    cases hv : s.element.version 0 with
    | error err => simp [effectiveVersion, countedVersion, hv, Except.bind]
    | ok v =>
      by_cases hzero : v = 0
      · rw [effectiveVersion_borrowed (hzero ▸ hv)]
        cases hf : firstVersioned all s.wrapper <;>
          simp [countedVersion, hv, hzero, hf, Except.bind]
      · rw [effectiveVersion_own hv hzero]
        simp [countedVersion, hv, hzero, Except.bind]

/-! ## First forms -/

/-- Whether two selected elements have the same compact form. -/
def Selected.sameForm (s t : Selected) : Bool := Xml.compact s.element == Xml.compact t.element

theorem firstOfEachForm_eq (seen : List (List Char)) (selected : List Selected) :
    firstOfEachForm seen selected =
      (selected.filter (Xml.compact ·.element ∉ seen)).eraseDupsBy Selected.sameForm := by
  induction selected generalizing seen with
  | nil => rfl
  | cons s rest ih =>
    rw [firstOfEachForm]
    by_cases hs : Xml.compact s.element ∈ seen
    · rw [if_pos hs, ih, List.filter_cons_of_neg (by simpa using hs)]
    · rw [if_neg hs, ih, List.filter_cons_of_pos (by simpa using hs), List.eraseDupsBy_cons,
        List.filter_filter]
      refine congrArg (s :: List.eraseDupsBy _ ·) (List.filter_congr fun t _ => ?_)
      simp [Selected.sameForm]

/-! ## What becomes of an element -/

/-- What becomes of an element, by its content. -/
inductive Fate where
  | kept (e : Element)
  | restamped (e : Element)
  | merged (e : Element)
  | dropped

namespace Fate

/-- What is left of an element. -/
def survivor : Fate → Option Element
  | .kept e => some e
  | .restamped e => some e
  | .merged e => some e
  | .dropped => none

/-- Whether an element is the result of a merger. -/
def isMerged : Fate → Bool
  | .merged _ => true
  | _ => false

/-- Whether an element has been restamped or merged. -/
def changes : Fate → Bool
  | .restamped _ => true
  | .merged _ => true
  | _ => false

end Fate

/-- The content of a verdict. -/
def Verdict.fate : Verdict → Fate
  | .kept h => .kept h.element
  | .restamped h => .restamped h.element
  | .merged h => .merged h.element
  | .dropped => .dropped

theorem Verdict.filterMap_survivor (verdict : Verdict) (fates : List Fate) :
    (verdict.fate :: fates).filterMap Fate.survivor =
      verdict.handles.map Handle.element ++ fates.filterMap Fate.survivor := by
  cases verdict <;> rfl

theorem Verdict.changes_fate (verdict : Verdict) : verdict.fate.changes = verdict.changes := by
  cases verdict <;> rfl

namespace Inventory

/-- The first of the served elements with a key. -/
def servedWith (i : Inventory) (k : ElementKey) : Option Handle :=
  i.holdings.main.handles.find? fun x => i.schema.keyOf x.element = k

/-- The served element with the key of `e`; or else that with the key which `e` has
without its suffix, and the suffix. -/
def counterpartOf (i : Inventory) (e : Element) : Option (Handle × String) :=
  ((i.servedWith (i.schema.keyOf e)).map (·, "")).or
    ((i.suffixRule.split (i.schema.attrsFor e.name) (i.schema.valuesOf e)).bind
      fun (suffix, standard) => (i.servedWith (.of e.name standard .main)).map (·, suffix))

/-- What becomes of a selected element. It depends on the document, the settings and the
elements that are served, and not on what was looked up before. -/
def fate (i : Inventory) (all : List Selected) (expected : Int) (isUser : Bool) (s : Selected) :
    Except InventoryError Fate :=
  (countedVersion all expected isUser s).bind fun v =>
    if v = expected ∨ s.element.base.isSome = true then .ok (.kept s.element)
    else
      match i.merger with
      | none => .ok .dropped
      | some merger =>
        if s.element.name = i.conventions.groupingElement then
          .ok (.restamped (s.element.setAttr Element.versionAttr (toString expected)))
        else
          match i.counterpartOf s.element with
          | none => .ok .dropped
          | some (current, suffix) =>
            (merger current.element s.element i.elements suffix).map fun upgraded =>
              .merged (if isUser then upgraded.setAttr Element.versionAttr (toString expected)
                else upgraded)

end Inventory

/-! ## What looking up leaves alone -/

section
variable {p : String → Bool} {h : Holdings} {c : Catalog} {k : ElementKey}

/-- The table of the served elements is the list of them searched by key. -/
theorem Holdings.Agrees.get?_eq_find? (ha : Agrees p h c) (hk : p k.element = true) :
    c.main.get? k = h.main.handles.find? fun x => h.schema.keyOf x.element = k := by
  have hiff : ∀ x, c.main.get? k = some x ↔
      x ∈ h.main.handles ∧ p x.element.name = true ∧ h.schema.keyOf x.element = k :=
    fun x => ha.get?_iff (s := .main)
  cases hf : h.main.handles.find? fun x => h.schema.keyOf x.element = k with
  | some x =>
    have hx : h.schema.keyOf x.element = k := by simpa using List.find?_some hf
    exact (hiff x).2 ⟨List.mem_of_find?_eq_some hf, (congrArg (p ·.element) hx).trans hk, hx⟩
  | none =>
    refine Option.eq_none_iff_forall_ne_some.2 fun x hx => ?_
    obtain ⟨hmem, -, hkey⟩ := (hiff x).1 hx
    exact List.find?_eq_none.1 hf x hmem (by simpa using hkey)

end

namespace Inventory

/-- An inventory after lookups and merges: its stores and settings are those of `i`, and
its holdings come about by events. -/
structure Consulted (schema : KeySchema) (i j : Inventory) : Prop where
  conventions : j.conventions = i.conventions
  suffixRule : j.suffixRule = i.suffixRule
  merger : j.merger = i.merger
  schema_eq : j.schema = i.schema
  stores : ∀ s, j.holdings.store s = i.holdings.store s
  leads : Leads i.conventions.groupingElement (fun _ _ => True) (.empty schema) j.holdings

section
variable {schema : KeySchema} {i j : Inventory} {all selected : List Selected} {expected : Int}
  {isUser : Bool} {s : Selected} {e : Element} {name : String} {values : List (Option String)}
  {r : Reconciled}

theorem keptByReconciling_consulted (schema : KeySchema) (i : Inventory) :
    KeptByReconciling (Consulted schema i) where
  found {j name values} hv hq :=
    { hq with
      schema_eq := (schema_findIn j.holdings .main name values).trans hq.schema_eq
      stores := fun s => (store_findIn j.holdings .main s name values).trans (hq.stores s)
      leads := hq.leads.step (e := .found .main name values) trivial hv }
  made _ hq := { hq with leads := hq.leads.step (e := .made) trivial trivial }
  merged _ hq := { hq with }

namespace Consulted

/-- A lookup of an element that is not a grouping element finds what is served. -/
theorem findIn (hq : Consulted schema i j) (hn : name ≠ i.conventions.groupingElement)
    (hv : values.length = (i.schema.attrsFor name).length) :
    (j.onHoldings (·.findIn .main name values)).1 = i.servedWith (.of name values .main) := by
  obtain ⟨c, ha⟩ := hq.leads.exists_agrees (p := (· ≠ i.conventions.groupingElement))
    (coherent_empty schema) (by simp) (Agrees.empty _ schema)
  have hp : decide (name ≠ i.conventions.groupingElement) = true := by simpa using hn
  have hv' : values.length = (j.holdings.schema.attrsFor name).length := by
    rw [hv, ← hq.schema_eq]
    rfl
  have hmain : j.holdings.main = i.holdings.main := hq.stores .main
  have hschema : j.holdings.schema = i.holdings.schema := hq.schema_eq
  have hfound := (ha.findIn (s := .main) hp hv').1.trans (ha.get?_eq_find? hp)
  rw [hmain, hschema] at hfound
  exact hfound

/-- So an element is merged with the same one, whatever was looked up before. -/
theorem counterpart (hq : Consulted schema i j) (hn : e.name ≠ i.conventions.groupingElement) :
    (j.counterpart e).1 = i.counterpartOf e := by
  have hown := hq.findIn hn (i.schema.length_valuesOf e)
  have hv : (i.schema.valuesOf e).length = (j.schema.attrsFor e.name).length :=
    hq.schema_eq ▸ i.schema.length_valuesOf e
  have hq' := (keptByReconciling_consulted schema i).found hv hq
  unfold Inventory.counterpart counterpartOf KeySchema.keyOf
  rw [hq.schema_eq, ← hown]
  rcases hr : j.onHoldings (·.findIn .main e.name (i.schema.valuesOf e)) with ⟨_ | current, j₁⟩
  · rw [hr] at hq'
    replace hq' : Consulted schema i j₁ := hq'
    simp only [hr, hq'.suffixRule, hq'.schema_eq, Option.map_none, Option.none_or]
    split
    · next hs => rw [hs]; rfl
    · next suffix standard hs =>
      have hstandard := hq'.findIn hn ((length_split hs).trans (i.schema.length_valuesOf e))
      rw [hs, Option.bind_some, ← hstandard]
      rcases hr' : j₁.onHoldings (·.findIn .main e.name standard) with ⟨_ | current, j₂⟩
      · rfl
      · rfl
  · simp only [hr, Option.map_some, Option.some_or]

end Consulted

theorem merges_counterpart (i : Inventory) (e : Element) : (i.counterpart e).2.merges = i.merges := by
  have hfound : ∀ (i : Inventory) (name : String) (values : List (Option String)),
      (i.onHoldings (·.findIn .main name values)).2.merges = i.merges := fun _ _ _ => rfl
  have hown := hfound i e.name (i.schema.valuesOf e)
  unfold counterpart
  simp only
  rcases hr : i.onHoldings (·.findIn .main e.name (i.schema.valuesOf e)) with ⟨_ | current, i₁⟩
  all_goals rw [hr] at hown
  · simp only
    split
    · exact hown
    · next suffix standard _ =>
      have hstandard := hfound i₁ e.name standard
      split
      · next hr' => rw [hr'] at hstandard; exact hstandard.trans hown
      · next hr' => rw [hr'] at hstandard; exact hstandard.trans hown
  · exact hown

/-- Merging an outdated element calls the merger once, for the counterpart, or not at all. -/
theorem Consulted.mergeOutdated (hq : Consulted schema i j)
    (hn : e.name ≠ i.conventions.groupingElement) (merger : Merger) (expected : Int)
    (isUser : Bool) :
    (j.mergeOutdated merger expected isUser e).1.map Verdict.fate =
        (match i.counterpartOf e with
        | none => .ok .dropped
        | some (current, suffix) =>
          (merger current.element e i.elements suffix).map fun upgraded =>
            .merged (if isUser then upgraded.setAttr Element.versionAttr (toString expected)
              else upgraded)) ∧
      ∀ verdict, (j.mergeOutdated merger expected isUser e).1 = .ok verdict →
        (j.mergeOutdated merger expected isUser e).2.merges =
          j.merges + if verdict.fate.isMerged then 1 else 0 := by
  -- The merger is given the served elements, which have stayed.
  have hcounterpart := hq.counterpart hn
  have hmerges := j.merges_counterpart e
  have hstores := ((keptByReconciling_consulted schema i).counterpart hq e).stores .main
  unfold Inventory.mergeOutdated
  rw [← hcounterpart]
  rcases hr : j.counterpart e with ⟨_ | ⟨current, suffix⟩, j₁⟩
  all_goals rw [hr] at hmerges hstores
  · exact ⟨rfl, fun _ h => by cases h; exact hmerges⟩
  · have helements : j₁.elements = i.elements := congrArg Store.elements hstores
    simp only [helements]
    cases merger current.element e i.elements suffix with
    | error err => exact ⟨rfl, fun _ h => by cases h⟩
    | ok upgraded => exact ⟨rfl, fun _ h => by cases h; exact congrArg (· + 1) hmerges⟩

/-- Judging an element gives its fate, and counts a merger that has a result. -/
theorem Consulted.judge (hq : Consulted schema i j) (all : List Selected) (expected : Int)
    (isUser : Bool) (s : Selected) :
    (j.judge all expected isUser s).1.map Verdict.fate = i.fate all expected isUser s ∧
      ∀ verdict, (j.judge all expected isUser s).1 = .ok verdict →
        (j.judge all expected isUser s).2.merges =
          j.merges + if verdict.fate.isMerged then 1 else 0 := by
  unfold Inventory.judge fate
  rw [effectiveVersion_eq_countedVersion, hq.merger, hq.conventions]
  cases countedVersion all expected isUser s with
  | error err => exact ⟨rfl, fun _ h => by cases h⟩
  | ok v =>
    simp only [Except.bind]
    by_cases hkept : v = expected ∨ s.element.base.isSome = true
    · rw [if_pos hkept, if_pos hkept]
      exact ⟨rfl, fun _ h => by cases h; rfl⟩
    · rw [if_neg hkept, if_neg hkept]
      cases i.merger with
      | none => exact ⟨rfl, fun _ h => by cases h; rfl⟩
      | some merger =>
        by_cases hn : s.element.name = i.conventions.groupingElement
        · simp only [if_pos hn]
          exact ⟨rfl, fun _ h => by cases h; rfl⟩
        · simp only [if_neg hn]
          exact hq.mergeOutdated hn merger expected isUser

theorem judgeAll_cons {verdict : Verdict}
    (hj : i.judge all expected isUser s = (.ok verdict, j)) :
    i.judgeAll all expected isUser r (s :: selected) =
      j.judgeAll all expected isUser (r.and verdict) selected := by
  rw [judgeAll, hj]
  cases verdict <;> simp [Reconciled.and, Verdict.handles, Verdict.changes]

/-- The outcome of judging elements one after the other is that of their fates. -/
theorem Consulted.judgeAll (hq : Consulted schema i j) (all : List Selected) (expected : Int)
    (isUser : Bool) (r : Reconciled) (selected : List Selected) :
    (j.judgeAll all expected isUser r selected).1.map (fun r' =>
        (r'.survivors.map Handle.element, r'.changed,
          (j.judgeAll all expected isUser r selected).2.merges)) =
      (selected.mapM (i.fate all expected isUser)).map fun fates =>
        (r.survivors.map Handle.element ++ fates.filterMap Fate.survivor,
          r.changed || fates.any Fate.changes, j.merges + fates.countP Fate.isMerged) := by
  induction selected generalizing j r with
  | nil =>
    rw [List.mapM_nil]
    simp [Inventory.judgeAll, Except.map, pure, Except.pure]
  | cons s rest ih =>
    obtain ⟨hfate, hcount⟩ := hq.judge all expected isUser s
    have hq' := (keptByReconciling_consulted schema i).judge hq all expected isUser s
    rcases hr : j.judge all expected isUser s with ⟨err | verdict, j₁⟩
    all_goals rw [hr] at hfate hcount hq'
    · rw [Inventory.judgeAll, hr, List.mapM_cons, ← hfate]
      rfl
    · rw [judgeAll_cons hr, ih hq', List.mapM_cons, ← hfate]
      cases rest.mapM (i.fate all expected isUser) with
      | error err => rfl
      | ok fates =>
        have hsurvivors : (r.and verdict).survivors.map Handle.element ++
            fates.filterMap Fate.survivor =
              r.survivors.map Handle.element ++ (verdict.fate :: fates).filterMap Fate.survivor := by
          rw [verdict.filterMap_survivor, Reconciled.and, List.map_append, List.append_assoc]
        have hchanged : ((r.and verdict).changed || fates.any Fate.changes) =
            (r.changed || (verdict.fate :: fates).any Fate.changes) := by
          rw [Reconciled.and, List.any_cons, verdict.changes_fate, Bool.or_assoc]
        have hmerges : j₁.merges + fates.countP Fate.isMerged =
            j.merges + (verdict.fate :: fates).countP Fate.isMerged := by
          rw [hcount verdict rfl, List.countP_cons]
          omega
        exact congrArg Except.ok (Prod.ext hsurvivors (Prod.ext hchanged hmerges))

/-- Reconciling a document decides on each element that is the first of its form alone, in
their order. The survivors are what is left of them, and there is a change if one was
restamped or merged. The elements that are served, the derived ones and the bases stay, also
if reconciling fails. The holdings are any that events lead to, so those of all reachable
workspaces (`Reachable.leads`), and those in the middle of a load. -/
theorem reconcile_decides_each
    (hl : Leads i.conventions.groupingElement (fun _ _ => True) (.empty schema) i.holdings)
    (selected : List Selected) (expected : Int) (isUser : Bool) :
    let result := i.reconcile selected expected isUser
    let fates := (selected.eraseDupsBy Selected.sameForm).mapM (i.fate selected expected isUser)
    result.1.map (fun r => (r.survivors.map Handle.element, r.changed, result.2.merges)) =
        fates.map (fun fates => (fates.filterMap Fate.survivor, fates.any Fate.changes,
          i.merges + fates.countP Fate.isMerged)) ∧
      result.2.holdings.main = i.holdings.main ∧
      result.2.holdings.alterations = i.holdings.alterations ∧
      result.2.holdings.bases = i.holdings.bases := by
  have hq : Consulted schema i i := ⟨rfl, rfl, rfl, rfl, fun _ => rfl, hl⟩
  have hstores := ((keptByReconciling_consulted schema i).reconcile hq selected expected isUser).stores
  have hforms : firstOfEachForm [] selected = selected.eraseDupsBy Selected.sameForm := by
    rw [firstOfEachForm_eq, List.filter_eq_self.2 (by simp)]
  refine ⟨?_, hstores .main, hstores .alterations, hstores .bases⟩
  rw [← hforms]
  exact hq.judgeAll selected expected isUser ⟨[], false⟩ (firstOfEachForm [] selected)

end

/-! ## A document with an element of each fate -/

/-- An inventory with one part loaded, where the suffix of a copy is in the `id`. -/
def ofCopiedParts : Inventory := { ofNormalPart 25 with suffixRule := .ofAttr "id" }

theorem leads_ofCopiedParts : Leads ofCopiedParts.conventions.groupingElement (fun _ _ => True)
    (.empty .parts) ofCopiedParts.holdings :=
  have hmade := (coherent_empty .parts).make (x := .fresh 0 (.part [("id", "normal")])) rfl
  (Leads.refl.step (e := .made) trivial trivial).step
    (e := .added (.fresh 0 (.part [("id", "normal")]))) trivial
    (hmade.admits (.inl List.mem_cons_self))

/-- A grouping element of a version. -/
def layoutTypeOf (version : String) : Element :=
  ⟨"layoutType", .ofList [("layout", "stem"), ("version", version)], [], none⟩

/-- Outdated elements, the first of them twice, and in another wrapper a current one with
one that has no version. -/
def sevenElements : List Selected :=
  [⟨0, oldNormalPart⟩, ⟨0, .part [("id", "normal%1"), ("version", "3")]⟩, ⟨0, layoutTypeOf "3"⟩,
    ⟨0, .part [("id", "lost"), ("version", "3")]⟩, ⟨0, oldNormalPart⟩,
    ⟨1, .part [("id", "long"), ("version", "25")]⟩, ⟨1, .part [("id", "wide")]⟩]

/-- The part is merged with the loaded one, and so is its copy, with its suffix. The
grouping element is restamped, what has no counterpart is dropped, the repeated part does
not count, and the part without a version has that of its neighbour. -/
theorem reconcile_sevenElements :
    let result := ofCopiedParts.reconcile sevenElements 25 true
    result.1.map (fun r => (r.survivors.map Handle.element, r.changed, result.2.merges)) =
        .ok ([.part [("id", "normal"), ("version", "25"), ("merged", ":1")],
          .part [("id", "normal%1"), ("version", "25"), ("merged", "%1:1")], layoutTypeOf "25",
          .part [("id", "long"), ("version", "25")], .part [("id", "wide")]], true, 2) ∧
      result.2.holdings.main = ofCopiedParts.holdings.main := by
  have hdecides := reconcile_decides_each leads_ofCopiedParts sevenElements 25 true
  exact ⟨hdecides.1.trans (by rfl), hdecides.2.1⟩

end Inventory

end TemplateInventory
