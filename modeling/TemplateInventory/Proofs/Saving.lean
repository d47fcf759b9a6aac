import TemplateInventory.Proofs.Aside
import TemplateInventory.Proofs.Files
import TemplateInventory.Proofs.Freshness
/-!
# Saving that fails

`Work.persist` writes an element's file first and adds the element last.
`persist_cases` are its two ways: it stops before anything is written, or it comes
to the add with the file in place. Either way no other file changes.

An add fails after the file was written only for an override that has nothing to
override or is one too many (`add_refused_override`). Then the file stays, and
the holdings are as after a lookup of the element's key, which changes no answer
while no key waits for itself (`persist_failure`).
-/

namespace TemplateInventory

open Holdings Inventory Relation

/-! ## Runs of operations -/

namespace Work

section
variable {α : Type} (w : Workspace)

theorem runOn_ask (f : Workspace → Except InventoryError α) : (ask f).runOn w = (f w, w) := rfl

theorem runOn_inventory : inventory.runOn w = (.ok w.inventory, w) := rfl

theorem runOn_pure (a : α) : (pure a : Work α).runOn w = (.ok a, w) := rfl

theorem runOn_modifyInventory (f : Inventory → Inventory) :
    (modifyInventory f).runOn w = (.ok (), { w with inventory := f w.inventory }) := rfl

theorem runOn_onFiles (f : FileTree → Except FileError Unit × FileTree) :
    (onFiles f).runOn w = (match (f w.files).1 with
      | .ok _ => .ok ()
      | .error err => .error (.file err), { w with files := (f w.files).2 }) := by
  change ((f w.files).1.mapError InventoryError.file, _) = _
  cases (f w.files).1 with
  | ok u => rfl
  | error err => rfl

theorem runOn_onInventory (f : Inventory → Except InventoryError α × Inventory) :
    (onInventory f).runOn w = ((f w.inventory).1, { w with inventory := (f w.inventory).2 }) := rfl

end

end Work

/-! ## The ways of saving -/

/-- The document that a file has before an element is saved in it. -/
def Inventory.documentAt (i : Inventory) (files : FileTree) (p : Path) :
    Except InventoryError Element :=
  if files.holds p then files.readDocument p else .ok i.selection.skeleton

/-- Whether `document` was saved for an element in the file under `p`, which made
`before` into `files`. -/
def Inventory.Saves (i : Inventory) (before : FileTree) (e : Element) (p : Path)
    (document : Element) (files : FileTree) : Prop :=
  ∃ name grouping directory old made, i.fileFor e = .ok (name, grouping) ∧
    i.userDirectory = some directory ∧ p = directory.child name ∧
    before.makeDirectories directory = (.ok (), made) ∧ i.documentAt made p = .ok old ∧
    i.savedDocument e grouping old = .ok document ∧ made.writeDocument p document = .ok files

/-- The files are the same; directories may have been made. -/
def FileTree.SameFiles (t t' : FileTree) : Prop := ∀ place, t'.fileAt place = t.fileAt place

/-- Saving stops before anything is written, or comes to the add. -/
theorem Work.persist_cases {w : Workspace} {source : Handle}
    {motive : Except InventoryError Path × Workspace → Prop}
    (unsaved : ∀ err files, w.files.SameFiles files → motive (.error err, { w with files := files }))
    (saved : ∀ p document files,
      w.inventory.Saves w.files (w.inventory.stampVersion source.element) p document files →
      let e := w.inventory.stampVersion source.element
      let r := (w.inventory.mint e).2.add (source.revise w.inventory.holdings.nextSerial e)
      motive (r.1.map fun _ => p, ⟨r.2, files⟩)) :
    motive ((persist source).runOn w) := by
  have hsame : ∀ files, w.files.SameFiles files →
      ∀ err, motive (.error err, { w with files := files }) := fun files hf err =>
    unsaved err files hf
  simp only [persist, runOn_bind, runOn_inventory, runOn_ask]
  cases hfile : w.inventory.fileFor (w.inventory.stampVersion source.element) with
  | error err => exact hsame w.files (fun _ => rfl) err
  | ok found =>
    obtain ⟨name, grouping⟩ := found
    simp only
    cases hdir : w.inventory.requireUserDirectory with
    | error err => exact hsame w.files (fun _ => rfl) err
    | ok directory =>
      have hmade : w.files.SameFiles (w.files.makeDirectories directory).2 :=
        w.files.fileAt_makeDirectories directory
      simp only [runOn_onFiles]
      rcases hm : w.files.makeDirectories directory with ⟨err | u, made⟩
      all_goals
        rw [hm] at hmade
        simp only
      · exact hsame made hmade _
      · simp only [readOrSkeleton, runOn_ask]
        cases hold : w.inventory.documentAt made (directory.child name) with
        | error err =>
          unfold documentAt at hold
          simp only [hold]
          exact hsame made hmade _
        | ok old =>
          have hold' := hold
          unfold documentAt at hold
          simp only [hold]
          cases hdoc : w.inventory.savedDocument (w.inventory.stampVersion source.element) grouping
              old with
          | error err => exact hsame made hmade _
          | ok document =>
            simp only
            cases hwrite : made.writeDocument (directory.child name) document with
            | error err =>
              simp only [FileTree.attempt, hwrite]
              exact hsame made hmade _
            | ok files =>
              simp only [FileTree.attempt, hwrite, runOn_modifyInventory, runOn_onInventory]
              have huser : w.inventory.userDirectory = some directory := by
                unfold requireUserDirectory at hdir
                split at hdir
                · next d hd =>
                  cases hdir
                  exact hd
                · cases hdir
              have hsaved := saved (directory.child name) document files
                ⟨name, grouping, directory, old, made, hfile, huser, rfl, hm, hold', hdoc, hwrite⟩
              simp only at hsaved
              generalize (w.inventory.mint _).2.add _ = r at hsaved ⊢
              obtain ⟨_ | u, i⟩ := r
              · exact hsaved
              · exact hsaved

/-- The file that was saved is the only one that changed. -/
theorem Inventory.Saves.only {i : Inventory} {before files : FileTree} {e document : Element}
    {p : Path} (hs : i.Saves before e p document files) :
    ∃ place time, files.fileAt place = some ((Xml.printDocument document ++ "\n").toUTF8, time) ∧
      ∀ other, other ≠ place → files.fileAt other = before.fileAt other := by
  obtain ⟨name, grouping, directory, old, made, -, -, -, hm, -, -, hwrite⟩ := hs
  obtain ⟨place, -, hat, hother⟩ := FileTree.fileAt_write hwrite
  refine ⟨place, _, hat, fun other hne => (hother other hne).trans ?_⟩
  have hsame := before.fileAt_makeDirectories directory other
  rwa [hm] at hsame

/-- An element that is saved has its identity. -/
theorem Inventory.Saves.identity {i : Inventory} {before files : FileTree} {e document : Element}
    {p : Path} (hs : i.Saves before e p document files) :
    ∃ identity, i.schema.identityOf e = some identity := by
  obtain ⟨name, grouping, directory, old, made, hfile, -⟩ := hs
  unfold fileFor at hfile
  unfold KeySchema.identityOf
  cases hattr : i.schema.identityAttr e.name with
  | none => rw [hattr] at hfile; cases hfile
  | some attr =>
    rw [hattr] at hfile
    simp only [Element.requiredAttr] at hfile
    cases hv : e.attr attr with
    | none => rw [hv] at hfile; cases hfile
    | some identity => exact ⟨identity, hv⟩

/-! ## Adds that fail -/

namespace Holdings

/-- The same contents are answered. -/
def SameAnswers (h h' : Holdings) : Prop :=
  ∀ name values,
    (h'.getElement name values).1.map Handle.element =
        (h.getElement name values).1.map Handle.element ∧
      (h'.getAlteration name values).1.map Handle.element =
        (h.getAlteration name values).1.map Handle.element ∧
      (h'.getBase name values).1.map Handle.element =
        (h.getBase name values).1.map Handle.element

section
variable {h h' h'' : Holdings} {node : Handle} {err : InventoryError} {identity : String}

theorem SameAnswers.trans (hs : SameAnswers h h') (hs' : SameAnswers h' h'') :
    SameAnswers h h'' := by
  intro name values
  obtain ⟨hget, halt, hbase⟩ := hs name values
  obtain ⟨hget', halt', hbase'⟩ := hs' name values
  exact ⟨hget'.trans hget, halt'.trans halt, hbase'.trans hbase⟩

theorem SameAt.answers {name : String} (hs : SameAt name h h') (values : List (Option String)) :
    (h'.getElement name values).1.map Handle.element =
        (h.getElement name values).1.map Handle.element ∧
      (h'.getAlteration name values).1.map Handle.element =
        (h.getAlteration name values).1.map Handle.element ∧
      (h'.getBase name values).1.map Handle.element =
        (h.getBase name values).1.map Handle.element :=
  ⟨hs.getElement values, hs.getAlteration values, hs.getBase values⟩

/-- An element that has its identity is refused only as an override, when its key
has no element or was overridden before. -/
theorem add_refused_override (hr : (h.add node).1 = .error err)
    (hid : h.schema.identityOf node.element = some identity) :
    node.element.base = some identity ∧
      ((err = .noBase identity (h.schema.keyOf node.element) ∧
          (h.overridden node.element.name (h.schema.valuesOf node.element)).1 = none) ∨
        err = .overrideDepth identity (h.schema.keyOf node.element)) := by
  obtain ⟨attr, hattr, hv⟩ := Option.bind_eq_some_iff.1 hid
  unfold add at hr
  cases hb : node.element.base with
  | none => rw [hb] at hr; cases hr
  | some base =>
    simp only [hb, hattr, Element.requiredAttr, hv] at hr
    split at hr
    · next he =>
      subst he
      refine ⟨rfl, ?_⟩
      unfold addOverride at hr
      rcases ho : h.overridden node.element.name (h.schema.valuesOf node.element) with ⟨_ | x, h₁⟩
      · simp only [ho] at hr
        cases hr
        exact .inl ⟨rfl, rfl⟩
      · simp only [ho] at hr
        split at hr
        · cases hr
          exact .inr rfl
        · cases hr
    · cases hr

end

end Holdings

/-- While no key waits for itself, resolving a key changes no answer. -/
theorem Catalog.answers_resolve {c : Catalog} (hacyclic : ∀ q, ¬ TransGen c.Waits q q)
    (k : ElementKey) (name : String) (values : List (Option String)) :
    ((c.resolve [] k).2.getElement name values).1.map Handle.element =
        (c.getElement name values).1.map Handle.element ∧
      ((c.resolve [] k).2.getAlteration name values).1.map Handle.element =
        (c.getAlteration name values).1.map Handle.element ∧
      ((c.resolve [] k).2.getBase name values).1.map Handle.element =
        (c.getBase name values).1.map Handle.element := by
  have hg := grows_resolve c [] k
  have hvalue : ∀ q, ((c.resolve [] k).2.resolve [] q).1.map Handle.element =
      (c.resolve [] q).1.map Handle.element := fun q =>
    (value_resolve (hg.acyclic hacyclic) q).unique ((value_resolve hacyclic q).resolve hacyclic k)
  refine ⟨?_, ?_, ?_⟩
  · rw [getElement, getElement, hg.schema]
    exact hvalue _
  · rw [getAlteration, getAlteration, hg.schema, hg.alterations]
  · unfold getBase
    simp only [hg.schema, hg.alterations, hg.bases]
    cases c.alterations.get? (.of name (c.schema.fit name values) .main) with
    | none => rfl
    | some a =>
      cases hb : a.element.base with
      | none => simp only [hb]
      | some base =>
        simp only [hb]
        cases (ElementKey.of name (c.schema.fit name values) .main).based base with
        | none => rfl
        | some k' =>
          simp only
          split
          · rfl
          · exact hvalue k'

/-- A key that resolves to nothing leaves the catalog as it is. -/
theorem Catalog.resolve_none {c : Catalog} {k : ElementKey} (hk : (c.resolve [] k).1 = none) :
    (c.resolve [] k).2 = c := by
  cases hm : c.main.get? k with
  | some x => rw [resolve_served hm]
  | none =>
    cases ha : c.alterations.get? k with
    | none => rw [resolve_missing hm ha]
    | some a =>
      cases hb : a.element.base.bind k.based with
      | none => rw [resolve_alone hm List.not_mem_nil ha hb] at hk; cases hk
      | some k' => rw [resolve_based hm List.not_mem_nil ha hb] at hk; cases hk

namespace Holdings

section
variable {g name : String} {h : Holdings} {c : Catalog} {values : List (Option String)}

/-- Resolving a key of an ordinary name changes no answer, if it finds nothing or
no key waits for itself. -/
theorem Agrees.sameAnswers_resolve (ha : Agrees (· ≠ g) h c) (hc : Coherent [] h) (hn : name ≠ g)
    (hv : values.length = (h.schema.attrsFor name).length)
    (hq : (h.resolve [] name values).1 = none ∨ ∀ q, ¬ TransGen c.Waits q q) :
    SameAnswers h (h.resolve [] name values).2 := by
  intro other values'
  by_cases ho : name = other
  · subst ho
    have hp : decide (name ≠ g) = true := by simpa using hn
    obtain ⟨hans, ha'⟩ := ha.resolve (r := []) hc hp hv
    have hc' : Coherent [] (h.resolve [] name values).2 := hc.resolve
    rw [(ha.getElement hc hp values').1, (ha.getAlteration hp values').1,
      (ha.getBase hc hp values').1, (ha'.getElement hc' hp values').1,
      (ha'.getAlteration hp values').1, (ha'.getBase hc' hp values').1]
    rcases hq with hq | hq
    · rw [Catalog.resolve_none (hans.symm.trans hq)]
      exact ⟨rfl, rfl, rfl⟩
    · exact Catalog.answers_resolve hq _ name values'
  · exact (sameAt_resolve hc ho).answers values'

end

end Holdings

/-- What saving leaves when it fails. Either no file and nothing of the inventory
changed. Or the element is an override of its own key that was refused after its
document was saved: then that one file changed, and of the inventory at most the
element's key was resolved, by which no answer changes unless a key waits for
itself or the element has the name of grouping elements. -/
theorem persist_failure {w w' : Workspace} (hw : Reachable w) {source : Handle}
    {err : InventoryError} (h : (Work.persist source).runOn w = (.error err, w')) :
    let e := w.inventory.stampVersion source.element
    let k := w.inventory.schema.keyOf e
    (w.files.SameFiles w'.files ∧ w'.inventory = w.inventory) ∨
    ∃ p document place time identity,
      w.inventory.Saves w.files e p document w'.files ∧
      w'.files.fileAt place = some ((Xml.printDocument document ++ "\n").toUTF8, time) ∧
      (∀ other, other ≠ place → w'.files.fileAt other = w.files.fileAt other) ∧
      e.base = some identity ∧ w.inventory.schema.identityOf e = some identity ∧
      (err = .noBase identity k ∨ err = .overrideDepth identity k) ∧
      (w'.inventory = (w.inventory.mint e).2 ∨
        w'.inventory = ((w.inventory.mint e).2.onHoldings
          (·.resolve [] e.name (w.inventory.schema.valuesOf e))).2) ∧
      (e.name ≠ w.inventory.conventions.groupingElement →
        (err = .noBase identity k ∨ ∀ q, ¬ TransGen (w.inventory.holdings.catalogOf
          (· ≠ w.inventory.conventions.groupingElement)).Waits q q) →
        w.inventory.holdings.SameAnswers w'.inventory.holdings) := by
  revert h
  refine Work.persist_cases (motive := fun r => r = (.error err, w') → _) ?unsaved ?saved
  case unsaved =>
    intro err' files hfiles he
    cases he
    exact .inl ⟨hfiles, rfl⟩
  case saved =>
    intro p document files hsaves
    simp only
    generalize he : w.inventory.stampVersion source.element = e at hsaves ⊢
    intro hr
    obtain ⟨place, time, hat, hother⟩ := hsaves.only
    obtain ⟨identity, hid⟩ := hsaves.identity
    -- What is added is added to the holdings after its number was given.
    let h₁ : Holdings := { w.inventory.holdings with nextSerial := w.inventory.holdings.nextSerial + 1 }
    let node := source.revise w.inventory.holdings.nextSerial e
    have hadd : (h₁.add node).1 = .error err ∧
        w' = ⟨{ w.inventory with holdings := (h₁.add node).2 }, files⟩ := by
      simp only [Prod.mk.injEq] at hr
      obtain ⟨herr, hw'⟩ := hr
      refine ⟨?_, hw'.symm⟩
      change (h₁.add node).1.map _ = _ at herr
      cases hres : (h₁.add node).1 with
      | error err' => rw [hres] at herr; cases herr; rfl
      | ok u => rw [hres] at herr; cases herr
    obtain ⟨herr, rfl⟩ := hadd
    obtain ⟨hbase, hcases⟩ := add_refused_override herr hid
    refine .inr ⟨p, document, place, time, identity, hsaves, hat, hother, hbase, hid,
      hcases.imp_left And.left, ?_, fun hn hq => ?_⟩
    · rcases add_refused herr with hsame | hresolved
      · exact .inl (by rw [hsame]; rfl)
      · exact .inr (by rw [hresolved]; rfl)
    · have hmint : SameAnswers w.inventory.holdings h₁ := fun name values =>
        (SameAt.refl name w.inventory.holdings).recount.answers values
      refine hmint.trans ?_
      change SameAnswers h₁ (h₁.add node).2
      rcases add_refused herr with hsame | hresolved
      · rw [hsame]
        exact fun _ _ => ⟨rfl, rfl, rfl⟩
      · rw [hresolved]
        obtain ⟨c, ha⟩ := hw.agrees (p := (· ≠ w.inventory.conventions.groupingElement)) (by simp)
        have hc₁ : Coherent [] h₁ := (hw.coherent.make (x := node) (Handle.id_revise _ _ _ ▸ rfl)).leave
        refine ha.make.sameAnswers_resolve hc₁ hn (h₁.schema.length_valuesOf e) ?_
        rcases hq with hq | hq
        · rcases hcases with ⟨-, hnone⟩ | hdepth
          · left
            unfold overridden at hnone
            split at hnone
            · cases hnone
            · exact hnone
          · rw [hdepth] at hq
            cases hq
        · exact .inr (ha.eq_catalogOf ▸ hq)

/-! ## Overrides that are refused -/

/-- A workspace without files, with nothing loaded and a directory for user
files. -/
def Workspace.ofUser (schema : KeySchema) : Workspace :=
  let w := Workspace.blank schema
  { w with inventory := { w.inventory with userDirectory := some ⟨"user"⟩ } }

theorem reachable_ofUser (schema : KeySchema) : Reachable (.ofUser schema) :=
  .start _ rfl rfl rfl rfl

/-- The workspace with an element that was made and added. -/
def Workspace.adding (w : Workspace) (e : Element) : Workspace :=
  (w.run (.make e)).run (.add (.fresh w.inventory.holdings.nextSerial e))

theorem Reachable.adding {w : Workspace} (hw : Reachable w) (e : Element) :
    Reachable (w.adding e) :=
  (hw.step (r := .make e) trivial).step (hw.made e)

/-- An override of a part, which is refused where the part is not there and where it
has one. -/
def loosePart : Handle := .fresh 9 (.part [("id", "normal"), ("base", "normal")])

theorem error_of_toBool {α : Type} {r : Except InventoryError α × Workspace}
    (h : r.1.toBool = false) : ∃ err, r = (.error err, r.2) := by
  obtain ⟨_ | a, w⟩ := r
  · exact ⟨_, rfl⟩
  · cases h

/-- A workspace with a part that has its override, and another that is derived from it. -/
def Workspace.ofOverridden : Workspace :=
  (((Workspace.ofUser .parts).adding redPart).adding loosePart.element).adding shortPart

theorem reachable_ofOverridden : Reachable .ofOverridden :=
  (((reachable_ofUser .parts).adding _).adding _).adding _

/-- Both alterations are based on the part, which is served. -/
theorem acyclic_ofOverridden (k : ElementKey) :
    ¬ TransGen (Workspace.ofOverridden.inventory.holdings.catalogOf
      (· ≠ Workspace.ofOverridden.inventory.conventions.groupingElement)).Waits k k := by
  have hbased : ∀ entry ∈ (Workspace.ofOverridden.inventory.holdings.catalogOf
      (· ≠ Workspace.ofOverridden.inventory.conventions.groupingElement)).alterations.entries,
        entry.2.element.base.bind entry.1.based = some (KeySchema.parts.keyOf redPart) := by
    decide +kernel
  refine Catalog.acyclic_of_served (fun k k' ⟨_, a, ha, hb⟩ => ?_) k
  rw [hbased _ (Table.mem_entries_iff.2 ha)] at hb
  cases hb
  decide +kernel

/-- The override is one too many. It was saved by then, and answers stay. -/
theorem persist_failure_loosePart :
    let w := Workspace.ofOverridden
    let w' := ((Work.persist loosePart).runOn w).2
    let place := ["user", "default$$normal"]
    (w.inventory.getElement "part" [some "short"]).1.isSome = true ∧
      w.files.fileAt place = none ∧
      (w'.files.fileAt place).map Prod.fst =
        some (Xml.printDocument ⟨"Inventory", .empty, [loosePart.element], none⟩ ++ "\n").toUTF8 ∧
      (∀ other, other ≠ place → w'.files.fileAt other = w.files.fileAt other) ∧
      w.inventory.holdings.SameAnswers w'.inventory.holdings := by
  obtain ⟨err, he⟩ := error_of_toBool (r := (Work.persist loosePart).runOn .ofOverridden)
    (by decide +kernel)
  have hheld : (Workspace.ofOverridden.inventory.getElement "part" [some "short"]).1.isSome = true := by
    decide +kernel
  have hnone : (Workspace.ofOverridden.files.fileAt ["user", "default$$normal"]).isSome = false := by
    decide +kernel
  have hsaved : (((Work.persist loosePart).runOn .ofOverridden).2.files.fileAt
      ["user", "default$$normal"]).map Prod.fst = some (Xml.printDocument
        ⟨"Inventory", .empty, [loosePart.element], none⟩ ++ "\n").toUTF8 := by decide +kernel
  rcases persist_failure reachable_ofOverridden he with ⟨hsame, -⟩ | hcase
  · rw [hsame] at hsaved
    rw [← Option.isSome_map, hsaved] at hnone
    cases hnone
  · obtain ⟨-, -, place, -, identity, -, -, hother, -, -, -, -, hans⟩ := hcase
    -- The one file that changed is the one that was not there.
    have hplace : place = ["user", "default$$normal"] := by
      refine Classical.byContradiction fun hne => ?_
      rw [hother _ (Ne.symm hne)] at hsaved
      rw [← Option.isSome_map, hsaved] at hnone
      cases hnone
    subst hplace
    exact ⟨hheld, Option.not_isSome_iff_eq_none.1 (by simp [hnone]), hsaved, hother,
      hans (by decide +kernel) (.inr acyclic_ofOverridden)⟩

/-- Whether every failing save leaves the files as they are. -/
def Workspace.KeepsFiles (w : Workspace) : Prop :=
  ∀ source err w', (Work.persist source).runOn w = (.error err, w') → w.files.SameFiles w'.files

/-- Whether every failing save leaves the answers as they are. -/
def Workspace.KeepsAnswers (w : Workspace) : Prop :=
  ∀ source err w', (Work.persist source).runOn w = (.error err, w') →
    w.inventory.holdings.SameAnswers w'.inventory.holdings

/-- A workspace with an overridden part, in the place of which there are now two
parts that are based on each other. -/
def Workspace.ofCycle : Workspace :=
  ((((Workspace.ofUser .parts).adding redPart).adding
    (.part [("id", "normal"), ("base", "normal")])).adding
    (.part [("id", "normal"), ("base", "short"), ("color", "blue")])).adding shortPart

/-- A grouping element with a capital in its value. -/
def capitalPage : Element := ⟨"layoutType", .ofList [("layout", "Page")], [], none⟩

def Workspace.ofCapitalPage : Workspace :=
  ((Workspace.ofUser .pages).run (.make capitalPage)).run (.addGrouping (.fresh 0 capitalPage))

/-- An override of the page that is spelled in lower case. -/
def loosePage : Handle :=
  .fresh 9 ⟨"layoutType", .ofList [("layout", "page"), ("base", "page")], [], none⟩

/-- An override that is refused leaves its file, answers of parts on a cycle depend
on it, and so do those of grouping elements in another spelling. -/
theorem refused_override_leaves_traces :
    (Reachable (.ofUser .parts) ∧ ¬ (Workspace.ofUser .parts).KeepsFiles) ∧
      (Reachable .ofCycle ∧ ¬ Workspace.ofCycle.KeepsAnswers) ∧
      Reachable .ofCapitalPage ∧ ¬ Workspace.ofCapitalPage.KeepsAnswers := by
  refine ⟨⟨reachable_ofUser .parts, fun hall => ?_⟩, ⟨?_, fun hall => ?_⟩, ?_, fun hall => ?_⟩
  · obtain ⟨err, he⟩ := error_of_toBool (r := (Work.persist loosePart).runOn (.ofUser .parts))
      (by decide +kernel)
    have hfile := congrArg Option.isSome (hall _ _ _ he ["user", "default$$normal"])
    revert hfile
    decide +kernel
  · exact (((((reachable_ofUser .parts).adding _).adding _).adding _).adding _)
  · obtain ⟨err, he⟩ := error_of_toBool (r := (Work.persist loosePart).runOn .ofCycle)
      (by decide +kernel)
    have hget := (hall _ _ _ he "part" [some "short"]).1
    revert hget
    decide +kernel
  · exact ((reachable_ofUser .pages).step (r := .make capitalPage) trivial).step
      (r := .addGrouping (.fresh 0 capitalPage)) ⟨(reachable_ofUser .pages).made capitalPage, rfl⟩
  · obtain ⟨err, he⟩ := error_of_toBool (r := (Work.persist loosePage).runOn .ofCapitalPage)
      (by decide +kernel)
    have hget := (hall _ _ _ he "layoutType" [some "Page"]).1
    revert hget
    decide +kernel

end TemplateInventory
