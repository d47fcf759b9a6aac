import TemplateInventory.Proofs.Effects
/-!
# Reachable workspaces

A `Call` is a call of an inventory, or a change of the files around it.
`Reachable w` holds of the workspaces that calls lead to, those that fail
included, from an inventory with nothing loaded.

Whatever a call does to the holdings, it does by events (`moves_run`). So
reachable holdings are coherent, remember only names that they have, and agree
with a catalog at all names but that of grouping elements
(`Reachable.coherent`, `Reachable.backed`, `Reachable.agrees`).
-/

namespace TemplateInventory

open Holdings Inventory

/-! ## Calls -/

/-- A call of an inventory, or a change around it. -/
inductive Call where
  /-- The files are changed by someone else. -/
  | files (files : FileTree)
  /-- An element is made, to be added later. -/
  | make (e : Element)
  | setScope (scope : Option String)
  | load
  | reloadIfChanged
  | loadText (text : String) (expected : Int)
  | addText (text : String) (expected : Int)
  | addFiles (expected : Int) (isUser : Bool) (paths : List Path)
  | addDirectories (directories : List Path)
  | loadUserFiles (expected : Int) (scope : Option String)
  | deleteUserFiles (scope : Option String)
  | persist (source : Handle)
  | add (node : Handle)
  | addGrouping (node : Handle)
  | expandTagged (tag : String)
  | getElement (name : String) (values : List (Option String))
  | getAlteration (name : String) (values : List (Option String))
  | getBase (name : String) (values : List (Option String))
  | unified (base alteration : Handle)

namespace Workspace

/-- The workspace with the inventory after an operation. -/
def update {α : Type} (w : Workspace) (f : Inventory → α × Inventory) : Workspace :=
  { w with inventory := (f w.inventory).2 }

/-- The workspace after a call, whether it fails or not. -/
def run (w : Workspace) : Call → Workspace
  | .files files => { w with files := files }
  | .make e => w.update (·.mint e)
  | .setScope scope => { w with inventory := { w.inventory with scope := scope } }
  | .load => (Work.load.runOn w).2
  | .reloadIfChanged => (Work.reloadIfChanged.runOn w).2
  | .loadText text expected => w.update (·.loadText text expected)
  | .addText text expected => w.update (·.addText text expected)
  | .addFiles expected isUser paths => ((Work.addFiles expected isUser paths).runOn w).2
  | .addDirectories directories => ((Work.addDirectories directories).runOn w).2
  | .loadUserFiles expected scope => ((Work.loadUserFiles expected scope).runOn w).2
  | .deleteUserFiles scope => ((Work.deleteUserFiles scope).runOn w).2
  | .persist source => ((Work.persist source).runOn w).2
  | .add node => w.update (·.add node)
  | .addGrouping node => w.update (·.addGrouping node)
  | .expandTagged tag => w.update (·.expandTagged tag)
  | .getElement name values => w.update (·.getElement name values)
  | .getAlteration name values => w.update (·.getAlteration name values)
  | .getBase name values => w.update (·.getBase name values)
  | .unified base alteration => w.update (·.unified base alteration)

/-- Whether a call can be made: an element that is given was made before, and
what is given as a grouping element has their name. -/
def Accepts (w : Workspace) : Call → Prop
  | .add node => w.inventory.holdings.Admits node
  | .addGrouping node => w.inventory.holdings.Admits node ∧
      node.element.name = w.inventory.conventions.groupingElement
  | _ => True

end Workspace

/-- Whether a call adds nothing but what it reads in documents. -/
def Call.OnlyReads : Call → Prop
  | .persist _ => False
  | .add _ => False
  | .addGrouping _ => False
  | .expandTagged _ => False
  | _ => True

section
variable {i : Inventory} {w : Workspace} {r : Call} {Q : Inventory → Prop}

/-- A question for the base of a derived element looks for that first, and then in one way
for what it is based on. -/
theorem Holdings.getBase_lookups {motive : Holdings → Prop} (h : Holdings) (name : String)
    (values : List (Option String))
    (alteration : motive (h.findIn .alterations name (h.schema.fit name values)).2)
    (base : ∀ {h' values'}, values'.length = (h'.schema.attrsFor name).length → motive h' →
      motive (h'.findIn .bases name values').2)
    (element : ∀ {h' values'}, values'.length = (h'.schema.attrsFor name).length → motive h' →
      motive (h'.resolve [] name values').2) : motive (h.getBase name values).2 := by
  have hv := KeySchema.length_fit h.schema name values
  have hs := schema_findIn h .alterations name (h.schema.fit name values)
  unfold Holdings.getBase
  simp only
  split
  · next h' hr => rw [hr] at alteration; exact alteration
  · next a h' hr =>
    rw [hr] at alteration hs
    split
    · exact alteration
    · split
      · exact alteration
      · next values' hb =>
        have hv' : values'.length = (h'.schema.attrsFor name).length := by
          rw [length_baseValues hb, hv, show h'.schema = h.schema from hs]
        split
        · exact base hv' alteration
        · exact element hv' alteration

theorem leads_getBase {g : String} (h : Holdings) (name : String) (values : List (Option String)) :
    Leads g (fun _ _ => True) h (h.getBase name values).2 :=
  h.getBase_lookups name values
    (.one (e := .found .alterations name (h.schema.fit name values)) trivial
      (KeySchema.length_fit h.schema name values))
    (fun hv hl => hl.step (e := .found .bases name _) trivial hv)
    fun hv hl => hl.step (e := .resolved name _) trivial hv

theorem Inventory.KeptByLoading.getBase (hk : KeptByLoading Q) (hq : Q i) (name : String)
    (values : List (Option String)) : Q (i.getBase name values).2 :=
  i.holdings.getBase_lookups (motive := fun h => Q { i with holdings := h }) name values
    (hk.found (KeySchema.length_fit _ _ _) hq) (fun hv hq' => hk.found hv hq')
    fun hv hq' => hk.resolved hv hq'

/-- What the steps of loading keep is kept by calls that only read. -/
theorem Inventory.KeptByLoading.run (hk : KeptByLoading Q) (hr : r.OnlyReads)
    (hq : Q w.inventory) : Q (w.run r).inventory := by
  cases r with
  | files files => exact hq
  | make e => exact hk.made e hq
  | setScope scope => exact hk.settings hq
  | load => exact hk.load.runOn hq
  | reloadIfChanged => exact hk.reloadIfChanged.runOn hq
  | loadText text expected => exact hk.addText (hk.cleared hq) text expected
  | addText text expected => exact hk.addText hq text expected
  | addFiles expected isUser paths => exact (hk.addFiles expected isUser paths).runOn hq
  | addDirectories directories => exact (hk.addDirectories directories).runOn hq
  | loadUserFiles expected scope => exact (hk.loadUserFiles expected scope).runOn hq
  | deleteUserFiles scope => exact (hk.deleteUserFiles scope).runOn hq
  | persist source => exact hr.elim
  | add node => exact hr.elim
  | addGrouping node => exact hr.elim
  | expandTagged tag => exact hr.elim
  | getElement name values => exact hk.resolved (KeySchema.length_fit _ _ _) hq
  | getAlteration name values => exact hk.found (KeySchema.length_fit _ _ _) hq
  | getBase name values => exact hk.getBase hq name values
  | unified base alteration => exact hk.settings (hk.made default hq)

/-- A call does to the holdings what events do. -/
theorem moves_run (hc : Coherent [] w.inventory.holdings) (hr : w.Accepts r) :
    Inventory.Moves [] w.inventory (w.run r).inventory := by
  have hread : ∀ r : Call, r.OnlyReads → Inventory.Moves [] w.inventory (w.run r).inventory :=
    fun r hr => (keptByLoading_moves w.inventory).run hr (.stay hc rfl rfl)
  cases r with
  | persist source => exact (Work.moves_persist hc source).runOn
  | add node => exact (moves_add (hr.coherent hc)).leave
  | addGrouping node => exact (moves_addGrouping (hr.1.coherent hc) hr.2).leave
  | expandTagged tag => exact moves_expandAll hc tag 0 _
  | _ => exact hread _ trivial

end

/-! ## Reachable workspaces -/

/-- What calls lead to. -/
inductive Reachable : Workspace → Prop
  /-- An inventory with nothing loaded, over any files. -/
  | start {i : Inventory} {schema : KeySchema} (files : FileTree) (hh : i.holdings = .empty schema)
      (hs : i.stamps = []) (ht : i.tagged = []) (hm : i.memo = .empty) : Reachable ⟨i, files⟩
  | step {w : Workspace} {r : Call} (hw : Reachable w) (hr : w.Accepts r) : Reachable (w.run r)

/-- A workspace without files whose inventory has nothing loaded. -/
def Workspace.blank (schema : KeySchema) : Workspace where
  inventory :=
    { selection := ⟨"Inventory", []⟩
      pattern := ⟨"*", [.anything]⟩
      conventions := {}
      sources := .empty
      userDirectory := none
      scope := none
      version := 0
      merger := none
      suffixRule := .usual
      holdings := .empty schema
      memo := .empty
      stamps := []
      tagged := []
      merges := 0 }
  files := ⟨.empty, [], 0⟩

theorem reachable_blank (schema : KeySchema) : Reachable (.blank schema) :=
  .start _ rfl rfl rfl rfl

/-- A schema of parts that differ in `id`. -/
def KeySchema.parts : KeySchema := .ofList [("part", ["id"])]

/-- A part with attributes. -/
def Element.part (attributes : List (String × String)) : Element :=
  ⟨"part", .ofList attributes, [], none⟩

/-- A part, and one that is derived from it. -/
def redPart : Element := .part [("id", "normal"), ("color", "red")]

def shortPart : Element := .part [("id", "short"), ("base", "normal")]

/-- A workspace to which two parts were added. -/
def Workspace.ofParts : Workspace :=
  ((((Workspace.blank .parts).run (.make redPart)).run (.add (.fresh 0 redPart))).run
    (.make shortPart)).run (.add (.fresh 1 shortPart))

namespace Reachable

section
variable {w : Workspace} {p : String → Bool}

/-- Reachable holdings come from empty ones by events. -/
theorem leads (hw : Reachable w) : ∃ schema,
    Leads w.inventory.conventions.groupingElement (fun _ _ => True) (.empty schema)
      w.inventory.holdings := by
  induction hw with
  | @start i schema files hh hs ht hm => exact ⟨schema, hh ▸ .refl⟩
  | step hw hr ih =>
    obtain ⟨schema, hl⟩ := ih
    have hm := moves_run (hl.coherent (coherent_empty schema)) hr
    exact ⟨schema, hm.conventions ▸ hl.trans hm.leads⟩

theorem coherent (hw : Reachable w) : Coherent [] w.inventory.holdings := by
  obtain ⟨schema, hl⟩ := hw.leads
  exact hl.coherent (coherent_empty schema)

theorem backed (hw : Reachable w) : Backed w.inventory.holdings := by
  obtain ⟨schema, hl⟩ := hw.leads
  exact hl.backed (coherent_empty schema) (backed_empty schema)

theorem agrees (hw : Reachable w) (hp : p w.inventory.conventions.groupingElement = false) :
    ∃ c, Agrees p w.inventory.holdings c := by
  obtain ⟨schema, hl⟩ := hw.leads
  exact hl.exists_agrees (coherent_empty schema) hp (Agrees.empty p schema)

/-- An element that was just made can be added. -/
theorem made (hw : Reachable w) (e : Element) :
    (w.run (.make e)).Accepts (.add (.fresh w.inventory.holdings.nextSerial e)) :=
  (hw.coherent.make (x := .fresh w.inventory.holdings.nextSerial e) rfl).admits
    (.inl List.mem_cons_self)

end

end Reachable

theorem reachable_redPart : Reachable
    (((Workspace.blank .parts).run (.make redPart)).run (.add (.fresh 0 redPart))) :=
  ((reachable_blank .parts).step (r := .make redPart) trivial).step
    ((reachable_blank .parts).made redPart)

theorem reachable_ofParts : Reachable .ofParts :=
  (reachable_redPart.step (r := .make shortPart) trivial).step (reachable_redPart.made shortPart)

end TemplateInventory
