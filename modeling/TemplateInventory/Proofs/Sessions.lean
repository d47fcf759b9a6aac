import TemplateInventory.Command.Run
import TemplateInventory.Proofs.Loading
import TemplateInventory.Proofs.Memory
import TemplateInventory.Proofs.Selections
import TemplateInventory.Proofs.Versions
/-!
# Sessions

A session loads all inventories of a workspace for each command. Settings give an inventory
no merger, so a load changes no file (`CommandSession.run_files`), and one command sees what
the command before it saw.

What the loads lead to is `Inventory.IsRead`: events have led there, and since all served
elements were read from documents, there is no white space in their names.
-/

namespace TemplateInventory

open Holdings

/-! ## Names that are read -/

namespace Xml
open TemplateInventory.Text

/-- Whether there is no white space of markup in a name. -/
def isUnbroken (name : String) : Bool := name.toList.all (!isMarkupBlank ·)

/-- Whether an event opens no element with white space in its name. -/
def Event.isUnbroken : Event → Bool
  | .opening name _ => Xml.isUnbroken name
  | .empty name _ => Xml.isUnbroken name
  | _ => true

theorem isUnbroken_tagName (content : List Char) :
    isUnbroken (String.ofList (tagName content)) = true := by
  rw [isUnbroken, String.toList_ofList, tagName]
  exact List.all_takeWhile

theorem isUnbroken_markupEvent {pos : Nat} {opened opened' : List (List Char)} {m : Markup}
    {event : Event} (h : markupEvent pos opened m = .ok (event, opened')) :
    event.isUnbroken = true := by
  cases m with
  | opening content =>
    simp only [markupEvent, openEvent] at h
    split at h
    · cases h
    · split at h
      · cases h
        exact isUnbroken_tagName _
      · cases h
        exact isUnbroken_tagName _
  | closing content =>
    simp only [markupEvent, closeEvent] at h
    split at h
    · cases h
    · split at h
      · cases h
        rfl
      · cases h
  | data content => cases h; rfl
  | aside => cases h; rfl

theorem isUnbroken_textEvents {piece : List Char} {texts : List Event}
    (h : textEvents piece = .ok texts) : ∀ event ∈ texts, event.isUnbroken = true := by
  unfold textEvents at h
  split at h
  · cases h
    exact fun _ h => absurd h List.not_mem_nil
  · cases hv : unescape (dropEndWhile isMarkupBlank piece) with
    | error f => rw [hv] at h; cases h
    | ok v =>
      rw [hv] at h
      cases h
      intro event he
      rw [List.mem_singleton.1 he]
      rfl

theorem isUnbroken_eventsFrom (opened : List (List Char)) (pos : Nat) (cs : List Char) :
    ∀ event ∈ (eventsFrom opened pos cs).1, event.isUnbroken = true := by
  fun_induction eventsFrom opened pos cs with
  | case1 => exact fun _ h => absurd h List.not_mem_nil
  | case2 _ _ _ _ _ _ htexts => exact isUnbroken_textEvents htexts
  | case3 _ _ _ _ _ _ _ htexts => exact isUnbroken_textEvents htexts
  | case4 _ _ _ _ _ _ _ htexts => exact isUnbroken_textEvents htexts
  | case5 _ _ _ _ _ _ _ htexts _ _ _ _ _ _ _ _ _ _ hevent _ ih =>
    intro event h
    rcases List.mem_append.1 h with h | h
    · exact isUnbroken_textEvents htexts event h
    · rcases List.mem_cons.1 h with rfl | h
      · exact isUnbroken_markupEvent hevent
      · exact ih event h

/-- Whether no name in an element has white space. -/
def Unbroken (e : Element) : Prop := e.Everywhere fun x => isUnbroken x.name = true

/-- Whether no name in what is built has white space. -/
def Building.Unbroken (b : Building) : Prop :=
  (∀ e ∈ b.opened, Xml.Unbroken e) ∧ ∀ e ∈ b.root, Xml.Unbroken e

theorem unbroken_push {parent e : Element} (hp : Unbroken parent) (he : Unbroken e) :
    Unbroken (parent.push e) := by
  obtain ⟨hself, hchildren⟩ := Element.everywhere_iff.1 hp
  refine Element.everywhere_iff.2 ⟨hself, fun c hc => ?_⟩
  rcases List.mem_append.1 hc with hc | hc
  · exact hchildren c hc
  · exact List.mem_singleton.1 hc ▸ he

theorem unbroken_leaf {name : String} {attributes : Table String String}
    (h : isUnbroken name = true) : Unbroken ⟨name, attributes, [], none⟩ :=
  Element.everywhere_mk.2 ⟨h, fun _ hc => absurd hc List.not_mem_nil⟩

namespace Building
variable {b b' : Building} {e : Element} {event : Event} {es : List Event}

theorem unbroken_attach (hb : b.Unbroken) (he : Xml.Unbroken e) (h : b.attach e = .ok b') :
    b'.Unbroken := by
  unfold attach at h
  split at h
  · next parent rest ho =>
    cases h
    rw [Building.Unbroken, ho, List.forall_mem_cons] at hb
    exact ⟨List.forall_mem_cons.2 ⟨unbroken_push hb.1.1 he, hb.1.2⟩, hb.2⟩
  · split at h
    · cases h
      exact ⟨hb.1, fun x hx => Option.some.inj hx ▸ he⟩
    · cases h

theorem unbroken_step (hb : b.Unbroken) (he : event.isUnbroken = true) (h : b.step event = .ok b') :
    b'.Unbroken := by
  cases event with
  | opening name attributes =>
    cases h
    exact ⟨List.forall_mem_cons.2 ⟨unbroken_leaf he, hb.1⟩, hb.2⟩
  | empty name attributes => exact unbroken_attach hb (unbroken_leaf he) h
  | closing =>
    simp only [step] at h
    split at h
    · cases h
    · next e rest ho =>
      rw [Building.Unbroken, ho, List.forall_mem_cons] at hb
      exact unbroken_attach (b := { b with opened := rest }) ⟨hb.1.2, hb.2⟩ hb.1.1 h
  | text value =>
    cases h
    unfold addText
    split
    · exact hb
    · next e rest ho =>
      rw [Building.Unbroken, ho, List.forall_mem_cons] at hb
      refine ⟨List.forall_mem_cons.2 ⟨?_, hb.1.2⟩, hb.2⟩
      exact Element.everywhere_iff.2 (Element.everywhere_iff.1 hb.1.1)
  | aside =>
    cases h
    exact hb

theorem unbroken_steps (hb : b.Unbroken) (he : ∀ event ∈ es, event.isUnbroken = true)
    (h : b.steps es = .ok b') : b'.Unbroken := by
  induction es generalizing b with
  | nil =>
    cases h
    exact hb
  | cons event es ih =>
    rw [steps] at h
    split at h
    · cases h
    · next b₁ hs =>
      rw [List.forall_mem_cons] at he
      exact ih (unbroken_step hb he.1 hs) he.2 h

end Building

/-- No name that was read has white space. -/
theorem unbroken_of_parse {s : String} {e : Element} (h : parse s = .ok e) : Unbroken e := by
  have hevents := isUnbroken_eventsFrom [] 0 (dropMark s.toList)
  unfold parse build at h
  split at h
  · cases h
  · next b hs =>
    have hstart : Building.start.Unbroken :=
      ⟨fun _ h => absurd h List.not_mem_nil, fun _ h => by cases h⟩
    have hb := Building.unbroken_steps hstart hevents hs
    split at h
    · cases h
    · unfold Building.finish at h
      split at h
      · cases h
      · split at h
        · next root hroot =>
          cases h
          exact hb.2 _ hroot
        · cases h

end Xml

theorem FileTree.unbroken_of_readDocument {files : FileTree} {p : Path} {document : Element}
    (h : files.readDocument p = .ok document) : Xml.Unbroken document := by
  unfold readDocument at h
  split at h
  · cases h
  · split at h
    · cases h
    · split at h
      · cases h
      · next hparse =>
        cases h
        exact Xml.unbroken_of_parse hparse

/-! ## Reading without a merger -/

namespace Inventory

/-- Whether no served element has white space in its name. -/
def Unbroken (i : Inventory) : Prop := ∀ e ∈ i.elements, Xml.isUnbroken e.name = true

section
variable {outside : List Handle} {i : Inventory} {node : Handle} {nodes : List Handle}

theorem unbroken_addAny (hi : i.Unbroken) (hc : Coherent (node :: outside) i.holdings)
    (hn : Xml.isUnbroken node.element.name = true) : (i.addAny node).2.Unbroken := by
  intro e he
  obtain ⟨x, hx, rfl⟩ := List.mem_map.1 he
  unfold addAny at hx
  split at hx
  · unfold addGrouping at hx
    split at hx
    · exact hi _ (List.mem_map_of_mem hx)
    · rcases Store.mem_replace hx with hx | rfl
      · exact hi _ (List.mem_map_of_mem hx)
      · exact hn
  · cases hb : Xml.isUnbroken x.element.name with
    | true => rfl
    | false =>
      have hold := mem_add_other (p := (!Xml.isUnbroken ·)) hc (by simp [hn]) (by simp [hb]) hx
      rw [← hb]
      exact hi _ (List.mem_map_of_mem hold)

theorem unbroken_addRead (hi : i.Unbroken) (hc : Coherent nodes i.holdings)
    (hn : ∀ x ∈ nodes, Xml.isUnbroken x.element.name = true) : (i.addRead nodes).2.Unbroken := by
  induction nodes generalizing i with
  | nil => exact hi
  | cons node nodes ih =>
    rw [List.forall_mem_cons] at hn
    have hnote := moves_noteTagged hc node
    have hkept : (i.noteTagged node).Unbroken := by
      unfold Unbroken elements
      rwa [holdings_noteTagged]
    have hadd := hnote.trans (moves_addAny hnote.coherent)
    have hstep := unbroken_addAny hkept hnote.coherent hn.1
    rw [addRead]
    rcases hr : (i.noteTagged node).addAny node with ⟨_ | _, i'⟩
    all_goals rw [hr] at hadd hstep
    · exact hstep
    · exact ih hstep hadd.leave.coherent hn.2

/-- Reconciling serves nothing and sets no merger. -/
theorem elements_reconcile (i : Inventory) (selected : List Selected) (expected : Int)
    (isUser : Bool) : (i.reconcile selected expected isUser).2.elements = i.elements ∧
      (i.reconcile selected expected isUser).2.merger = i.merger :=
  KeptByReconciling.reconcile (Q := fun j => j.elements = i.elements ∧ j.merger = i.merger)
    { found := fun {j name values} _ h =>
        ⟨(congrArg Store.elements (store_findIn j.holdings .main .main name values)).trans h.1, h.2⟩
      made := fun _ h => h
      merged := fun _ h => h }
    ⟨rfl, rfl⟩ selected expected isUser

end

/-- What reading without a merger leaves of a workspace: the files, and an inventory that
events lead to, without white space in names. -/
structure Reads (files : FileTree) (i₀ : Inventory) (w : Workspace) : Prop where
  files : w.files = files
  merger : w.inventory.merger = none
  moves : Moves [] i₀ w.inventory
  unbroken : w.inventory.Unbroken

section
open Work
variable {files : FileTree} {i₀ : Inventory} {w : Workspace}

theorem reads_readFile (h : Reads files i₀ w) (p : Path) :
    (readFile p).Yields w (fun document w' => Xml.Unbroken document ∧ Reads files i₀ w')
      (Reads files i₀) := by
  refine Yields.bind (yields_ask (fun time _ => ?_) h)
  refine Yields.bind (yields_modifyInventory ?_)
  have hstamped : Reads files i₀
      { w with inventory := { w.inventory with stamps := w.inventory.stamps ++ [⟨p, time⟩] } } :=
    { h with moves := h.moves.keep rfl rfl }
  exact yields_ask (fun _ hd => ⟨FileTree.unbroken_of_readDocument hd, hstamped⟩) hstamped

theorem reads_addRead {nodes : List Handle} (h : Reads files i₀ w)
    (hc : Coherent nodes w.inventory.holdings)
    (hn : ∀ x ∈ nodes, Xml.isUnbroken x.element.name = true) :
    (onInventory (·.addRead nodes)).Yields w (fun _ => Reads files i₀) (Reads files i₀) := by
  have hadded : Reads files i₀ { w with inventory := (w.inventory.addRead nodes).2 } :=
    { files := h.files
      merger := (merger_of_unloaded (w.inventory.unloaded_addRead nodes)).trans h.merger
      moves := (keptByLoading_moves i₀).addRead hc h.moves
      unbroken := unbroken_addRead h.unbroken hc hn }
  refine yields_onInventory (fun _ i hr => ?_) fun _ i hr => ?_
  all_goals
    rw [hr] at hadded
    exact hadded

/-- Nothing is restamped or merged, so nothing is written. -/
theorem reads_addFile (files : FileTree) (i₀ : Inventory) (expected : Int) (isUser : Bool) (p : Path) :
    (addFile expected isUser p).Leaves (Reads files i₀) := by
  intro w h
  refine Yields.bind ((reads_readFile h p).mono ?_ fun _ h => h)
  rintro document w₁ ⟨hdocument, h₁⟩
  have hmoves := moves_reconcile h₁.moves.coherent (w₁.inventory.selection.select document) expected
    isUser
  obtain ⟨helements, hmerger⟩ := w₁.inventory.elements_reconcile
    (w₁.inventory.selection.select document) expected isUser
  have hunbroken : ∀ i : Inventory, i.elements = w₁.inventory.elements → i.Unbroken := fun i he => by
    rw [Unbroken, he]
    exact h₁.unbroken
  refine Yields.bind (yields_onInventory (fun r i hr => ?_) fun e i hr => ?_)
  all_goals rw [hr] at hmoves helements hmerger
  · obtain ⟨hchanged, hsurvivors, -⟩ := loads_reconcile h₁.moves.coherent h₁.merger hr
    have hnames : ∀ x ∈ r.survivors, Xml.isUnbroken x.element.name = true := fun x hx => by
      obtain ⟨-, s, hs, he⟩ := hsurvivors x hx
      rw [he]
      exact (Selection.everywhere_of_mem_select hdocument (mem_of_mem_firstOfEachForm hs)).self
    simp only [hchanged, Bool.false_eq_true, if_false]
    refine reads_addRead (w := { w₁ with inventory := i }) ?_ hmoves.coherent hnames
    exact ⟨h₁.files, hmerger.trans h₁.merger,
      h₁.moves.trans (hmoves.subset fun _ h => absurd h List.not_mem_nil), hunbroken i helements⟩
  · exact ⟨h₁.files, hmerger.trans h₁.merger, h₁.moves.trans hmoves, hunbroken i helements⟩

theorem keptByReading_reads (files : FileTree) (i₀ : Inventory) :
    KeptByReading (Reads files i₀) where
  file := reads_addFile files i₀
  cleared h :=
    { files := h.files
      merger := h.merger
      moves := h.moves.trans (moves_clear h.moves.coherent)
      unbroken := fun _ he => absurd he List.not_mem_nil }
  settings h := { h with moves := h.moves.keep rfl rfl }

end

/-! ## Inventories of a session -/

/-- Whether events have led to what is loaded, and no name of a served element has white
space. -/
def IsRead (i : Inventory) : Prop :=
  i.Unbroken ∧ ∃ schema, Leads i.conventions.groupingElement (fun _ _ => True) (.empty schema) i.holdings

/-- A served element that is not a grouping element is found by just its own key. -/
theorem IsRead.getElement_iff {i : Inventory} (hi : i.IsRead) {e : Element} (he : e ∈ i.elements)
    (hn : e.name ≠ i.conventions.groupingElement) {name : String} {values : List (Option String)} :
    (∃ found, (i.getElement name values).1 = some found ∧ found.element = e) ↔
      i.schema.keyOf e = .of name (i.schema.fit name values) .main := by
  obtain ⟨-, schema, hl⟩ := hi
  have hlength := i.schema.length_fit name values
  constructor
  · rintro ⟨found, hf, rfl⟩
    exact (hl.recalls (coherent_empty schema) (recalls_empty schema)).keyOf_resolve
      (hl.coherent (coherent_empty schema)) hlength hf
  · intro hkey
    obtain ⟨x, hx, rfl⟩ := List.mem_map.1 he
    obtain rfl : x.element.name = name := congrArg ElementKey.element hkey
    obtain ⟨c, ha⟩ := hl.exists_agrees (p := (· ≠ i.conventions.groupingElement))
      (coherent_empty schema) (by simp) (Agrees.empty _ schema)
    have hp : decide (x.element.name ≠ i.conventions.groupingElement) = true := by simpa using hn
    have hserved : c.main.get? (i.schema.keyOf x.element) = some x :=
      (ha.get?_iff (s := .main)).2 ⟨hx, hp, rfl⟩
    rw [hkey] at hserved
    have hfound := (ha.findIn (s := .main) hp hlength).1.trans hserved
    exact ⟨x, congrArg Prod.fst (resolve_found hfound), rfl⟩

end Inventory

section
variable {s : Settings} {env : Environment} {root : Path} {name : String}
  {settings : InventorySettings} {r r' : Registry} {i : Inventory} {files files' : FileTree}

/-- Settings give an inventory without a merger, which has nothing loaded. -/
theorem Inventory.reads_ofSettings (h : Inventory.ofSettings s env root name = .ok i)
    (files : FileTree) : Reads files i ⟨i, files⟩ ∧ ∃ schema, i.holdings = .empty schema := by
  have hnew : i.merger = none ∧ ∃ schema, i.holdings = .empty schema := by
    simp only [Inventory.ofSettings, bind, Except.bind] at h
    split at h
    · cases h
    · split at h
      · cases h
      · next made hmake =>
        cases h
        unfold Inventory.make at hmake
        split at hmake
        · cases hmake
        · split at hmake
          · cases hmake
          · cases hmake
            exact ⟨rfl, _, rfl⟩
  obtain ⟨hmerger, schema, hblank⟩ := hnew
  refine ⟨⟨rfl, hmerger, .stay (hblank ▸ coherent_empty schema) rfl rfl, fun e he => ?_⟩, schema, hblank⟩
  rw [elements, hblank] at he
  exact absurd he List.not_mem_nil

theorem Inventory.Reads.isRead {i₀ : Inventory} {w : Workspace} {schema : KeySchema}
    (h : Reads files i₀ w) (hblank : i₀.holdings = .empty schema) : w.inventory.IsRead := by
  refine ⟨h.unbroken, schema, ?_⟩
  rw [h.moves.conventions, ← hblank]
  exact h.moves.leads

namespace Registry

/-- Whether all inventories of a registry have been read. -/
def AllRead (r : Registry) : Prop := ∀ key i, r.inventories.get? key = some i → i.IsRead

theorem AllRead.set {scope : Option String} {replaced : Option Inventory} (hr : r.AllRead)
    (hi : i.IsRead) (h : r.set name scope i = .ok (replaced, r')) : r'.AllRead := by
  have hbind : ∀ bound, bind scope i = .ok bound → bound.IsRead := fun bound hb => by
    unfold bind at hb
    split at hb
    · cases hb
      exact hi
    · split at hb
      · cases hb
        exact hi
      · cases hb
  unfold Registry.set at h
  split at h
  · cases h
  · cases hb : bind scope i with
    | error e => rw [hb] at h; cases h
    | ok bound =>
      rw [hb] at h
      cases h
      intro key j hj
      rw [Table.get?_put] at hj
      split at hj
      · exact Option.some.inj hj ▸ hbind bound hb
      · exact hr key j hj

/-- Loading an inventory leaves the files as they are. -/
theorem reads_addLoaded (s : Settings) (env : Environment) (root : Path) (name : String)
    (settings : InventorySettings) (hr : r.AllRead) (files : FileTree) :
    (addLoaded s env root name settings r files).2 = files ∧
      ∀ r', (addLoaded s env root name settings r files).1 = .ok r' → r'.AllRead := by
  unfold addLoaded
  cases hi : Inventory.ofSettings s env root name with
  | error e => exact ⟨rfl, fun _ h => by cases h⟩
  | ok i =>
    obtain ⟨hstart, schema, hblank⟩ := Inventory.reads_ofSettings hi files
    have hk := Inventory.keptByReading_reads files i
    have hload : (loadAs settings s.project.scope).Leaves (Inventory.Reads files i) := by
      refine hk.load.bind fun _ => ?_
      split
      · exact hk.loadUserFiles _ _
      · exact fun _ h => h
    have hreads := (hload ⟨i, files⟩ hstart).runOn
    simp only
    rcases hrun : (loadAs settings s.project.scope).runOn ⟨i, files⟩ with ⟨e | u, w⟩
    all_goals rw [hrun] at hreads
    · exact ⟨hreads.files, fun _ h => by cases h⟩
    · refine ⟨hreads.files, fun r' h => ?_⟩
      replace h : (r.set name s.project.scope w.inventory).map Prod.snd = .ok r' := h
      cases hset : r.set name s.project.scope w.inventory with
      | error e => rw [hset] at h; cases h
      | ok result =>
        rw [hset] at h
        cases h
        exact hr.set (hreads.isRead hblank) hset

theorem reads_addAllLoaded (s : Settings) (env : Environment) (root : Path) (hr : r.AllRead)
    (files : FileTree) (inventories : List (String × InventorySettings)) :
    (addAllLoaded s env root r files inventories).2 = files ∧
      ∀ r', (addAllLoaded s env root r files inventories).1 = .ok r' → r'.AllRead := by
  induction inventories generalizing r with
  | nil => exact ⟨rfl, fun _ h => by cases h; exact hr⟩
  | cons inventory rest ih =>
    obtain ⟨name, settings⟩ := inventory
    have hstep := reads_addLoaded s env root name settings hr files
    rw [addAllLoaded]
    rcases hadd : addLoaded s env root name settings r files with ⟨e | r₁, files₁⟩
    all_goals
      rw [hadd] at hstep
      obtain ⟨rfl, hall⟩ := hstep
    · exact ⟨rfl, fun _ h => by cases h⟩
    · exact ih (hall r₁ rfl)

end Registry

end

namespace CommandSession
variable {c : CommandSession} {files files' : FileTree} {r : Registry} {name : String} {i : Inventory}

theorem reads_registry (c : CommandSession) (files : FileTree) :
    (c.registry files).2 = files ∧ ∀ r, (c.registry files).1 = .ok r → r.AllRead := by
  have hempty : Registry.empty.AllRead := fun _ _ h => by cases h
  have hall := Registry.reads_addAllLoaded c.settings c.environment c.root hempty files
    c.settings.inventories.entries
  unfold registry
  split
  · simp only [Registry.ofSettings]
    refine ⟨hall.1, fun r h => hall.2 r ?_⟩
    cases hr : (Registry.addAllLoaded c.settings c.environment c.root .empty files
      c.settings.inventories.entries).1 with
    | error e => rw [hr] at h; cases h
    | ok r' => rw [hr] at h; cases h; rfl
  · exact ⟨rfl, fun _ h => by cases h⟩

/-- No command changes a file, whether it succeeds or not. -/
theorem run_files (c : CommandSession) (files : FileTree) (command : Command) :
    (c.run files command).2 = files := by
  have hfiles := (c.reads_registry files).1
  unfold run
  rcases hr : c.registry files with ⟨e | r, files'⟩
  all_goals
    rw [hr] at hfiles
    exact hfiles

/-! ## What a session finds -/

/-- A named inventory once all inventories are loaded. -/
def inventory? (c : CommandSession) (files : FileTree) (name : String) : Option Inventory :=
  (c.registry files).1.toOption.bind fun r => (c.inventoryIn r name).toOption

theorem inventory?_eq_some_iff : c.inventory? files name = some i ↔
    ∃ r, c.registry files = (.ok r, files) ∧ c.inventoryIn r name = .ok i := by
  have hfiles := (c.reads_registry files).1
  rw [inventory?]
  rcases hr : c.registry files with ⟨e | r, files'⟩
  · simp [Except.toOption]
  · rw [hr] at hfiles
    obtain rfl : files' = files := hfiles
    cases hi : c.inventoryIn r name <;> simp [Except.toOption, hi]

theorem isRead_of_inventory? (h : c.inventory? files name = some i) : i.IsRead := by
  obtain ⟨r, hr, hi⟩ := inventory?_eq_some_iff.1 h
  have hall := (c.reads_registry files).2 r (by rw [hr])
  unfold inventoryIn Registry.get at hi
  cases hg : r.get? name c.settings.project.scope with
  | none => rw [hg] at hi; cases hi
  | some j =>
    rw [hg] at hi
    cases hi
    exact hall _ _ hg

/-- The element that a session finds for the words of a key. -/
def found? (c : CommandSession) (files : FileTree) (inventory element : String)
    (words : List String) : Option Element :=
  (c.inventory? files inventory).bind fun i =>
    (i.getElement element (words.map keyValueOf)).1.map Handle.element

/-- What is found is printed, and the files stay. -/
theorem run_get {inventory element : String} {words : List String} {e : Element}
    (h : c.found? files inventory element words = some e) :
    c.run files (.get inventory element words) = (.ok e.report, files) := by
  obtain ⟨i, hi, hfound⟩ := Option.bind_eq_some_iff.1 h
  obtain ⟨found, hf, rfl⟩ := Option.map_eq_some_iff.1 hfound
  obtain ⟨r, hr, hi⟩ := inventory?_eq_some_iff.1 hi
  rw [run, hr]
  simp [answer, hi, hf, bind, Except.bind]

end CommandSession

end TemplateInventory
