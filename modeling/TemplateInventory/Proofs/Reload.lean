import TemplateInventory.Proofs.Saved
/-!
# Saving and loading again

An inventory that saved an element, and a new one that loads the files after it,
give the same answers (`reload_answers`). The new one finds the shipped files as
they were, because the only change is a file that was not there
(`Inventory.Saves.newFile`). From this it reads what was saved, which is added once
more.
-/

namespace TemplateInventory

open Holdings Inventory

/-- The inventory before its user files are looked for. -/
def Inventory.forUserFiles (i : Inventory) (expected : Int) (scope : Option String)
    (directory : Path) : Inventory :=
  { i with
    version := expected
    scope := scope.or i.scope
    sources := addSource i.sources directory .userOverrides }

namespace Work

/-- Loads every directory, and then the user files of the inventory's version. -/
def loadAll (scope : Option String) : Work Unit := do
  load
  let i ← inventory
  loadUserFiles i.version scope

section
variable {i i' : Inventory} {t t' : FileTree} {d p : Path} {scope : Option String} {w : Workspace}
  {expected : Int} {isUser : Bool}

theorem runOn_loadUserFiles (hd : i.userDirectory = some d) (t : FileTree) (expected : Int)
    (scope : Option String) : (loadUserFiles expected scope).runOn ⟨i, t⟩ =
      (addDirectory .userOverrides expected d).runOn ⟨i.forUserFiles expected scope d, t⟩ := by
  unfold loadUserFiles
  simp only [runOn_bind, runOn_modifyInventory]
  cases scope with
  | none =>
    simp only [setScope, runOn_pure, runOn_ask, requireUserDirectory, forUserFiles, hd]
    rfl
  | some scope =>
    simp only [setScope, runOn_modifyInventory, runOn_ask, requireUserDirectory, forUserFiles, hd]
    rfl

theorem runOn_addDirectory {kind : SourceKind} {found : List FileStamp}
    (hf : i.filesOf t kind d = .ok found) : (addDirectory kind expected d).runOn ⟨i, t⟩ =
      (addFiles expected (kind == .userOverrides) (found.map FileStamp.path)).runOn ⟨i, t⟩ := by
  unfold addDirectory
  simp only [runOn_bind, runOn_ask, hf]

/-- A file that could be read has a time, and was stamped. -/
theorem readFile_ok {document : Element} (h : (readFile p).runOn ⟨i, t⟩ = (.ok document, w)) :
    ∃ time, t.modified p = .ok time ∧ t.readDocument p = .ok document ∧
      w = ⟨{ i with stamps := i.stamps ++ [⟨p, time⟩] }, t⟩ := by
  unfold readFile at h
  simp only [runOn_bind, runOn_ask, runOn_modifyInventory] at h
  cases ht : t.modified p with
  | error e =>
    rw [ht] at h
    cases h
  | ok time =>
    rw [ht] at h
    change (t.readDocument p, _) = _ at h
    rw [Prod.mk.injEq] at h
    exact ⟨time, rfl, h.1, h.2.symm⟩

/-- The elements of a file that could be added were reconciled, and then added. -/
theorem addFile_ok (h : (addFile expected isUser p).runOn ⟨i, t⟩ = (.ok (), w)) :
    ∃ time document r i', t.modified p = .ok time ∧ t.readDocument p = .ok document ∧
      reconcile { i with stamps := i.stamps ++ [⟨p, time⟩] } (i.selection.select document) expected
        isUser = (.ok r, i') ∧
      (r.changed = false → (i'.addRead r.survivors).1 = .ok () ∧
        w = ⟨(i'.addRead r.survivors).2, t⟩) := by
  unfold addFile at h
  rw [runOn_bind] at h
  rcases hread : (readFile p).runOn ⟨i, t⟩ with ⟨_ | document, w₁⟩
  · rw [hread] at h
    cases h
  · obtain ⟨time, htime, hdocument, rfl⟩ := readFile_ok hread
    rw [hread] at h
    simp only [runOn_bind, runOn_onInventory] at h
    rcases hr : reconcile { i with stamps := i.stamps ++ [⟨p, time⟩] } (i.selection.select document)
      expected isUser with ⟨_ | r, i'⟩
    · rw [hr] at h
      cases h
    · refine ⟨time, document, r, i', htime, hdocument, hr, fun hchanged => ?_⟩
      rw [hr] at h
      simp only [hchanged, Bool.false_eq_true, if_false, runOn_onInventory] at h
      rw [Prod.mk.injEq] at h
      exact ⟨h.1, h.2.symm⟩

/-- A file from which nothing has to be brought up to date. -/
theorem runOn_addFile {time : Stamp} {document : Element} {survivors : List Handle}
    (ht : t.modified p = .ok time) (hd : t.readDocument p = .ok document)
    (hr : reconcile { i with stamps := i.stamps ++ [⟨p, time⟩] } (i.selection.select document)
      expected isUser = (.ok ⟨survivors, false⟩, i')) :
    (addFile expected isUser p).runOn ⟨i, t⟩ =
      ((i'.addRead survivors).1, ⟨(i'.addRead survivors).2, t⟩) := by
  have htime : (t.modified p).mapError InventoryError.file = .ok time := by
    rw [ht]
    rfl
  have hread : (readFile p).runOn ⟨i, t⟩ =
      (.ok document, ⟨{ i with stamps := i.stamps ++ [⟨p, time⟩] }, t⟩) := by
    unfold readFile
    simp only [runOn_bind, runOn_modifyInventory, runOn_ask, htime, hd]
  unfold addFile
  simp only [runOn_bind, hread, runOn_onInventory, hr, Bool.false_eq_true, if_false]

end

end Work

/-! ## The file of a saved element -/

theorem Element.isPrintable_setAttr {e : Element} {name : String} (he : e.isPrintable = true)
    (hn : Xml.isName name = true) (value : String) : (e.setAttr name value).isPrintable = true := by
  obtain ⟨n, attributes, children, text⟩ := e
  simp only [isPrintable, Bool.and_eq_true, List.all_eq_true] at he
  simp only [setAttr, isPrintable, Bool.and_eq_true, List.all_eq_true]
  refine ⟨⟨⟨he.1.1.1, fun k hk => ?_⟩, he.1.2⟩, he.2⟩
  rw [Table.keys_put] at hk
  split at hk
  · exact he.1.1.2 k hk
  · rcases List.mem_append.1 hk with hk | hk
    · exact he.1.1.2 k hk
    · exact List.mem_singleton.1 hk ▸ hn

theorem Inventory.isPrintable_stampVersion {i : Inventory} {e : Element} (he : e.isPrintable = true) :
    (i.stampVersion e).isPrintable = true := by
  unfold stampVersion
  split
  · exact Element.isPrintable_setAttr he (by decide) _
  · exact he

theorem arePrintable_savedTogether {e : Element} {grouping : Option Element}
    (he : e.isPrintable = true) (hg : ∀ g ∈ grouping, g.isPrintable = true) :
    Element.arePrintable (savedTogether e grouping) = true := by
  cases grouping with
  | none => simp [savedTogether, Element.arePrintable, he]
  | some g => simp [savedTogether, Element.arePrintable, he, hg]

/-- A document is read where it was written, as it comes back. -/
theorem FileTree.readTidy_of_lookup {t : FileTree} {p : Path} {place : List String}
    {document : Element} {time : Stamp} (hd : document.Everywhere Xml.Named)
    (hl : t.lookup p = .ok (place, .file (Xml.printDocument document ++ "\n").toUTF8 time)) :
    t.modified p = .ok time ∧ t.readDocument p = .ok document.tidy := by
  have hblank : ∀ c ∈ "\n".toList, Text.isMarkupBlank c = true :=
    List.all_eq_true.1 (by decide)
  refine ⟨by rw [modified, hl], ?_⟩
  rw [readDocument, read, hl]
  simp only [Text.Utf8.decode_toUTF8, Xml.parse_printDocument_append hd hblank]

/-- A document that can be printed is read as it was written. -/
theorem FileTree.readDocument_of_lookup {t : FileTree} {p : Path} {place : List String}
    {document : Element} {time : Stamp} (hd : document.isPrintable = true)
    (hl : t.lookup p = .ok (place, .file (Xml.printDocument document ++ "\n").toUTF8 time)) :
    t.modified p = .ok time ∧ t.readDocument p = .ok document := by
  obtain ⟨hnamed, htexts⟩ := Element.isPrintable_iff.1 hd
  have hread := FileTree.readTidy_of_lookup hnamed hl
  rwa [Element.tidy_eq_self_iff.2 htexts] at hread

/-- Where there was no file, an element is saved with its grouping element alone. -/
theorem Inventory.savedDocument_skeleton (i : Inventory) (e : Element) (grouping : Option Element) :
    i.savedDocument e grouping i.selection.skeleton =
      .ok (i.selection.enclosing (savedTogether e grouping)) := by
  have hchildren : i.savedChildren e grouping [] = savedTogether e grouping := by
    cases grouping <;> rfl
  unfold savedDocument
  simp only [Selection.mapInnermost_skeleton, hchildren]

/-- A save that brings a file to an empty directory makes that file alone. -/
theorem Inventory.Saves.newFile {i : Inventory} {before files : FileTree} {e document : Element}
    {p d : Path} (hs : i.Saves before e p document files) (hd : i.userDirectory = some d)
    (hempty : (before.makeDirectories d).2.filesIn d = []) (hfound : files.filesIn d ≠ []) :
    ∃ name grouping place time, i.fileFor e = .ok (name, grouping) ∧
      document = i.selection.enclosing (savedTogether e grouping) ∧
      (before.makeDirectories d).2.entryAt place = none ∧
      files = (before.makeDirectories d).2.withFile place
        (Xml.printDocument document ++ "\n").toUTF8 time ∧
      files.locate p = .ok place ∧ files.lookup d = .ok (place.dropLast, .directory) := by
  obtain ⟨name, grouping, directory, old, made, hfile, hdirectory, rfl, hmade, hold, hsaved, hwrite⟩ := hs
  cases hd.symm.trans hdirectory
  rw [hmade] at hempty
  obtain ⟨place, hwritable, hnew, rfl, hlookup⟩ :=
    FileTree.eq_withFile_of_write hwrite hempty hfound
  have hlocate := (FileTree.locate_of_writable hwritable).1
  -- There was nothing, so the wrappers were made for this.
  rw [documentAt, FileTree.holds_eq_false hlocate hnew] at hold
  cases hold
  rw [savedDocument_skeleton] at hsaved
  cases hsaved
  rw [hmade]
  exact ⟨name, grouping, place, _, hfile, rfl, hnew, rfl,
    (FileTree.extends_withFile hnew).keepsDirectories.locate hlocate, hlookup⟩

/-! ## Runs -/

section
variable {i : Inventory} {files : FileTree} {d p : Path} {scope : Option String}
  {source : Handle} {w w' : Workspace}

theorem Inventory.found_of_filesIn {kind : SourceKind} {found : List FileStamp}
    (h : files.filesIn d = []) (hf : i.filesOf files kind d = .ok found) : found = [] := by
  unfold filesOf FilePattern.scan at hf
  rw [h] at hf
  cases hp : i.patternFor kind with
  | error e => rw [hp] at hf; cases hf
  | ok pattern =>
    rw [hp] at hf
    cases hf
    simp

/-- Without user files everything is loaded by the load. -/
theorem Work.loadAll_without_user_files (hd : i.userDirectory = some d) (hm : i.merger = none)
    (hc : Coherent [] i.holdings) (hempty : files.filesIn d = [])
    (h : (loadAll scope).runOn ⟨i, files⟩ = (.ok (), w)) :
    ∃ i₁, load.runOn ⟨i, files⟩ = (.ok (), ⟨i₁, files⟩) ∧ Loads [] i.clear i₁ ∧
      w = ⟨i₁.forUserFiles i₁.version scope d, files⟩ := by
  unfold loadAll at h
  rw [runOn_bind] at h
  rcases hload : load.runOn ⟨i, files⟩ with ⟨_ | u, i₁, files₁⟩
  · rw [hload] at h
    cases h
  · rw [hload] at h
    obtain ⟨hfiles, hl, -⟩ := carries_load (FileTree.Makes.refl files).extends (fun _ _ => rfl) hc hm
      _ _ hload
    obtain rfl : files₁ = files := hfiles
    refine ⟨i₁, rfl, hl, ?_⟩
    have hd₁ : i₁.userDirectory = some d := (congrArg Inventory.userDirectory hl.settings).trans hd
    simp only [runOn_bind, runOn_inventory, runOn_loadUserFiles hd₁] at h
    unfold addDirectory at h
    rw [runOn_bind, runOn_ask] at h
    cases hf : (i₁.forUserFiles i₁.version scope d).filesOf files₁ .userOverrides d with
    | error e => rw [hf] at h; cases h
    | ok found =>
      rw [hf, found_of_filesIn hempty hf] at h
      cases h
      rfl

/-- A save that succeeds wrote its document and added the element. -/
theorem Work.persist_ok (h : (persist source).runOn w = (.ok p, w')) :
    let e := w.inventory.stampVersion source.element
    (∃ document, w.inventory.Saves w.files e p document w'.files) ∧
      (w.inventory.mint e).2.add (source.revise w.inventory.holdings.nextSerial e) =
        (.ok (), w'.inventory) := by
  revert h
  refine persist_cases (motive := fun r => r = (.ok p, w') → _) ?unsaved ?saved
  case unsaved =>
    intro err files' _ h
    cases h
  case saved =>
    intro p' document files' hsaves
    simp only
    rcases (w.inventory.mint _).2.add _ with ⟨_ | u, i'⟩
    · intro h
      cases h
    · intro h
      cases h
      exact ⟨⟨document, hsaves⟩, rfl⟩

/-- The grouping element that an element is saved with is that of its identity. -/
theorem Inventory.grouping_of_fileFor {e : Element} {name : String} {grouping : Option Element}
    (h : i.fileFor e = .ok (name, grouping)) :
    ∃ identity, i.schema.identityOf e = some identity ∧ grouping = i.groupingOf identity := by
  unfold fileFor at h
  unfold KeySchema.identityOf
  cases hattr : i.schema.identityAttr e.name with
  | none => rw [hattr] at h; cases h
  | some attr =>
    rw [hattr] at h
    simp only [Element.requiredAttr] at h
    cases hv : e.attr attr with
    | none => rw [hv] at h; cases h
    | some identity =>
      rw [hv] at h
      simp only at h
      refine ⟨identity, hv, ?_⟩
      cases hstem : i.fileStem identity (i.groupingOf identity) with
      | error err => rw [hstem] at h; cases h
      | ok stem => rw [hstem] at h; cases h; rfl

end

/-! ## The same answers -/

/-- Whether the directory `d` has no files once it is made, no source of the
inventory is that directory, and making it shows no source other files. -/
structure Workspace.SetsApart (w : Workspace) (d : Path) : Prop where
  empty : (w.files.makeDirectories d).2.filesIn d = []
  other : ∀ s ∈ w.inventory.sources.entries,
    (w.files.makeDirectories d).2.lookup s.2.path ≠ (w.files.makeDirectories d).2.lookup d
  same : ∀ s ∈ w.inventory.sources.entries,
    (w.files.makeDirectories d).2.filesIn s.2.path = w.files.filesIn s.2.path

/-- An empty directory that is there and no source is set apart. -/
theorem Workspace.setsApart_of_isDirectory {w : Workspace} {d : Path}
    (hd : w.files.isDirectory d = true) (hempty : w.files.filesIn d = [])
    (hother : ∀ s ∈ w.inventory.sources.entries, w.files.lookup s.2.path ≠ w.files.lookup d) :
    w.SetsApart d := by
  have hmade : (w.files.makeDirectories d).2 = w.files := by
    rw [FileTree.makeDirectories_of_isDirectory hd]
  exact ⟨by rwa [hmade], by rwa [hmade], fun s hs => by rw [hmade]⟩

theorem Workspace.SetsApart.filesIn_before {w : Workspace} {d : Path} (h : w.SetsApart d) :
    w.files.filesIn d = [] := by
  refine Classical.byContradiction fun hne => hne ?_
  obtain ⟨place, hl⟩ := FileTree.directory_of_filesIn hne
  have hd : w.files.isDirectory d = true := by rw [FileTree.isDirectory, hl]
  have hempty := h.empty
  rwa [FileTree.makeDirectories_of_isDirectory hd] at hempty

/-- Whether the user files found in a directory are the one under the path `p`. -/
def Workspace.FindsOnly (w : Workspace) (d p : Path) : Prop :=
  ∃ stamp found, w.inventory.filesOf w.files .userOverrides d = .ok [stamp] ∧
    w.files.lookup stamp.path = .ok found ∧ w.files.lookup p = .ok found

/-- Whether an inventory has nothing loaded and no merger, saves in the directory
`d`, and has wrappers and a version that can be written. -/
structure Inventory.SavesIn (i : Inventory) (d : Path) : Prop where
  new : i.unloaded = i
  merger : i.merger = none
  directory : i.userDirectory = some d
  wrappers : ∀ name ∈ i.selection.wrappers, Xml.isName name = true
  version : Text.least32 ≤ i.version ∧ i.version ≤ Text.greatest32

/-- Whether an element that is saved is taken for current when it is read. -/
structure Inventory.TakesBack (i : Inventory) (e : Element) : Prop where
  printable : e.isPrintable = true
  ordinary : e.name ≠ i.conventions.groupingElement
  version : e.version i.version = .ok i.version
  current : i.Undated e → ∀ identity ∈ i.schema.identityOf e, ∀ g ∈ i.groupingOf identity,
    g.version 0 = .ok 0

section
variable {i : Inventory} {files : FileTree} {d p : Path} {scope : Option String}
  {source : Handle} {w w' : Workspace}

theorem Inventory.SavesIn.holdings (h : i.SavesIn d) : i.clear.holdings = .empty i.schema := by
  have hempty : i.holdings = .empty i.schema := (congrArg Inventory.holdings h.new).symm
  change i.holdings.clear = _
  rw [hempty]
  rfl

/-- The grouping element that is saved with an element. -/
theorem Inventory.grouping_saved {g : Element} {identity : String} (hr : i.Readable)
    (hgroupings : ∀ g ∈ i.groupings, g.element.isPrintable = true)
    (h : i.groupingOf identity = some g) :
    g.IsVersioned ∧ g.isPrintable = true ∧ g.name = i.conventions.groupingElement := by
  obtain ⟨-, -, hname, x, hx, rfl⟩ := foremost_of_groupingOf h
  refine ⟨hr x hx hname, hgroupings x (List.mem_filter.2 ⟨hx, ?_⟩), hname⟩
  rw [hname]
  exact beq_self_eq_true _

theorem Element.isName_of_isPrintable {e : Element} (h : e.isPrintable = true) :
    Xml.isName e.name = true := by
  obtain ⟨name, attributes, children, text⟩ := e
  simp only [isPrintable, Bool.and_eq_true] at h
  exact h.1.1.1

/-- A saved element that is found among the user files is added with the answers
that it had when it was saved. -/
theorem Work.addDirectory_saved {t : FileTree} {stamp : FileStamp} {time : Stamp} {name : String}
    {grouping : Option Element} {i' : Inventory} {c : Catalog} (hm : i.merger = none)
    (hbounds : Text.least32 ≤ i.version ∧ i.version ≤ Text.greatest32)
    (hc : Coherent [] i.holdings) (ha : Agrees (· ≠ i.conventions.groupingElement) i.holdings c)
    (hr : i.Readable) (htakes : i.TakesBack source.element)
    (hgroupings : ∀ g ∈ i.groupings, g.element.isPrintable = true)
    (hfile : i.fileFor (i.stampVersion source.element) = .ok (name, grouping))
    (hadd : (i.mint (i.stampVersion source.element)).2.add
      (source.revise i.holdings.nextSerial (i.stampVersion source.element)) = (.ok (), i'))
    (hstamp : i.filesOf t .userOverrides d = .ok [stamp])
    (htime : t.modified stamp.path = .ok time)
    (hdocument : t.readDocument stamp.path = .ok (i.selection.enclosing
      (savedTogether (i.stampVersion source.element) grouping))) :
    ∃ i'', (addDirectory .userOverrides i.version d).runOn ⟨i, t⟩ = (.ok (), ⟨i'', t⟩) ∧
      i'.holdings.SameAnswers i''.holdings := by
  obtain ⟨identity, hidentity, hgrouping⟩ := grouping_of_fileFor hfile
  have hsaved : ∀ g ∈ grouping, g.IsVersioned ∧ g.isPrintable = true ∧
      g.name = i.conventions.groupingElement := fun g hg =>
    grouping_saved hr hgroupings (hgrouping.symm.trans hg)
  let read : Inventory := { i with stamps := i.stamps ++ [⟨stamp.path, time⟩] }
  -- The version is that of the inventory, so only the grouping element may be dropped.
  obtain ⟨rest, n, hreconcile, hrest⟩ := reconcile_saved (i := read) source.element grouping
    hm hbounds htakes.version
    (Element.isName_of_isPrintable htakes.printable)
    (fun g hg => ⟨(hsaved g hg).1, Element.isName_of_isPrintable (hsaved g hg).2.1,
      (hsaved g hg).2.2 ▸ htakes.ordinary.symm⟩)
    (fun hu g hg => by
      have hsame : i.stampVersion source.element = source.element := if_neg fun h => h.1 hu.1
      exact htakes.current hu identity (hsame ▸ hidentity) g (hgrouping.symm.trans hg))
  rw [← Selection.select_enclosing read.selection] at hreconcile
  have hfirst := moves_revise hc source (i.stampVersion source.element)
  have hsecond := moves_reconcile (i := read) hc (read.selection.select (read.selection.enclosing
    (savedTogether (read.stampVersion source.element) grouping))) read.version true
  rw [hreconcile] at hsecond
  have hok : ((i.mint (i.stampVersion source.element)).2.holdings.add
      (source.revise i.holdings.nextSerial (i.stampVersion source.element))).1 = .ok () :=
    congrArg Prod.fst hadd
  let judged : Inventory := { read with holdings := { read.holdings with nextSerial := n } }
  have hcoherent : Coherent (.fresh i.holdings.nextSerial (i.stampVersion source.element) :: rest)
      judged.holdings := hsecond.coherent
  obtain ⟨hres, hans⟩ := addRead_saved (i := i) (j := judged) ha rfl rfl rfl hfirst.coherent
    hcoherent rfl (i.name_stampVersion source.element ▸ htakes.ordinary)
    (fun g hg => ⟨identity, hgrouping.symm.trans hg⟩) hrest hok
  obtain rfl : i' = { i with holdings := ((i.mint (i.stampVersion source.element)).2.holdings.add
      (source.revise i.holdings.nextSerial (i.stampVersion source.element))).2 } :=
    (congrArg Prod.snd hadd).symm
  have hrun : (addFile i.version (SourceKind.userOverrides == .userOverrides) stamp.path).runOn
      ⟨i, t⟩ = (.ok (), ⟨(judged.addRead (.fresh i.holdings.nextSerial
        (i.stampVersion source.element) :: rest)).2, t⟩) :=
    (runOn_addFile htime hdocument hreconcile).trans (Prod.ext hres rfl)
  refine ⟨_, ?_, hans⟩
  simp only [runOn_addDirectory hstamp, List.map_cons, List.map_nil, addFiles, runOn_bind, hrun]
  rfl

/-- The files after a save, for an inventory whose directories are others. -/
theorem Workspace.SetsApart.keeps {files' : FileTree} {place : List String} {bytes : ByteArray}
    {time : Stamp} (hapart : Workspace.SetsApart ⟨i, files⟩ d)
    (hnew : (files.makeDirectories d).2.entryAt place = none)
    (hfiles : files' = (files.makeDirectories d).2.withFile place bytes time)
    (hl : files'.lookup d = .ok (place.dropLast, .directory)) :
    files.Extends files' ∧
      ∀ s ∈ i.sources.entries, files'.filesIn s.2.path = files.filesIn s.2.path := by
  subst hfiles
  refine ⟨(files.makes_makeDirectories d).extends.trans (FileTree.extends_withFile hnew),
    fun s hs => (FileTree.filesIn_withFile_other hnew fun hl' => ?_).trans (hapart.same s hs)⟩
  have hback : ((files.makeDirectories d).2.withFile place bytes time).KeepsDirectories
      (files.makeDirectories d).2 :=
    FileTree.withFile_keepsDirectories (FileTree.ne_nil_of_entryAt hnew)
  exact hapart.other s hs ((hback.lookup hl').trans (hback.lookup hl).symm)

/-- Let an inventory without a merger load its files, while its user directory is
empty, and then save an element as a file that is found there. A new inventory
that loads the files after this gives the same answers. -/
theorem reload_answers (hi : i.SavesIn d) (hapart : Workspace.SetsApart ⟨i, files⟩ d)
    (hload : (Work.loadAll scope).runOn ⟨i, files⟩ = (.ok (), w))
    (htakes : w.inventory.TakesBack source.element)
    (hgroupings : ∀ g ∈ w.inventory.groupings, g.element.isPrintable = true)
    (hsave : (Work.persist source).runOn w = (.ok p, w')) (hfound : w'.FindsOnly d p) :
    ∃ w'', (Work.loadAll scope).runOn ⟨i, w'.files⟩ = (.ok (), w'') ∧
      w'.inventory.holdings.SameAnswers w''.inventory.holdings := by
  have hc : Coherent [] i.holdings := by
    rw [← hi.new]
    exact coherent_empty _
  obtain ⟨i₁, hrun₁, hl, rfl⟩ := Work.loadAll_without_user_files hi.directory hi.merger hc
    hapart.filesIn_before hload
  have hsettings : i₁.unloaded = i.unloaded := hl.settings
  have hversion : i₁.version = i.version := eq_of_unloaded _ (fun _ => rfl) hsettings
  have hselection : i₁.selection = i.selection := eq_of_unloaded _ (fun _ => rfl) hsettings
  have hdirectory : i₁.userDirectory = some d :=
    (eq_of_unloaded Inventory.userDirectory (fun _ => rfl) hsettings).trans hi.directory
  obtain ⟨⟨document, hsaves⟩, hadd⟩ := Work.persist_ok hsave
  obtain ⟨stamp, found, hstamp, hlookup, hlookup'⟩ := hfound
  rcases w' with ⟨i', files'⟩
  obtain rfl : i' = _ := (congrArg Prod.snd hadd).symm
  have hfound : files'.filesIn d ≠ [] := fun h => nomatch found_of_filesIn h hstamp
  obtain ⟨name, grouping, place, time, hfile, rfl, hnew, hfiles, hlocate, hinside⟩ :=
    hsaves.newFile hdirectory hapart.empty hfound
  obtain ⟨hextends, hsources⟩ := hapart.keeps hnew hfiles hinside
  obtain ⟨-, -, hagain⟩ := Work.carries_load hextends hsources hc hi.merger _ _ hrun₁
  have hreadable : i₁.Readable := hl.readable fun x hx => by
    rw [hi.holdings] at hx
    cases hx
  have hleads := hl.moves.leads
  rw [hi.holdings] at hleads
  obtain ⟨c, ha⟩ := hleads.exists_agrees (p := (· ≠ i.clear.conventions.groupingElement))
    (coherent_empty i.schema) (by simp) (Agrees.empty _ i.schema)
  rw [show i.clear.conventions = i₁.conventions from hl.moves.conventions.symm] at ha
  have hprintable : ((i₁.forUserFiles i₁.version scope d).selection.enclosing
      (savedTogether ((i₁.forUserFiles i₁.version scope d).stampVersion source.element)
        grouping)).isPrintable = true := by
    obtain ⟨identity, -, hgrouping⟩ := grouping_of_fileFor hfile
    refine Selection.isPrintable_enclosing (hselection ▸ hi.wrappers) (arePrintable_savedTogether
      (isPrintable_stampVersion htakes.printable) fun g hg =>
        (grouping_saved hreadable hgroupings (hgrouping.symm.trans hg)).2.1)
  obtain rfl := FileTree.found_withFile hnew (hfiles ▸ hlocate) (hfiles ▸ hlookup')
  obtain ⟨htime, hread⟩ := FileTree.readDocument_of_lookup hprintable hlookup
  obtain ⟨i₃, hrun₂, hans⟩ := Work.addDirectory_saved (i := i₁.forUserFiles i₁.version scope d)
    (merger_of_unloaded hsettings |>.trans hi.merger) (hversion ▸ hi.version) hl.moves.coherent ha
    hreadable htakes hgroupings hfile hadd hstamp htime hread
  refine ⟨⟨i₃, files'⟩, ?_, hans⟩
  unfold Work.loadAll
  simp only [Work.runOn_bind, hagain, Work.runOn_inventory, Work.runOn_loadUserFiles hdirectory]
  exact hrun₂

end

/-! ## Elements that come back, and others -/

/-- A workspace with one shipped file and an empty directory for user files. -/
def Workspace.ofShipped (outer text : String) : Workspace where
  inventory :=
    { (Workspace.ofUser .parts).inventory with
      selection := ⟨outer, []⟩
      sources := addSource .empty ⟨"shipped"⟩ .shipped }
  files :=
    { entries := .ofList [(["shipped"], .directory),
        (["shipped", "a"], .file text.toUTF8 (.given 0)), (["user"], .directory)]
      workDir := []
      writes := 0 }

theorem setsApart_ofShipped (outer text : String) :
    (Workspace.ofShipped outer text).SetsApart ⟨"user"⟩ := by
  have hshipped : (Workspace.ofShipped outer text).files.lookup ⟨"shipped"⟩ =
      .ok (["shipped"], .directory) := by rfl
  have huser : (Workspace.ofShipped outer text).files.lookup ⟨"user"⟩ =
      .ok (["user"], .directory) := by rfl
  refine Workspace.setsApart_of_isDirectory (by rw [FileTree.isDirectory, huser]) ?_ fun s hs he => ?_
  · rw [FileTree.filesIn_of_directory huser]
    rfl
  · obtain rfl : s = _ := List.mem_singleton.1 hs
    rw [huser] at he
    exact absurd (congrArg Prod.fst (Except.ok.inj (hshipped.symm.trans he))) (by decide)

theorem ok_of_toOption {ε α : Type} {r : Except ε α} {a : α} (h : r.toOption = some a) : r = .ok a := by
  cases r with
  | error e => cases h
  | ok a' => exact congrArg Except.ok (Option.some.inj h)

/-- The workspace after everything was loaded and an element saved. -/
def Workspace.saving (w : Workspace) (source : Handle) : Workspace :=
  ((Work.persist source).runOn ((Work.loadAll none).runOn w).2).2

/-- A load and a save that succeed, after which the file is found under the path that
it was saved under. -/
theorem Workspace.runs_saving {w : Workspace} {d p : Path} {s : Handle} (time : Stamp)
    (h : ((Work.loadAll none).runOn w).1.toOption = some () ∧
      ((Work.persist s).runOn ((Work.loadAll none).runOn w).2).1.toOption = some p ∧
      ((w.saving s).inventory.filesOf (w.saving s).files .userOverrides d).toOption =
        some [⟨p, time⟩] ∧ (w.saving s).files.holds p = true) :
    (Work.loadAll none).runOn w = (.ok (), ((Work.loadAll none).runOn w).2) ∧
      (Work.persist s).runOn ((Work.loadAll none).runOn w).2 = (.ok p, w.saving s) ∧
      (w.saving s).FindsOnly d p := by
  obtain ⟨hload, hsave, hfound, hholds⟩ := h
  refine ⟨Prod.ext (ok_of_toOption hload) rfl, Prod.ext (ok_of_toOption hsave) rfl, ?_⟩
  cases hl : (w.saving s).files.lookup p with
  | error e => rw [FileTree.holds, hl] at hholds; cases hholds
  | ok found => exact ⟨⟨p, time⟩, found, ok_of_toOption hfound, hl, hl⟩

/-- A shipped grouping element, and a part that is a view of it. -/
def Workspace.ofView : Workspace :=
  .ofShipped "Inventory" "<Inventory><layoutType label=\"V\" layout=\"a#t\"/></Inventory>"

def viewPart : Handle := .fresh 9 (.part [("id", "a#t")])

theorem reload_answers_viewPart :
    ∃ w, (Work.loadAll none).runOn ⟨Workspace.ofView.inventory,
        (Workspace.ofView.saving viewPart).files⟩ = (.ok (), w) ∧
      (Workspace.ofView.saving viewPart).inventory.holdings.SameAnswers w.inventory.holdings := by
  have hi : Workspace.ofView.inventory.SavesIn ⟨"user"⟩ :=
    ⟨rfl, rfl, rfl, by decide +kernel, by decide +kernel⟩
  obtain ⟨hload, hsave, hfound⟩ := Workspace.runs_saving (w := .ofView) (d := ⟨"user"⟩)
    (p := ⟨"user/default$$V_"⟩) (s := viewPart) (.written 0) (by decide +kernel)
  refine reload_answers hi (setsApart_ofShipped _ _) hload
    ⟨by decide +kernel, by decide +kernel, rfl, fun _ identity hidentity g hg => ?_⟩
    (List.all_eq_true.1 (by decide +kernel)) hsave hfound
  have hview : ((Work.loadAll none).runOn Workspace.ofView).2.inventory.groupingOf "a#t" =
      some ⟨"layoutType", .ofList [("label", "V"), ("layout", "a#t")], [], none⟩ := by decide +kernel
  have hown : ((Work.loadAll none).runOn Workspace.ofView).2.inventory.schema.identityOf
      viewPart.element = some "a#t" := by decide +kernel
  obtain rfl := Option.some.inj (hown.symm.trans hidentity)
  obtain rfl := Option.some.inj (hview.symm.trans hg)
  rfl

/-- Whether an element that is saved as a user file is read with the answers that it
had. -/
def Workspace.Reloads (w : Workspace) (d : Path) (source : Handle) : Prop :=
  ∀ p w₁ w₂, (Work.loadAll none).runOn w = (.ok (), w₁) →
    (Work.persist source).runOn w₁ = (.ok p, w₂) → w₂.FindsOnly d p →
    ∃ w₃, (Work.loadAll none).runOn ⟨w.inventory, w₂.files⟩ = (.ok (), w₃) ∧
      w₂.inventory.holdings.SameAnswers w₃.inventory.holdings

/-- Whether names, texts and versions of an element and of the grouping elements can
be written; wrapper names and versions of grouping elements are left out. -/
structure Workspace.Writes (w : Workspace) (d : Path) (source : Handle) : Prop where
  new : w.inventory.unloaded = w.inventory
  merger : w.inventory.merger = none
  directory : w.inventory.userDirectory = some d
  apart : w.SetsApart d
  printable : source.element.isPrintable = true
  ordinary : source.element.name ≠ w.inventory.conventions.groupingElement
  version : source.element.version w.inventory.version = .ok w.inventory.version
  groupings : ∀ g ∈ ((Work.loadAll none).runOn w).2.inventory.groupings, g.element.isPrintable = true

/-- A wrapper whose name has a space. -/
def Workspace.ofSpaced : Workspace := .ofShipped "a b" "<Inventory/>"

/-- A grouping element of another version, which stays because it has a base. -/
def Workspace.ofOldView : Workspace :=
  .ofShipped "Inventory"
    "<Inventory><layoutType label=\"V\" layout=\"a#t\" base=\"a\" version=\"5\"/></Inventory>"

/-- A document is not read if a wrapper has a space in its name. And the version of the
grouping element counts for a part without one. -/
theorem saved_part_lost :
    (Workspace.ofSpaced.Writes ⟨"user"⟩ viewPart ∧ ¬ Workspace.ofSpaced.Reloads ⟨"user"⟩ viewPart) ∧
      Workspace.ofOldView.Writes ⟨"user"⟩ viewPart ∧
      ¬ Workspace.ofOldView.Reloads ⟨"user"⟩ viewPart := by
  refine ⟨⟨⟨rfl, rfl, rfl, setsApart_ofShipped _ _, by decide +kernel, by decide +kernel, rfl,
      List.all_eq_true.1 (by decide +kernel)⟩, fun hall => ?_⟩,
    ⟨rfl, rfl, rfl, setsApart_ofShipped _ _, by decide +kernel, by decide +kernel, rfl,
      List.all_eq_true.1 (by decide +kernel)⟩, fun hall => ?_⟩
  · obtain ⟨hload, hsave, hfound⟩ := Workspace.runs_saving (w := .ofSpaced) (d := ⟨"user"⟩)
      (p := ⟨"user/default$$a#t"⟩) (s := viewPart) (.written 0) (by decide +kernel)
    obtain ⟨w₃, hrun, -⟩ := hall _ _ _ hload hsave hfound
    have hfails : ((Work.loadAll none).runOn ⟨Workspace.ofSpaced.inventory,
        (Workspace.ofSpaced.saving viewPart).files⟩).1.toBool = false := by decide +kernel
    rw [hrun] at hfails
    cases hfails
  · obtain ⟨hload, hsave, hfound⟩ := Workspace.runs_saving (w := .ofOldView) (d := ⟨"user"⟩)
      (p := ⟨"user/default$$V_"⟩) (s := viewPart) (.written 0) (by decide +kernel)
    obtain ⟨w₃, hrun, hans⟩ := hall _ _ _ hload hsave hfound
    obtain rfl : w₃ = _ := (congrArg Prod.snd hrun).symm
    have hget := (hans "part" [some "a#t"]).1
    revert hget
    decide +kernel

end TemplateInventory
