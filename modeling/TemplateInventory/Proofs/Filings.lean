import TemplateInventory.Proofs.Deleting
import TemplateInventory.Proofs.Latest
/-!
# User files that hold what is current

Elements are saved one after the other to a directory that was empty. Then it has a file
for each name that an element was saved under, and nothing else. Each file can be read,
and its wrapper holds the latest of each class that was saved there
(`filed_documents_hold_latest`).

A save starts from what the file has, so what carries this through a run of saves says
all that is in the directory (`Workspace.Files`): for each name the bytes of one document,
which is printed from the filings under the name. These bytes are read back as they were
printed, if names and texts are such that they can be. A name cannot lead anywhere else,
because in the directory there are no directories that it could lead through.
-/

namespace TemplateInventory

open Inventory

/-! ## Files of given bytes -/

/-- Whether the directory under `d` is at `place` and has just the given files, each under
the name of an entry. -/
structure FileTree.Houses (t : FileTree) (d : Path) (place : List String)
    (bytesOf : String → Option ByteArray) : Prop where
  directory : t.lookup d = .ok (place, .directory)
  free : ∀ n, bytesOf n = none → t.entryAt (place ++ [n]) = none
  file : ∀ n bytes, bytesOf n = some bytes → IsComponent n ∧
    ∃ time, t.lookup (d.child n) = .ok (place ++ [n], .file bytes time)

/-- Whether the directory under `d` is empty, once it is made. -/
def FileTree.MakesEmpty (t : FileTree) (d : Path) : Prop :=
  ∃ place, (t.makeDirectories d).2.lookup d = .ok (place, .directory) ∧
    ∀ n, (t.makeDirectories d).2.entryAt (place ++ [n]) = none

namespace FileTree.Houses

section
variable {t t' : FileTree} {d : Path} {place : List String} {bytesOf : String → Option ByteArray}
  {name : String} {bytes : ByteArray}

theorem no_directory (h : t.Houses d place bytesOf) (n : String) :
    t.entryAt (place ++ [n]) ≠ some .directory := by
  cases hb : bytesOf n with
  | none => simp [h.free n hb]
  | some bytes =>
    obtain ⟨-, time, hl⟩ := h.file n bytes hb
    simp [(locate_of_lookup hl).2]

/-- One more file, or other bytes in one. -/
theorem write (h : t.Houses d place bytesOf) (hfirst : IsComponent (Path.firstPart name))
    (hw : t.write (d.child name) bytes = .ok t') : IsComponent name ∧
      t'.Houses d place fun n => if n = name then some bytes else bytesOf n := by
  obtain ⟨place', hwritable, -⟩ := exists_of_write hw
  have hn := isComponent_of_writable h.directory h.no_directory hfirst hwritable
  have hdirectory : t.isDirectory d = true := by rw [isDirectory, h.directory]
  obtain ⟨here, hhere, hkeeps, hentry, hlookup⟩ := write_child hdirectory hn hw
  cases hhere.symm.trans h.directory
  refine ⟨hn, hkeeps.lookup h.directory, fun n hb => ?_, fun n bytes' hb => ?_⟩
  all_goals by_cases hself : n = name
  · simp [hself] at hb
  · rw [if_neg hself] at hb
    rw [hentry, if_neg (by simpa using Ne.symm hself)]
    exact h.free n hb
  · rw [if_pos hself] at hb
    obtain rfl := Option.some.inj hb
    exact ⟨hself ▸ hn, _, hself ▸ hlookup⟩
  · rw [if_neg hself] at hb
    obtain ⟨hn', time, hl⟩ := h.file n bytes' hb
    refine ⟨hn', time, lookup_child_of_keeps hkeeps h.directory hn' hl ?_⟩
    rw [hentry, if_neg (by simpa using Ne.symm hself)]
    exact (locate_of_lookup hl).2

theorem mem_filesIn (h : t.Houses d place bytesOf) (n : String) :
    (∃ time, (n, time) ∈ t.filesIn d) ↔ (bytesOf n).isSome = true := by
  simp only [FileTree.mem_filesIn h.directory]
  cases hb : bytesOf n with
  | none => simp [h.free n hb]
  | some bytes =>
    obtain ⟨-, time, hl⟩ := h.file n bytes hb
    simp [(locate_of_lookup hl).2]

end

end FileTree.Houses

/-! ## Names of filings -/

/-- Whether a filing can be read back, under a name of one part: names and texts are such
that the elements can be printed, and neither the identity nor a label or class leads to
another directory. -/
structure Inventory.IsFit (i : Inventory) (Writable : Element → Prop) (f : Filing) : Prop where
  writable : Writable f.source
  ordinary : f.source.name ≠ i.conventions.groupingElement
  identity : ∀ identity ∈ i.schema.identityOf (i.filed f), IsComponent identity
  grouping : ∀ g ∈ f.grouping, Writable g ∧
    (∀ label ∈ g.attr i.conventions.labelAttr, '/' ∉ label.toList) ∧ '/' ∉ (i.viewClass g).toList

section
variable {front stem ending : String}

theorem isComponent_of_mem {c : Char} {s : String} (hc : c ∈ s.toList) (hne : c ≠ '.')
    (hs : '/' ∉ s.toList) : IsComponent s where
  nonempty := by
    rintro rfl
    cases hc
  notHere := by
    rintro rfl
    exact hne (by simpa using hc)
  notUp := by
    rintro rfl
    exact hne (by simpa using hc)
  noSlash := hs

/-- A text around the name of an entry is one, unless it has a slash. -/
theorem IsComponent.around (h : IsComponent stem) (hs : '/' ∉ (front ++ stem ++ ending).toList) :
    IsComponent (front ++ stem ++ ending) := by
  by_cases hdots : ∀ c ∈ stem.toList, c = '.'
  · have hstem := List.eq_replicate_of_mem hdots
    -- The names that are not allowed have two dots at most, and all of them are.
    have hlong : 2 < stem.toList.length := by
      by_contra hshort
      obtain hn | hn | hn : stem.toList.length = 0 ∨ stem.toList.length = 1 ∨
        stem.toList.length = 2 := by omega
      all_goals rw [hn] at hstem
      · exact h.nonempty (String.toList_inj.1 hstem)
      · exact h.notHere (String.toList_inj.1 hstem)
      · exact h.notUp (String.toList_inj.1 hstem)
    have hlength : 2 < (front ++ stem ++ ending).toList.length := by
      simp only [String.toList_append, List.length_append]
      omega
    refine ⟨?_, ?_, ?_, hs⟩
    all_goals
      intro he
      rw [he] at hlength
      simp at hlength
  · obtain ⟨c, hc, hne⟩ : ∃ c ∈ stem.toList, c ≠ '.' := by simpa using hdots
    exact isComponent_of_mem (by simp [hc]) hne hs

/-- Before its first slash such a text still has the name of the entry. -/
theorem isComponent_firstPart (hfront : '/' ∉ front.toList) (hstem : IsComponent stem) :
    IsComponent (Path.firstPart (front ++ stem ++ ending)) := by
  have hfirst : Path.firstPart (front ++ stem ++ ending) = front ++ stem ++ Path.firstPart ending := by
    have hbefore : ∀ c ∈ (front ++ stem).toList, (c != '/') = true := by
      intro c hc
      rw [bne_iff_ne]
      rintro rfl
      simp [hfront, hstem.noSlash] at hc
    rw [← String.toList_inj, Path.toList_firstPart, String.toList_append,
      List.takeWhile_append_of_pos hbefore, ← Path.toList_firstPart, ← String.toList_append]
  rw [hfirst]
  refine hstem.around ?_
  simp [hfront, hstem.noSlash, Path.noSlash_firstPart]

end

namespace Inventory

/-- Whether a filing is named as the settings of an inventory say. -/
def Names (i : Inventory) (f : Filing) : Prop :=
  ∃ identity stem, i.schema.identityOf (i.filed f) = some identity ∧
    i.fileStem identity f.grouping = .ok stem ∧ f.name = i.filePrefix ++ stem ++ i.patternEnding

section
variable {i : Inventory} {f : Filing} {filings : List Filing} {Writable : Element → Prop}
  {name : String}

/-- What a save files is named as the settings say, and what it saves along is a grouping
element. -/
theorem names_of_filed (hfile : i.fileFor (i.filed f) = .ok (f.name, f.grouping)) : i.Names f ∧
    ∀ g ∈ f.grouping, g.name = i.conventions.groupingElement := by
  obtain ⟨identity, stem, hidentity, hgrouping, hstem, hname⟩ := name_of_fileFor hfile
  refine ⟨⟨identity, stem, hidentity, hstem, hname⟩, fun g hg => ?_⟩
  exact (foremost_of_groupingOf (hgrouping.symm.trans hg)).2.2.1

theorem slash_not_mem_filePrefix (i : Inventory) : '/' ∉ i.filePrefix.toList := by
  unfold filePrefix
  split
  · decide
  · exact nofun

/-- The name of a filing starts with that of an entry. -/
theorem IsFit.firstPart (hf : i.IsFit Writable f) (hn : i.Names f) :
    IsComponent (Path.firstPart f.name) := by
  obtain ⟨identity, stem, hidentity, hstem, hname⟩ := hn
  rw [hname]
  refine isComponent_firstPart i.slash_not_mem_filePrefix ?_
  cases hg : f.grouping with
  | none =>
    rw [hg] at hstem
    cases hstem
    exact hf.identity _ hidentity
  | some g =>
    obtain ⟨-, hlabel, hclass⟩ := hf.grouping g hg
    rw [hg, fileStem, Element.requiredAttr] at hstem
    cases hattr : g.attr i.conventions.labelAttr with
    | none => rw [hattr] at hstem; cases hstem
    | some label =>
      rw [hattr] at hstem
      cases hstem
      refine isComponent_of_mem (c := '_') (by simp) (by decide) ?_
      have hcls := hclass
      unfold viewClass at hcls
      simp [hlabel label hattr, hcls]

/-! ## Documents of filings -/

/-- The document of the filings under a name. -/
def documentOf (i : Inventory) (filings : List Filing) (name : String) : Element :=
  i.selection.enclosing (i.contentOf (filings.filter fun f => f.name = name))

/-- The bytes that filings leave under a name, if there are some under it. -/
def bytesOf (i : Inventory) (filings : List Filing) (name : String) : Option ByteArray :=
  if ∃ f ∈ filings, f.name = name then
    some (Xml.printDocument (i.documentOf filings name) ++ "\n").toUTF8
  else none

/-- One more filing changes the document under its own name. -/
theorem documentOf_append (i : Inventory) (filings : List Filing) (f : Filing) (name : String) :
    i.documentOf (filings ++ [f]) name =
      if f.name = name then i.selection.enclosing
        (i.savedChildren (i.filed f) f.grouping (i.contentOf (filings.filter fun f => f.name = name)))
      else i.documentOf filings name := by
  rw [documentOf, List.filter_append]
  split
  · next h => rw [List.filter_cons_of_pos (by simpa using h), contentOf, List.foldl_append]; rfl
  · next h => rw [List.filter_cons_of_neg (by simpa using h), List.filter_nil, List.append_nil]; rfl

theorem savedDocument_documentOf (i : Inventory) (filings : List Filing) (f : Filing) :
    i.savedDocument (i.filed f) f.grouping (i.documentOf filings f.name) =
      .ok (i.documentOf (filings ++ [f]) f.name) := by
  rw [documentOf_append, if_pos rfl, savedDocument, documentOf]
  simp only [Selection.mapInnermost_enclosing]

theorem bytesOf_append (i : Inventory) (filings : List Filing) (f : Filing) :
    i.bytesOf (filings ++ [f]) = fun name => if name = f.name then
      some (Xml.printDocument (i.documentOf (filings ++ [f]) f.name) ++ "\n").toUTF8
        else i.bytesOf filings name := by
  funext name
  by_cases h : name = f.name
  · subst h
    rw [if_pos rfl, bytesOf, if_pos ⟨f, by simp, rfl⟩]
  · have h' : ¬ f.name = name := fun he => h he.symm
    simp [bytesOf, h, h', documentOf_append, List.mem_append, or_and_right, exists_or]

/-- What is filed can be printed if it all can. -/
theorem isPrintable_documentOf (hw : ∀ name ∈ i.selection.wrappers, Xml.isName name = true)
    (hf : ∀ f ∈ filings, i.IsOrdinary f) (hfit : ∀ f ∈ filings, i.IsFit (·.isPrintable = true) f)
    (name : String) : (i.documentOf filings name).isPrintable = true := by
  refine Selection.isPrintable_enclosing hw (Element.arePrintable_iff.2 fun c hc => ?_)
  have hall : ∀ f ∈ filings.filter fun f => f.name = name, f ∈ filings :=
    fun f hf => (List.mem_filter.1 hf).1
  rcases (holdsLatest_contentOf fun f h => hf f (hall f h)).mem hc with ⟨f, h, rfl⟩ | ⟨f, h, hg⟩
  · exact isPrintable_stampVersion (hfit f (hall f h)).writable
  · exact ((hfit f (hall f h)).grouping c hg).1

end

end Inventory

/-! ## Runs of saves -/

/-- Whether the filings are those of saves one after the other, starting from `w₀`. Each
save came to write its file, whether the element could be added then or not. In between,
other things may have been loaded. -/
inductive Filed (w₀ : Workspace) : List Filing → Workspace → Prop
  | start : Filed w₀ [] w₀
  | save {filings : List Filing} {w w' : Workspace} {source : Handle}
      {result : Except InventoryError Path} {p : Path} {document : Element} {name : String}
      {grouping : Option Element} (h : Filed w₀ filings w)
      (hrun : (Work.persist source).runOn w = (result, w'))
      (hsaves : w.inventory.Saves w.files (w.inventory.stampVersion source.element) p document
        w'.files)
      (hfile : w.inventory.fileFor (w.inventory.stampVersion source.element) = .ok (name, grouping)) :
      Filed w₀ (filings ++ [⟨source.element, name, grouping⟩]) w'
  | other {filings : List Filing} {w : Workspace} {i : Inventory} (h : Filed w₀ filings w)
      (hi : i.unloaded = w.inventory.unloaded) : Filed w₀ filings ⟨i, w.files⟩

/-- Every call of the saving either stops before it writes, or is one more filing. -/
theorem Filed.persist {w₀ w : Workspace} {filings : List Filing} (h : Filed w₀ filings w)
    (source : Handle) :
    (∃ err files, (Work.persist source).runOn w = (.error err, { w with files := files }) ∧
      w.files.SameFiles files) ∨
    ∃ name grouping, w.inventory.fileFor (w.inventory.stampVersion source.element) =
        .ok (name, grouping) ∧
      Filed w₀ (filings ++ [⟨source.element, name, grouping⟩]) ((Work.persist source).runOn w).2 := by
  refine Work.persist_cases (motive := fun r => (Work.persist source).runOn w = r → _)
    ?unsaved ?saved rfl
  case unsaved => exact fun err files hsame hrun => .inl ⟨err, files, hrun, hsame⟩
  case saved =>
    intro p document files hsaves e r hrun
    obtain ⟨name, grouping, -, -, -, hfile, -⟩ := id hsaves
    rw [hrun]
    exact .inr ⟨name, grouping, hfile, h.save hrun hsaves hfile⟩

/-- What filings lead to: the directory under `d`, once it is made, has just their files. -/
structure Workspace.Files (w₀ : Workspace) (d : Path) (place : List String) (filings : List Filing)
    (w : Workspace) : Prop where
  settings : w.inventory.unloaded = w₀.inventory.unloaded
  houses : (w.files.makeDirectories d).2.Houses d place (w₀.inventory.bytesOf filings)
  made : filings ≠ [] → w.files.isDirectory d = true
  ordinary : ∀ f ∈ filings, w₀.inventory.IsOrdinary f

section
variable {w₀ w w' : Workspace} {d p : Path} {place : List String} {filings : List Filing}
  {f : Filing} {document : Element}

/-- The document that a save starts from is that of the filings before it. -/
theorem Workspace.Files.documentAt {made : FileTree} (h : w₀.Files d place filings w)
    (hmade : w.files.makeDirectories d = (.ok (), made))
    (hlocate : made.locate (d.child f.name) = .ok (place ++ [f.name]))
    (hprintable : (w₀.inventory.documentOf filings f.name).isPrintable = true) :
    w.inventory.documentAt made (d.child f.name) = .ok (w₀.inventory.documentOf filings f.name) := by
  have hhouses := h.houses
  rw [hmade] at hhouses
  have hselection : w.inventory.selection = w₀.inventory.selection :=
    eq_of_unloaded Inventory.selection (fun _ => rfl) h.settings
  unfold Inventory.documentAt
  by_cases hf : ∃ g ∈ filings, g.name = f.name
  · obtain ⟨-, time, hl⟩ := hhouses.file f.name _ (if_pos hf)
    rw [if_pos (by rw [FileTree.holds, hl])]
    exact (FileTree.readDocument_of_lookup hprintable hl).2
  · rw [FileTree.holds_eq_false hlocate (hhouses.free f.name (if_neg hf)), hselection,
      Selection.skeleton_eq, documentOf, List.filter_eq_nil_iff.2 fun g hg => ?_]
    · rfl
    · simpa using fun he => hf ⟨g, hg, he⟩

/-- One more save brings the files to one more filing. -/
theorem Workspace.Files.save (h : w₀.Files d place filings w)
    (hd : w₀.inventory.userDirectory = some d)
    (hw : ∀ name ∈ w₀.inventory.selection.wrappers, Xml.isName name = true)
    (hfit : ∀ g ∈ filings ++ [f], w₀.inventory.IsFit (·.isPrintable = true) g)
    (hsettings : w'.inventory.unloaded = w.inventory.unloaded)
    (hsaves : w.inventory.Saves w.files (w.inventory.stampVersion f.source) p document w'.files)
    (hfile : w.inventory.fileFor (w.inventory.stampVersion f.source) = .ok (f.name, f.grouping)) :
    w₀.Files d place (filings ++ [f]) w' := by
  have hf := hfit f (by simp)
  have hnames := names_of_filed (i := w.inventory) hfile
  rw [eq_of_unloaded (fun i => i.Names f ∧ ∀ g ∈ f.grouping, g.name = i.conventions.groupingElement)
    (fun _ => rfl) h.settings] at hnames
  have hall : ∀ g ∈ filings ++ [f], w₀.inventory.IsOrdinary g := by
    rw [List.forall_mem_append, List.forall_mem_singleton]
    exact ⟨h.ordinary, hf.ordinary, hnames.2⟩
  obtain ⟨name, grouping, d', old, made, hfile', hd', rfl, hmade, hold, hdocument, hwrite⟩ := hsaves
  cases hfile.symm.trans hfile'
  cases ((eq_of_unloaded Inventory.userDirectory (fun _ => rfl) h.settings).trans hd).symm.trans hd'
  have hhouses := h.houses
  rw [hmade] at hhouses
  obtain ⟨hn, hhouses'⟩ := hhouses.write (hf.firstPart hnames.1) hwrite
  -- The document that was read is that of the filings, and so is the one that is written.
  have hlocate : made.locate (d.child f.name) = .ok (place ++ [f.name]) := by
    obtain ⟨place', hp, -⟩ := FileTree.exists_of_write hwrite
    have hlocate := (FileTree.locate_of_writable hp).1
    rwa [FileTree.locate_child hhouses.directory hn hlocate] at hlocate
  have hprintable := isPrintable_documentOf hw h.ordinary
    (fun g hg => hfit g (List.mem_append_left _ hg)) f.name
  cases (h.documentAt hmade hlocate hprintable).symm.trans hold
  have hwritten : w.inventory.savedDocument (w.inventory.stampVersion f.source) f.grouping
      (w₀.inventory.documentOf filings f.name) =
        .ok (w₀.inventory.documentOf (filings ++ [f]) f.name) :=
    (eq_of_unloaded (fun i => i.savedDocument (i.filed f) f.grouping
      (w₀.inventory.documentOf filings f.name)) (fun _ => rfl) h.settings).trans
      (savedDocument_documentOf _ filings f)
  cases hdocument.symm.trans hwritten
  rw [← bytesOf_append] at hhouses'
  have hthere : w'.files.isDirectory d = true := by
    rw [FileTree.isDirectory, hhouses'.directory]
  refine ⟨hsettings.trans h.settings, ?_, fun _ => hthere, hall⟩
  rwa [FileTree.makeDirectories_of_isDirectory hthere]

theorem Filed.files (h : Filed w₀ filings w) (hd : w₀.inventory.userDirectory = some d)
    (hempty : w₀.files.MakesEmpty d)
    (hw : ∀ name ∈ w₀.inventory.selection.wrappers, Xml.isName name = true)
    (hfit : ∀ f ∈ filings, w₀.inventory.IsFit (·.isPrintable = true) f) :
    ∃ place, w₀.Files d place filings w := by
  obtain ⟨place, hlookup, hfree⟩ := hempty
  refine ⟨place, ?_⟩
  induction h with
  | start => exact ⟨rfl, ⟨hlookup, fun n _ => hfree n, nofun⟩, fun hne => absurd rfl hne, nofun⟩
  | @save filings w w' source result p document name grouping h hrun hsaves hfile ih =>
    have hsettings := Work.settings_persist source w
    rw [hrun] at hsettings
    exact (ih fun f hf => hfit f (List.mem_append_left _ hf)).save hd hw hfit hsettings hsaves hfile
  | other h hi ih =>
    have hf := ih hfit
    exact ⟨hi.trans hf.settings, hf.houses, hf.made, hf.ordinary⟩

/-- The directory has just the files of the filings. -/
theorem Workspace.Files.mem_filesIn (h : w₀.Files d place filings w) (name : String) :
    (∃ time, (name, time) ∈ w.files.filesIn d) ↔ ∃ f ∈ filings, f.name = name := by
  by_cases hthere : w.files.isDirectory d = true
  · have hhouses := h.houses
    rw [FileTree.makeDirectories_of_isDirectory hthere] at hhouses
    rw [hhouses.mem_filesIn, bytesOf]
    split
    · next hf => exact iff_of_true rfl hf
    · next hf => exact iff_of_false nofun hf
  · obtain rfl : filings = [] := Classical.not_not.1 (mt h.made hthere)
    refine iff_of_false ?_ (by simp)
    rintro ⟨time, hmem⟩
    obtain ⟨here, hl⟩ := FileTree.directory_of_filesIn (List.ne_nil_of_mem hmem)
    exact hthere (by rw [FileTree.isDirectory, hl])

/-- Let elements be saved one after the other to a directory that was empty, whether they
could be added then or not. They and the grouping elements that they are views of can be
printed, and their identities, labels and classes lead to no other directory; the wrappers
have names that can be printed. Then the directory has just the files that were saved, and
each can be read. Its wrappers are those of the selection, and the innermost one holds of
each name with key values that was saved there just the last element, with its version,
and beside these only grouping elements, of each value at most one. -/
theorem filed_documents_hold_latest (hd : w₀.inventory.userDirectory = some d)
    (hempty : w₀.files.MakesEmpty d)
    (hw : ∀ name ∈ w₀.inventory.selection.wrappers, Xml.isName name = true)
    (hfiled : Filed w₀ filings w)
    (hfit : ∀ f ∈ filings, w₀.inventory.IsFit (·.isPrintable = true) f) :
    (∀ name, (∃ time, (name, time) ∈ w.files.filesIn d) ↔ ∃ f ∈ filings, f.name = name) ∧
      ∀ f ∈ filings, ∃ children,
        w.files.readDocument (d.child f.name) =
          .ok (w₀.inventory.selection.enclosing children) ∧
        w₀.inventory.HoldsLatest (filings.filter fun g => g.name = f.name) children := by
  obtain ⟨place, hfiles⟩ := hfiled.files hd hempty hw hfit
  refine ⟨hfiles.mem_filesIn, fun f hf => ?_⟩
  have hhouses := hfiles.houses
  rw [FileTree.makeDirectories_of_isDirectory (hfiles.made (List.ne_nil_of_mem hf))] at hhouses
  obtain ⟨-, time, hl⟩ := hhouses.file f.name _ (if_pos ⟨f, hf, rfl⟩)
  have hprintable := isPrintable_documentOf hw hfiles.ordinary hfit f.name
  exact ⟨_, (FileTree.readDocument_of_lookup hprintable hl).2,
    holdsLatest_contentOf fun g hg => hfiles.ordinary g (List.mem_filter.1 hg).1⟩

end

/-! ## Parts that are current, and others -/

theorem Filed.afterSave {w₀ w : Workspace} {filings : List Filing} {source : Handle} {f : SavedFile}
    (h : Filed w₀ filings w) (hf : w.savedAs source = some f) :
    Filed w₀ (filings ++ [⟨source.element, f.name, f.grouping⟩]) (w.afterSave source) := by
  unfold Workspace.savedAs at hf
  simp only at hf
  split at hf
  · next p name grouping _ hsave hfile _ =>
    cases hf
    obtain ⟨err, files, hrun, -⟩ | ⟨name', grouping', hfile', hfiled⟩ := h.persist source
    · rw [hrun] at hsave
      cases hsave
    · cases hfile.symm.trans hfile'
      exact hfiled
  · cases hf

/-- A workspace with a version, and with a view. -/
def Workspace.ofDatedView : Workspace :=
  { Workspace.ofClassView with inventory := { Workspace.ofClassView.inventory with version := 3 } }

/-- Another edition of `innerPart`. -/
def redInnerPart : Handle := .fresh 0 (.part [("id", "x"), ("color", "red")])

/-- A part with an empty text. -/
def emptyTextPart : Handle := .fresh 0 ⟨"part", .ofList [("id", "x")], [], some ""⟩

def spacedFile : SavedFile := ⟨⟨"user/default$$x"⟩, "default$$x", "x", none⟩

theorem filings_of_parts :
    Workspace.ofDatedView.savedAs innerPart = some innerFile ∧
      (Workspace.ofDatedView.afterSave innerPart).savedAs viewPart = some classFile ∧
      ((Workspace.ofDatedView.afterSave innerPart).afterSave viewPart).savedAs redInnerPart =
        some innerFile ∧
      (Workspace.ofSpaced.savedAs innerPart = some spacedFile ∧
        ((Workspace.ofSpaced.afterSave innerPart).files.readDocument spacedFile.path).toBool =
          false) ∧
      Workspace.ofScope.savedAs emptyTextPart = some innerFile ∧
      ((Workspace.ofScope.afterSave emptyTextPart).files.readDocument innerFile.path).toOption =
        some ⟨"Inventory", .empty, [.part [("id", "x")]], none⟩ := by
  decide +kernel

/-- The first edition of a part is gone, and its view has its grouping element beside it. -/
theorem filed_documents_hold_latest_innerPart :
    let w := ((Workspace.ofDatedView.afterSave innerPart).afterSave viewPart).afterSave redInnerPart
    let i := Workspace.ofDatedView.inventory
    (∃ children, w.files.readDocument ⟨"user/x.xml"⟩ = .ok ⟨"Inventory", .empty, children, none⟩ ∧
      i.ofClass ("part", [some "x"]) children =
        [.part [("id", "x"), ("color", "red"), ("version", "3")]]) ∧
    ∃ children, w.files.readDocument ⟨"user/V_c.xml"⟩ = .ok ⟨"Inventory", .empty, children, none⟩ ∧
      i.ofClass ("part", [some "a#t"]) children = [.part [("id", "a#t"), ("version", "3")]] := by
  obtain ⟨hinner, hview, hred, -⟩ := filings_of_parts
  have hfiled := ((Filed.start.afterSave hinner).afterSave hview).afterSave hred
  have hempty : Workspace.ofDatedView.files.MakesEmpty ⟨"user"⟩ := ⟨["user"], rfl, fun n => rfl⟩
  have hfit : ∀ f ∈ [⟨innerPart.element, "x.xml", none⟩, ⟨viewPart.element, "V_c.xml", classView "V"⟩,
      (⟨redInnerPart.element, "x.xml", none⟩ : Filing)],
      Workspace.ofDatedView.inventory.IsFit (·.isPrintable = true) f := by
    rw [List.forall_mem_cons, List.forall_mem_cons, List.forall_mem_singleton]
    refine ⟨⟨rfl, by decide, by decide, by simp⟩, ⟨rfl, by decide, by decide, ?_⟩,
      ⟨rfl, by decide, by decide, by simp⟩⟩
    rintro _ ⟨⟩
    exact ⟨rfl, by decide, by decide⟩
  obtain ⟨-, hall⟩ := filed_documents_hold_latest rfl hempty (by decide) hfiled hfit
  obtain ⟨inner, hinner, hlatest⟩ := hall _ (List.mem_cons_self)
  obtain ⟨viewed, hviewed, hlatest'⟩ := hall _ (List.mem_cons_of_mem _ List.mem_cons_self)
  refine ⟨⟨inner, hinner, ?_⟩, viewed, hviewed, ?_⟩
  · exact hlatest.latest ("part", [some "x"]) (by decide)
  · exact hlatest'.latest ("part", [some "a#t"]) (by decide)

/-- Whether names are names and texts have no white space at their ends, in an element and
in everything below it. -/
def Element.IsTrimmed (e : Element) : Prop :=
  e.Everywhere fun x => Xml.Named x ∧ ∀ t ∈ x.text, Xml.isTrimmed t.toList = true

/-- Whether every file holds the latest of each class if the elements that are saved have
such names and texts, whatever the names of the wrappers are. -/
def Workspace.KeepsLatest (w₀ : Workspace) : Prop :=
  ∀ d filings w, w₀.inventory.userDirectory = some d → w₀.files.MakesEmpty d →
    Filed w₀ filings w → (∀ f ∈ filings, w₀.inventory.IsFit Element.IsTrimmed f) →
    ∀ f ∈ filings, ∃ children,
      w.files.readDocument (d.child f.name) = .ok (w₀.inventory.selection.enclosing children) ∧
      w₀.inventory.HoldsLatest (filings.filter fun g => g.name = f.name) children

/-- A file is not read if a wrapper has a space in its name. And an empty text is missing
from the file. -/
theorem filed_documents_lost :
    (Reachable .ofSpaced ∧ ¬ Workspace.ofSpaced.KeepsLatest) ∧
      Reachable .ofScope ∧ ¬ Workspace.ofScope.KeepsLatest := by
  obtain ⟨-, -, -, ⟨hspaced, hunread⟩, hempty, hread⟩ := filings_of_parts
  have hinner : innerPart.element.IsTrimmed :=
    Element.everywhere_iff.2 ⟨⟨⟨by decide, by decide⟩, nofun⟩, nofun⟩
  have hblank : emptyTextPart.element.IsTrimmed := by
    refine Element.everywhere_iff.2 ⟨⟨⟨by decide, by decide⟩, ?_⟩, nofun⟩
    rintro _ ⟨⟩
    rfl
  refine ⟨⟨.start _ rfl rfl rfl rfl, fun hall => ?_⟩, reachable_ofScope, fun hall => ?_⟩
  · obtain ⟨children, hok, -⟩ := hall ⟨"user"⟩ _ _ rfl ⟨["user"], rfl, fun n => rfl⟩
      (Filed.start.afterSave hspaced)
      (List.forall_mem_singleton.2 ⟨hinner, by decide, by decide, by simp [spacedFile]⟩)
      _ List.mem_cons_self
    rw [show (⟨"user"⟩ : Path).child _ = spacedFile.path from rfl] at hok
    rw [hok] at hunread
    cases hunread
  · obtain ⟨children, hok, hlatest⟩ := hall ⟨"user"⟩ _ _ rfl ⟨["user"], rfl, fun n => rfl⟩
      (Filed.start.afterSave hempty)
      (List.forall_mem_singleton.2 ⟨hblank, by decide, by decide, by simp [innerFile]⟩)
      _ List.mem_cons_self
    have hmissing := hlatest.latest ("part", [some "x"]) (by decide)
    rw [show (⟨"user"⟩ : Path).child _ = innerFile.path from rfl] at hok
    rw [hok] at hread
    cases hread
    revert hmissing
    decide

end TemplateInventory
