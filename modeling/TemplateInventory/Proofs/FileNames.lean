import TemplateInventory.Proofs.Patterns
import TemplateInventory.Proofs.Places
import TemplateInventory.Proofs.Reload
/-!
# Names of user files

The name of a user file is made of what its element is called, with nothing to tell
whether that is the name of a file. If it is, the file stands directly in the
directory of user files, and the pattern of user files finds it there
(`persisted_listed`). If it is not, a save may succeed outside of that directory
(`part_saved_outside`).
-/

namespace TemplateInventory

open Inventory

/-! ## The pattern of user files -/

namespace Inventory

section
variable {i : Inventory} {e : Element} {name ending : String} {grouping : Option Element}

/-- What the names of user files start with. -/
def filePrefix (i : Inventory) : String := if i.scope.isNone then unscopedPrefix else ""

theorem userPattern_eq (i : Inventory) : i.userPattern = i.filePrefix ++ i.pattern.text := by
  unfold userPattern filePrefix
  cases i.scope with
  | none => rfl
  | some s => simp

theorem isPlain_filePrefix (i : Inventory) : ∀ c ∈ i.filePrefix.toList, Glob.IsPlain c := by
  unfold filePrefix
  split <;> simp [unscopedPrefix, Glob.IsPlain]

/-- The names that an element may have between what all names start and end with. -/
theorem name_of_fileFor (h : i.fileFor e = .ok (name, grouping)) :
    ∃ identity stem, i.schema.identityOf e = some identity ∧ grouping = i.groupingOf identity ∧
      i.fileStem identity grouping = .ok stem ∧ name = i.filePrefix ++ stem ++ i.patternEnding := by
  obtain ⟨identity, hidentity, hgrouping⟩ := grouping_of_fileFor h
  obtain ⟨attr, hattr, hvalue⟩ := Option.bind_eq_some_iff.1 hidentity
  simp only [fileFor, hattr, Element.requiredAttr, hvalue] at h
  rw [← hgrouping] at h
  cases hstem : i.fileStem identity grouping with
  | error err => rw [hstem] at h; cases h
  | ok stem =>
    rw [hstem] at h
    cases h
    exact ⟨identity, stem, hidentity, hgrouping, hstem, rfl⟩

theorem patternEnding_of_star (hp : i.pattern.text = "*" ++ ending) : i.patternEnding = ending := by
  simp [patternEnding, hp]

/-- The pattern of user files for a star and plain characters, which stand after what
the names start with. -/
def starPattern (i : Inventory) (ending : String) : FilePattern :=
  ⟨i.userPattern, Glob.literals i.filePrefix.toList ++ .anything :: Glob.literals ending.toList⟩

theorem patternFor_star (hp : i.pattern.text = "*" ++ ending)
    (hplain : ∀ c ∈ ending.toList, Glob.IsPlain c) :
    i.patternFor .userOverrides = .ok (i.starPattern ending) := by
  have hparse := Glob.parse_star i.isPlain_filePrefix hplain
  rw [String.ofList_toList, String.ofList_toList, String.append_assoc, ← hp, ← i.userPattern_eq] at hparse
  simp only [patternFor, FilePattern.parse, hparse, Except.map, starPattern]

/-- A pattern that could be read is one for user files. -/
theorem exists_patternFor (hp : FilePattern.parse i.pattern.text = .ok i.pattern) :
    ∃ pattern, i.patternFor .userOverrides = .ok pattern := by
  unfold FilePattern.parse at hp
  cases hparse : Glob.parse i.pattern.text with
  | error err => rw [hparse] at hp; cases hp
  | ok ts =>
    obtain ⟨ts', hts'⟩ := Glob.parse_plain_append i.isPlain_filePrefix hparse
    rw [← i.userPattern_eq] at hts'
    exact ⟨_, by simp only [patternFor, FilePattern.parse, hts', Except.map]; rfl⟩

/-- That pattern matches whatever stands between what names start and end with. -/
theorem matchesName_starPattern (i : Inventory) (ending stem : String) :
    (i.starPattern ending).matchesName (i.filePrefix ++ stem ++ ending) = true := by
  have hmatch := Glob.matchesName_append i.filePrefix.toList ending.toList stem
  rwa [String.ofList_toList, String.ofList_toList] at hmatch

end

end Inventory

/-! ## Where a saved file stands -/

theorem FileTree.keepsDirectories_write {t t' : FileTree} {p : Path} {bytes : ByteArray}
    (h : t.write p bytes = .ok t') : KeepsDirectories t t' := by
  obtain ⟨place, hp, rfl⟩ := exists_of_write h
  refine ⟨rfl, fun place' hd => ?_⟩
  rw [entryAt_put t (ne_nil_of_writable hp), if_neg, hd]
  rintro rfl
  exact (locate_of_writable hp).2 hd

section
variable {w w' : Workspace} {source : Handle} {p d : Path} {name ending : String}
  {grouping : Option Element}

/-- A file that is written under the name of an entry stands directly in the directory. -/
theorem FileTree.write_child {t t' : FileTree} {bytes : ByteArray} (hdirectory : t.isDirectory d = true)
    (hn : IsComponent name) (h : t.write (d.child name) bytes = .ok t') :
    ∃ place, t.lookup d = .ok (place, .directory) ∧ t.KeepsDirectories t' ∧
      (∀ place', t'.entryAt place' = if place ++ [name] = place' then
        some (.file bytes (.written t.writes)) else t.entryAt place') ∧
      t'.lookup (d.child name) = .ok (place ++ [name], .file bytes (.written t.writes)) := by
  obtain ⟨place, -, -, hlookup⟩ := lookup_of_isDirectory hdirectory
  have hkeeps := keepsDirectories_write h
  obtain ⟨place', hp, rfl⟩ := exists_of_write h
  have hlocate := (locate_of_writable hp).1
  obtain rfl := locate_child hlookup hn hlocate
  have hput := entryAt_put t (ne_nil_of_writable hp) (.file bytes (.written t.writes)) (t.writes + 1)
  exact ⟨place, hlookup, hkeeps, hput, lookup_child (hkeeps.lookup hlookup) hn (hkeeps.locate hlocate)
    ((hput _).trans (if_pos rfl))⟩

/-- Saving changes nothing of an inventory but what is held, whether it fails or not. -/
theorem Work.settings_persist (source : Handle) (w : Workspace) :
    ((persist source).runOn w).2.inventory.unloaded = w.inventory.unloaded := by
  refine persist_cases (motive := fun r => r.2.inventory.unloaded = w.inventory.unloaded)
    (fun _ _ _ => rfl) fun _ _ _ _ => ?_
  simp [unloaded, add, mint, Holdings.mint, onHoldings, schema]

theorem Work.unloaded_persist (h : (persist source).runOn w = (.ok p, w')) :
    w'.inventory.unloaded = w.inventory.unloaded := by
  have hsettings := settings_persist source w
  rwa [h] at hsettings

theorem Inventory.filesOf_of_unloaded {i i' : Inventory} (h : i'.unloaded = i.unloaded) (files : FileTree)
    (kind : SourceKind) (d : Path) : i'.filesOf files kind d = i.filesOf files kind d :=
  eq_of_unloaded (fun i => i.filesOf files kind d) (fun _ => rfl) h

/-- Where a save that succeeds leaves its file, if it has the name of an entry. -/
theorem Work.persist_places (h : (persist source).runOn w = (.ok p, w')) :
    ∃ d name grouping made, w.inventory.userDirectory = some d ∧
      w.inventory.fileFor (w.inventory.stampVersion source.element) = .ok (name, grouping) ∧
      p = d.child name ∧ w.files.makeDirectories d = (.ok (), made) ∧
      (d.text ≠ "" → IsComponent name → ∃ place bytes,
        made.lookup d = .ok (place, .directory) ∧ made.KeepsDirectories w'.files ∧
        (∀ place', w'.files.entryAt place' = if place ++ [name] = place' then
          some (.file bytes (.written made.writes)) else made.entryAt place') ∧
        w'.files.lookup p = .ok (place ++ [name], .file bytes (.written made.writes))) := by
  obtain ⟨⟨document, name, grouping, d, old, made, hfile, hd, rfl, hmade, -, -, hwrite⟩, -⟩ :=
    persist_ok h
  refine ⟨d, name, grouping, made, hd, hfile, rfl, hmade, fun htext hn => ?_⟩
  obtain ⟨place, hwritten⟩ :=
    FileTree.write_child (FileTree.isDirectory_of_makeDirectories htext hmade) hn hwrite
  exact ⟨place, _, hwritten⟩

/-- An element that is saved under the name of an entry has its file directly in the
directory of user files. Where the file pattern is a star and plain characters, that of
user files finds it there. -/
theorem persisted_listed (hp : w.inventory.pattern.text = "*" ++ ending)
    (hplain : ∀ c ∈ ending.toList, Glob.IsPlain c)
    (hsave : (Work.persist source).runOn w = (.ok p, w')) :
    ∃ d name grouping, w.inventory.userDirectory = some d ∧
      w.inventory.fileFor (w.inventory.stampVersion source.element) = .ok (name, grouping) ∧
      p = d.child name ∧
      (d.text ≠ "" → IsComponent name →
        p.components = d.components ++ [name] ∧
          ∃ place bytes time found, w'.files.lookup d = .ok (place, .directory) ∧
            w'.files.lookup p = .ok (place ++ [name], .file bytes time) ∧
            w'.inventory.filesOf w'.files .userOverrides d = .ok found ∧ ⟨p, time⟩ ∈ found) := by
  obtain ⟨d, name, grouping, made, hd, hfile, rfl, -, hplaces⟩ := Work.persist_places hsave
  refine ⟨d, name, grouping, hd, hfile, rfl, fun htext hn => ⟨Path.components_child htext hn, ?_⟩⟩
  obtain ⟨place, bytes, hmade, hkeeps, hentry, hlookup⟩ := hplaces htext hn
  have hdirectory := hkeeps.lookup hmade
  have hfound : w'.inventory.filesOf w'.files .userOverrides d =
      .ok ((w.inventory.starPattern ending).scan w'.files d) := by
    rw [filesOf_of_unloaded (Work.unloaded_persist hsave), filesOf, patternFor_star hp hplain]
    rfl
  refine ⟨place, bytes, _, _, hdirectory, hlookup, hfound, ?_⟩
  have hmatch : (w.inventory.starPattern ending).matchesName name = true := by
    obtain ⟨-, stem, -, -, -, hname⟩ := name_of_fileFor hfile
    rw [hname, patternEnding_of_star hp]
    exact w.inventory.matchesName_starPattern ending stem
  exact FilePattern.mem_scan.2 ⟨name, _, (FileTree.mem_filesIn hdirectory).2
    ⟨bytes, (hentry _).trans (if_pos rfl)⟩, hmatch, rfl⟩

end

/-! ## A part in its directory, and one outside -/

/-- A workspace with a scope whose files end in `.xml`. -/
def Workspace.ofScope : Workspace :=
  let w := Workspace.ofUser .parts
  { w with inventory :=
      { w.inventory with
        pattern := ⟨"*.xml", .anything :: Glob.literals ".xml".toList⟩
        scope := some "s" } }

theorem reachable_ofScope : Reachable .ofScope := .start _ rfl rfl rfl rfl

/-- A part whose identity names a file, and one whose identity leads up. -/
def innerPart : Handle := .fresh 0 (.part [("id", "x")])

def outerPart : Handle := .fresh 0 (.part [("id", "../x")])

theorem saved_in_scope :
    (Workspace.ofScope.inventory.fileFor innerPart.element).toOption.map Prod.fst = some "x.xml" ∧
      ((Work.persist innerPart).runOn .ofScope).1.toOption = some ⟨"user/x.xml"⟩ ∧
      ((Work.persist outerPart).runOn .ofScope).1.toOption = some ⟨"user/../x.xml"⟩ := by
  decide +kernel

/-- The part whose identity names a file is found in the directory of user files. -/
theorem persisted_listed_innerPart :
    let w' := ((Work.persist innerPart).runOn .ofScope).2
    IsComponent "x.xml" ∧ ∃ time found,
      w'.inventory.filesOf w'.files .userOverrides ⟨"user"⟩ = .ok found ∧
      ⟨⟨"user/x.xml"⟩, time⟩ ∈ found := by
  obtain ⟨hname, hsave, -⟩ := saved_in_scope
  obtain ⟨d, name, grouping, hd, hfile, hp, hlisted⟩ := persisted_listed
    (show Workspace.ofScope.inventory.pattern.text = "*" ++ ".xml" from rfl)
    (by simp [Glob.IsPlain]) (Prod.ext (ok_of_toOption hsave) rfl)
  obtain rfl : (⟨"user"⟩ : Path) = d := Option.some.inj hd
  obtain rfl : name = "x.xml" := by
    rw [show Workspace.ofScope.inventory.fileFor innerPart.element = _ from hfile] at hname
    exact Option.some.inj hname
  obtain ⟨-, -, -, time, found, -, -, hfound, hmem⟩ := hlisted (by decide) (by decide)
  exact ⟨by decide, time, found, hfound, hmem⟩

/-- Whether every element that is saved has its file directly in the directory of user
files, where it is found. -/
def Workspace.FindsSaved (w : Workspace) : Prop :=
  ∀ source p w', (Work.persist source).runOn w = (.ok p, w') →
    ∃ d name found, w.inventory.userDirectory = some d ∧ p.components = d.components ++ [name] ∧
      w'.inventory.filesOf w'.files .userOverrides d = .ok found ∧ ∃ s ∈ found, s.path.same p = true

/-- An identity that leads up is saved above the directory of user files. -/
theorem part_saved_outside : Reachable .ofScope ∧ ¬ Workspace.ofScope.FindsSaved := by
  refine ⟨reachable_ofScope, fun hall => ?_⟩
  obtain ⟨-, -, hsave⟩ := saved_in_scope
  obtain ⟨d, name, -, hd, hcomponents, -⟩ := hall outerPart _ _ (Prod.ext (ok_of_toOption hsave) rfl)
  obtain rfl : (⟨"user"⟩ : Path) = d := Option.some.inj hd
  have hlength := congrArg List.length hcomponents
  rw [List.length_append, List.length_singleton] at hlength
  exact absurd hlength (by decide)

end TemplateInventory
