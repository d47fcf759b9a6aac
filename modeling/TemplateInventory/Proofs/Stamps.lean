import TemplateInventory.Proofs.Reload
import TemplateInventory.Proofs.Rewriting
/-!
# Stamps of the files that are read

A file that is read is stamped. If it is then written, its stamp gets the new time. So
the stamps of files that were read one after the other are right, provided that no file
was read twice (`Work.adds_addFiles`).

Nothing else that happens to an inventory touches its stamps or its settings:
`Inventory.SameFiles`.
-/

namespace TemplateInventory

open Holdings Inventory

/-! ## What loading does to an inventory -/

namespace Inventory

/-- Whether nothing has changed but what is loaded; stamps and settings are the same. -/
def SameFiles (i i' : Inventory) : Prop :=
  ∃ holdings memo tagged merges,
    i' = { i with holdings := holdings, memo := memo, tagged := tagged, merges := merges }

/-- Whether nothing has changed but what is loaded and stamped. -/
def SameSettings (i i' : Inventory) : Prop := ∃ stamps, SameFiles { i with stamps := stamps } i'

section
variable {i i' i'' : Inventory}

theorem SameFiles.refl (i : Inventory) : i.SameFiles i := ⟨_, _, _, _, rfl⟩

theorem SameFiles.trans (h : i.SameFiles i') (h' : i'.SameFiles i'') : i.SameFiles i'' := by
  obtain ⟨_, _, _, _, rfl⟩ := h
  obtain ⟨_, _, _, _, rfl⟩ := h'
  exact ⟨_, _, _, _, rfl⟩

theorem SameFiles.settings (h : i.SameFiles i') : i.SameSettings i' := ⟨i.stamps, h⟩

namespace SameSettings

theorem trans (h : i.SameSettings i') (h' : i'.SameSettings i'') : i.SameSettings i'' := by
  obtain ⟨_, _, _, _, _, rfl⟩ := h
  obtain ⟨stamps, _, _, _, _, rfl⟩ := h'
  exact ⟨stamps, _, _, _, _, rfl⟩

theorem sources (h : i.SameSettings i') : i'.sources = i.sources := by
  obtain ⟨_, _, _, _, _, rfl⟩ := h
  rfl

theorem userDirectory (h : i.SameSettings i') : i'.userDirectory = i.userDirectory := by
  obtain ⟨_, _, _, _, _, rfl⟩ := h
  rfl

theorem patternFor (h : i.SameSettings i') (kind : SourceKind) :
    i'.patternFor kind = i.patternFor kind := by
  obtain ⟨_, _, _, _, _, rfl⟩ := h
  rfl

end SameSettings

theorem sameFiles_onHoldings {α : Type} (i : Inventory) (f : Holdings → α × Holdings) :
    i.SameFiles (i.onHoldings f).2 := ⟨_, _, _, _, rfl⟩

theorem sameFiles_addGrouping (i : Inventory) (node : Handle) :
    i.SameFiles (i.addGrouping node).2 := by
  unfold addGrouping
  split
  · exact .refl i
  · exact ⟨_, _, _, _, rfl⟩

theorem sameFiles_addAny (i : Inventory) (node : Handle) : i.SameFiles (i.addAny node).2 := by
  unfold addAny
  split
  · exact sameFiles_addGrouping i node
  · exact sameFiles_onHoldings i _

theorem sameFiles_addRead (i : Inventory) (nodes : List Handle) :
    i.SameFiles (i.addRead nodes).2 := by
  induction nodes generalizing i with
  | nil => exact .refl i
  | cons node nodes ih =>
    have hnote : i.SameFiles (i.noteTagged node) := by
      unfold noteTagged
      split
      · exact ⟨_, _, _, _, rfl⟩
      · exact .refl i
    have hstep := hnote.trans ((i.noteTagged node).sameFiles_addAny node)
    rw [addRead]
    rcases hr : (i.noteTagged node).addAny node with ⟨_ | u, i₁⟩
    all_goals rw [hr] at hstep
    · exact hstep
    · exact hstep.trans (ih i₁)

theorem sameFiles_reconcile (i : Inventory) (selected : List Selected) (expected : Int)
    (isUser : Bool) : i.SameFiles (i.reconcile selected expected isUser).2 :=
  KeptByReconciling.reconcile (Q := i.SameFiles)
    ⟨fun {j} _ _ _ h => h.trans (j.sameFiles_onHoldings _),
      fun {j} _ h => h.trans (j.sameFiles_onHoldings _), fun _ h => h.trans ⟨_, _, _, _, rfl⟩⟩
    (.refl i) selected expected isUser

theorem sameFiles_addText (i : Inventory) (text : String) (expected : Int) :
    i.SameFiles (i.addText text expected).2 := by
  unfold addText
  split
  · exact .refl i
  · next document _ =>
    have hstep := i.sameFiles_reconcile (i.selection.select document) expected false
    unfold addDocument
    rcases hr : i.reconcile (i.selection.select document) expected false with ⟨_ | r, i₁⟩
    all_goals rw [hr] at hstep
    · exact hstep
    · exact hstep.trans (i₁.sameFiles_addRead r.survivors)

theorem sameFiles_expandOne (i : Inventory) (tag : String) (node : Handle) :
    i.SameFiles (i.expandOne tag node).2 := by
  unfold expandOne
  split
  · exact .refl i
  · next name _ =>
    simp only
    have hstep := i.sameFiles_onHoldings
      (·.resolve [] node.element.name (i.valuesOfCopy (withTag name tag) node.element))
    rcases hr : i.onHoldings (·.resolve [] node.element.name
      (i.valuesOfCopy (withTag name tag) node.element)) with ⟨_ | x, i₁⟩
    all_goals rw [hr] at hstep
    · simp only
      split
      · exact hstep
      · next copy _ =>
        let handle := node.revise i₁.holdings.nextSerial copy
        have hadd := (hstep.trans (i₁.sameFiles_onHoldings (·.mint copy))).trans
          ((i₁.mint copy).2.sameFiles_onHoldings (·.add handle))
        change i.SameFiles ((i₁.mint copy).2.add handle).2 at hadd
        rcases hr' : (i₁.mint copy).2.add handle with ⟨_ | u, i₂⟩
        all_goals
          rw [hr'] at hadd
          exact hadd
    · exact hstep

theorem sameFiles_expandAll (i : Inventory) (tag : String) (added : Nat) (nodes : List Handle) :
    i.SameFiles (i.expandAll tag added nodes).2 := by
  induction nodes generalizing i added with
  | nil => exact .refl i
  | cons node nodes ih =>
    have hstep := i.sameFiles_expandOne tag node
    rw [expandAll]
    rcases hr : i.expandOne tag node with ⟨_ | isNew, i₁⟩
    all_goals rw [hr] at hstep
    · exact hstep
    · exact hstep.trans (ih i₁ _)

end

end Inventory

/-! ## One file after the other -/

theorem restamp_append (p : Path) (time time' : Stamp) (stamps : List FileStamp) :
    restamp p time' (stamps ++ [⟨p, time⟩]) = stamps ++ [⟨p, time'⟩] := by
  have hsame : p.same p = true := by simp [Path.same]
  simp [restamp, List.findIdx?_cons, hsame, List.modify_eq_take_drop]

/-- A document that could be read is in a file. -/
theorem FileTree.file_of_readDocument {t : FileTree} {p : Path} {document : Element}
    (h : t.readDocument p = .ok document) :
    ∃ place bytes time, t.lookup p = .ok (place, .file bytes time) := by
  unfold readDocument read at h
  split at h
  · cases h
  · next hread =>
    split at hread
    · cases hread
    · cases hread
    · next hl => exact ⟨_, _, _, hl⟩

theorem Inventory.SameFiles.restamp {i i' : Inventory} {stamps : List FileStamp} {p : Path}
    {time : Stamp} (h : SameFiles { i with stamps := stamps ++ [⟨p, time⟩] } i') (time' : Stamp) :
    SameFiles { i with stamps := stamps ++ [⟨p, time'⟩] }
      { i' with stamps := TemplateInventory.restamp p time' i'.stamps } := by
  obtain ⟨holdings, memo, tagged, merges, rfl⟩ := h
  exact ⟨holdings, memo, tagged, merges, by simp only [restamp_append]⟩

/-- Whether the files under some paths were read and stamped on the way from one
workspace to another. The stamps are right if they were, and no two paths are of one
file. -/
structure Workspace.Adds (added : List Path) (w w' : Workspace) : Prop where
  files : w.files.Rewrites w'.files
  settings : w.inventory.SameSettings w'.inventory
  paths : w'.inventory.stamps.map FileStamp.path = w.inventory.stamps.map FileStamp.path ++ added
  current : w.files.Current w.inventory.stamps →
    w.files.Apart (w.inventory.stamps.map FileStamp.path ++ added) →
    w'.files.Current w'.inventory.stamps

section
variable {w w' w'' : Workspace} {added added' : List Path} {p : Path} {document : Element}
  {survivors : List Handle} {expected : Int} {isUser : Bool}

namespace Workspace.Adds

theorem refl (w : Workspace) : Adds [] w w where
  files := .refl w.files
  settings := (SameFiles.refl w.inventory).settings
  paths := by rw [List.append_nil]
  current hc _ := hc

theorem trans (h : Adds added w w') (h' : Adds added' w' w'') : Adds (added ++ added') w w'' where
  files := h.files.trans h'.files
  settings := h.settings.trans h'.settings
  paths := by rw [h'.paths, h.paths, List.append_assoc]
  current hc ha := by
    rw [← List.append_assoc] at ha
    refine h'.current (h.current hc (List.pairwise_append.1 ha).1) ?_
    rw [h.paths]
    exact h.files.apart ha

/-- One more file was stamped as it is, and the files at other places have the times that
they had. -/
theorem one {i : Inventory} {t : FileTree} {place : List String} {time : Stamp}
    (hp : t.locate p = .ok place) (hfiles : t.Rewrites w'.files)
    (hs : SameFiles { i with stamps := i.stamps ++ [⟨p, time⟩] } w'.inventory)
    (htime : w'.files.modified p = .ok time)
    (hother : ∀ q m, t.modified q = .ok m → t.locate q ≠ .ok place → w'.files.modified q = .ok m) :
    Adds [p] ⟨i, t⟩ w' := by
  have hstamps : w'.inventory.stamps = i.stamps ++ [⟨p, time⟩] := by
    obtain ⟨_, _, _, _, hi⟩ := hs
    rw [hi]
  refine ⟨hfiles, ⟨_, hs⟩, by simp [hstamps], fun hc ha s hs => ?_⟩
  rw [hstamps] at hs
  rcases List.mem_append.1 hs with hs | hs
  · have hapart := (List.pairwise_append.1 ha).2.2 s.path (List.mem_map_of_mem hs) p (by simp)
    exact hother s.path s.modified (hc s hs) fun hq => hapart place hq hp
  · rw [List.mem_singleton.1 hs]
    exact htime

end Workspace.Adds

namespace Work

/-- What succeeds after another operation ran after a success of that. -/
theorem exists_of_bind {α β : Type} {work : Work α} {f : α → Work β} {b : β}
    (h : (work >>= f).runOn w = (.ok b, w')) :
    ∃ a w₁, work.runOn w = (.ok a, w₁) ∧ (f a).runOn w₁ = (.ok b, w') := by
  rw [runOn_bind] at h
  rcases hr : work.runOn w with ⟨_ | a, w₁⟩
  all_goals rw [hr] at h
  · cases h
  · exact ⟨a, w₁, rfl, h⟩

/-- What could be written was. -/
theorem exists_of_attempt {f : FileTree → Except FileError FileTree}
    (h : (onFiles (·.attempt f)).runOn w = (.ok (), w')) :
    ∃ files, f w.files = .ok files ∧ w' = { w with files := files } := by
  rw [runOn_onFiles] at h
  unfold FileTree.attempt at h
  cases hf : f w.files with
  | error e => rw [hf] at h; cases h
  | ok files =>
    rw [hf] at h
    cases h
    exact ⟨files, rfl, rfl⟩

/-- A file that was written back has a new time, and its stamp has it too. -/
theorem refreshFile_ok {place : List String} {old : ByteArray} {m : Stamp}
    (hl : w.files.lookup p = .ok (place, .file old m))
    (h : (refreshFile p document survivors).runOn w = (.ok (), w')) :
    w' = w ∨ ∃ bytes time files, w.files.write p bytes = .ok files ∧ files.modified p = .ok time ∧
      w' = ⟨{ w.inventory with stamps := restamp p time w.inventory.stamps }, files⟩ := by
  obtain ⟨i, w₁, hi, h⟩ := exists_of_bind h
  cases hi
  split at h
  · cases h
    exact .inl rfl
  · obtain ⟨u, w₁, hwrite, h⟩ := exists_of_bind h
    obtain ⟨files, hwritten, rfl⟩ := exists_of_attempt hwrite
    obtain ⟨-, htime, -⟩ := FileTree.rewrites_write hl hwritten
    obtain ⟨t, w₁, ht, h⟩ := exists_of_bind h
    cases ht
    rw [htime] at h
    cases h
    exact .inr ⟨_, _, files, hwritten, htime, rfl⟩

/-- A file is stamped with the time that it has in the end. -/
theorem adds_addFile (h : (addFile expected isUser p).runOn w = (.ok (), w')) :
    w.Adds [p] w' := by
  obtain ⟨i, t⟩ := w
  obtain ⟨d, w₁, hread, h⟩ := exists_of_bind h
  obtain ⟨time, htime, hdocument, rfl⟩ := readFile_ok hread
  obtain ⟨place, old, m, hl⟩ := FileTree.file_of_readDocument hdocument
  have hlocate := (FileTree.locate_of_lookup hl).1
  obtain ⟨r, ⟨i₂, t₂⟩, hr, h⟩ := exists_of_bind h
  have hjudged := sameFiles_reconcile { i with stamps := i.stamps ++ [⟨p, time⟩] }
    (i.selection.select d) expected isUser
  obtain ⟨hi, rfl⟩ := Workspace.mk.inj (Prod.mk.inj hr).2
  rw [show (reconcile { i with stamps := i.stamps ++ [⟨p, time⟩] } (i.selection.select d) expected
    isUser).2 = i₂ from hi] at hjudged
  simp only at h
  split at h
  · obtain ⟨u, w₃, hrefresh, h⟩ := exists_of_bind h
    have hadded := sameFiles_addRead w₃.inventory r.survivors
    obtain ⟨-, rfl⟩ := Prod.mk.inj h
    rcases refreshFile_ok hl hrefresh with rfl | ⟨bytes, time', files, hwrite, htime', rfl⟩
    · exact .one hlocate (.refl t) (hjudged.trans hadded) htime fun _ _ hq _ => hq
    · obtain ⟨hrewrites, -, hother⟩ := FileTree.rewrites_write hl hwrite
      exact .one hlocate hrewrites ((hjudged.restamp time').trans hadded) htime' hother
  · have hadded := sameFiles_addRead i₂ r.survivors
    obtain ⟨-, rfl⟩ := Prod.mk.inj h
    exact .one hlocate (.refl t) (hjudged.trans hadded) htime fun _ _ hq _ => hq

theorem adds_addFiles {paths : List Path}
    (h : (addFiles expected isUser paths).runOn w = (.ok (), w')) : w.Adds paths w' := by
  induction paths generalizing w with
  | nil =>
    cases h
    exact .refl _
  | cons p rest ih =>
    obtain ⟨u, w₁, hfirst, h⟩ := exists_of_bind h
    exact (adds_addFile hfirst).trans (ih h)

end Work

end

end TemplateInventory
