import TemplateInventory.Proofs.Places
/-!
# Files that are written again

A write to a file that is there gives it other bytes and another time, and does nothing
else (`rewrites_write`). Paths lead where they led, and patterns find the files that
they found: `Rewrites`.

Stamps are `Current` if the files have these times. What a pattern lists is current,
where all names can stand in a directory (`modified_of_mem_scan`); and no two of the
listed paths lead to one file (`apart_scan`), nor do those of two directories
(`locate_ne_of_scan`).
-/

namespace TemplateInventory

/-- Putting a value where there was one changes nothing that does not depend on it. -/
theorem map_putEntry {κ α β : Type} [DecidableEq κ] {k : κ} {v old : α} {es : List (κ × α)}
    {f : κ × α → β} (h : findEntry k es = some old) (hf : f (k, v) = f (k, old)) :
    (putEntry k v es).map f = es.map f := by
  induction es with
  | nil => cases h
  | cons e es ih =>
    obtain ⟨k', v'⟩ := e
    rw [findEntry] at h
    rw [putEntry]
    split at h
    · next hk =>
      subst hk
      cases h
      rw [if_pos rfl, List.map_cons, List.map_cons, hf]
    · next hk => rw [if_neg hk, List.map_cons, List.map_cons, ih h]

namespace FileTree

/-- A place with whether it is that of a file. -/
def outline : List String × Entry → List String × Bool
  | (place, .file _ _) => (place, true)
  | (place, .directory) => (place, false)

/-- Whether all names are such as can stand in a directory. -/
def Named (t : FileTree) : Prop := ∀ place ∈ t.entries.keys, ∀ name ∈ place, IsComponent name

instance (t : FileTree) : Decidable t.Named :=
  inferInstanceAs (Decidable (∀ place ∈ t.entries.keys, ∀ name ∈ place, IsComponent name))

/-- Where the directory of a path is. -/
def directoryAt (t : FileTree) (p : Path) : Option (List String) :=
  match t.lookup p with
  | .ok (place, .directory) => some place
  | _ => none

/-- Whether nothing but the bytes and times of files has changed. -/
structure Rewrites (t t' : FileTree) : Prop where
  workDir : t'.workDir = t.workDir
  outline : t'.entries.entries.map FileTree.outline = t.entries.entries.map FileTree.outline

/-- Whether the files have the times that some stamps tell. -/
def Current (t : FileTree) (stamps : List FileStamp) : Prop :=
  ∀ s ∈ stamps, t.modified s.path = .ok s.modified

/-- Whether no two of some paths lead to one place. -/
def Apart (t : FileTree) (paths : List Path) : Prop :=
  paths.Pairwise fun p q => ∀ place, t.locate p = .ok place → t.locate q ≠ .ok place

section
variable {t t' t'' : FileTree} {p q d d' : Path} {place : List String} {bytes : ByteArray}
  {time : Stamp} {pattern pattern' : FilePattern} {s : FileStamp} {name : String}

theorem directoryAt_eq_some : t.directoryAt p = some place ↔ t.lookup p = .ok (place, .directory) := by
  unfold directoryAt
  split
  · next place' hl => rw [hl]; simp
  · next hno => exact ⟨nofun, fun hl => absurd hl (hno place)⟩

/-! ## The same outline -/

namespace Rewrites

theorem refl (t : FileTree) : Rewrites t t := ⟨rfl, rfl⟩

theorem symm (h : Rewrites t t') : Rewrites t' t := ⟨h.workDir.symm, h.outline.symm⟩

theorem trans (h : Rewrites t t') (h' : Rewrites t' t'') : Rewrites t t'' :=
  ⟨h'.workDir.trans h.workDir, h'.outline.trans h.outline⟩

theorem keys (h : Rewrites t t') : t'.entries.keys = t.entries.keys := by
  have hfst : ∀ e, (FileTree.outline e).1 = e.1 := by
    rintro ⟨place, _ | _⟩ <;> rfl
  have hkeys := congrArg (List.map Prod.fst) h.outline
  simpa [Function.comp_def, hfst, Table.keys] using hkeys

theorem named (h : Rewrites t t') (hn : t.Named) : t'.Named := by
  unfold Named
  rw [h.keys]
  exact hn

theorem keepsDirectories (h : Rewrites t t') : KeepsDirectories t t' := by
  refine ⟨h.workDir, fun place hd => ?_⟩
  by_cases hne : place = []
  · simp [hne, entryAt]
  rw [entryAt_of_ne_nil hne, ← Table.mem_entries_iff] at hd ⊢
  have hmem : (place, false) ∈ t'.entries.entries.map FileTree.outline :=
    h.outline ▸ List.mem_map.2 ⟨_, hd, rfl⟩
  obtain ⟨⟨place', e⟩, he, heq⟩ := List.mem_map.1 hmem
  cases e with
  | directory => cases heq; exact he
  | file bytes time => cases heq

theorem locate_iff (h : Rewrites t t') : t'.locate p = .ok place ↔ t.locate p = .ok place :=
  ⟨h.symm.keepsDirectories.locate, h.keepsDirectories.locate⟩

theorem directoryAt (h : Rewrites t t') (p : Path) : t'.directoryAt p = t.directoryAt p := by
  refine Option.ext fun place => ?_
  rw [directoryAt_eq_some, directoryAt_eq_some]
  exact ⟨h.symm.keepsDirectories.lookup, h.keepsDirectories.lookup⟩

theorem apart {paths : List Path} (h : Rewrites t t') (ha : t.Apart paths) : t'.Apart paths :=
  List.Pairwise.imp (fun hpq place hp hq => hpq place (h.locate_iff.1 hp) (h.locate_iff.1 hq)) ha

/-- The name that a file directly in a directory has. -/
def nameBelow (directory : List String) : List String × Bool → Option String
  | (place, true) => if place.dropLast == directory then place.getLast? else none
  | (_, false) => none

/-- The directories have files of the same names, in the same order. -/
theorem filesIn (h : Rewrites t t') (d : Path) :
    (t'.filesIn d).map Prod.fst = (t.filesIn d).map Prod.fst := by
  have hbelow : ∀ place e,
      (fileBelow place e).map Prod.fst = nameBelow place (FileTree.outline e) := by
    rintro place ⟨place', _ | _⟩
    · rfl
    · simp only [fileBelow, FileTree.outline, nameBelow]
      split <;> simp [Function.comp_def]
  have hnames : ∀ (t : FileTree) place, t.lookup d = .ok (place, .directory) →
      (t.filesIn d).map Prod.fst =
        (t.entries.entries.map FileTree.outline).filterMap (nameBelow place) := by
    intro t place hl
    rw [filesIn_of_directory hl, List.map_filterMap, List.filterMap_map]
    exact congrArg (fun f => t.entries.entries.filterMap f) (funext (hbelow place))
  cases hd : t.directoryAt d with
  | some place =>
    have hl := directoryAt_eq_some.1 hd
    rw [hnames t place hl, hnames t' place (h.keepsDirectories.lookup hl), h.outline]
  | none =>
    -- Neither path names a directory.
    have hnone : ∀ t : FileTree, t.directoryAt d = none → t.filesIn d = [] := fun t hno =>
      Classical.byContradiction fun hne => by
        obtain ⟨place, hl⟩ := directory_of_filesIn hne
        rw [directoryAt_eq_some.2 hl] at hno
        cases hno
    rw [hnone t hd, hnone t' ((h.directoryAt d).trans hd)]

theorem names (h : Rewrites t t') (pattern : FilePattern) (d : Path) :
    pattern.names t' d = pattern.names t d := by
  rw [FilePattern.names, h.filesIn d]
  rfl

end Rewrites

/-! ## One file written again -/

/-- A path names what it named where the entry at its place is the same. -/
theorem lookup_of_entryAt {e : Entry} (hl : t.lookup p = .ok (place, e))
    (hp : t'.locate p = .ok place) (he : t'.entryAt place = t.entryAt place) :
    t'.lookup p = .ok (place, e) := by
  rw [← hl, lookup, lookup, hp, (locate_of_lookup hl).1]
  simp only [Except.bind, entryFor, he]

/-- A path that names a file may be written to, and names one then. -/
theorem lookup_of_file {old : ByteArray} {m : Stamp} (hl : t.lookup p = .ok (place, .file old m))
    (hp : t'.locate p = .ok place) (he : t'.entryAt place = some (.file bytes time)) :
    t'.lookup p = .ok (place, .file bytes time) := by
  obtain ⟨hlocate, hentry⟩ := locate_of_lookup hl
  rw [lookup, hlocate] at hl
  rw [lookup, hp]
  simp only [Except.bind, entryFor, hentry, he] at hl ⊢
  split at hl
  · cases hl
  · next hasks => rw [if_neg hasks]

/-- A write to a file gives it the time of the write, and the files at other places keep
theirs. -/
theorem rewrites_write {old : ByteArray} {m : Stamp} (hl : t.lookup p = .ok (place, .file old m))
    (h : t.write p bytes = .ok t') :
    Rewrites t t' ∧ t'.modified p = .ok (.written t.writes) ∧
      ∀ q time, t.modified q = .ok time → t.locate q ≠ .ok place → t'.modified q = .ok time := by
  obtain ⟨hlocate, hentry⟩ := locate_of_lookup hl
  obtain ⟨place', hp, rfl⟩ := exists_of_write h
  obtain rfl : place' = place := Except.ok.inj ((locate_of_writable hp).1.symm.trans hlocate)
  have hne := ne_nil_of_writable hp
  have hput := entryAt_put t hne (.file bytes (.written t.writes)) (t.writes + 1)
  have hrewrites : Rewrites t { t with
      entries := t.entries.put place' (.file bytes (.written t.writes)), writes := t.writes + 1 } := by
    rw [entryAt_of_ne_nil hne] at hentry
    exact ⟨rfl, map_putEntry hentry rfl⟩
  refine ⟨hrewrites, ?_, fun q time ht hq => ?_⟩
  · rw [modified, lookup_of_file hl (hrewrites.locate_iff.2 hlocate) ((hput place').trans (if_pos rfl))]
  · unfold modified at ht ⊢
    cases hlq : t.lookup q with
    | error e => rw [hlq] at ht; cases ht
    | ok found =>
      obtain ⟨other, e⟩ := found
      have hother := (locate_of_lookup hlq).1
      have hdiff : place' ≠ other := by
        rintro rfl
        exact hq hother
      rw [lookup_of_entryAt hlq (hrewrites.locate_iff.2 hother) ((hput other).trans (if_neg hdiff))]
      rw [hlq] at ht
      exact ht

/-! ## What is listed -/

/-- A file in a directory is at the place of its name there. -/
theorem entryAt_of_mem_filesIn (hn : t.Named) (h : (name, time) ∈ t.filesIn d) :
    ∃ place bytes, t.directoryAt d = some place ∧ IsComponent name ∧
      t.entryAt (place ++ [name]) = some (.file bytes time) := by
  obtain ⟨place, hl⟩ := directory_of_filesIn (List.ne_nil_of_mem h)
  obtain ⟨bytes, he⟩ := (mem_filesIn hl).1 h
  refine ⟨place, bytes, directoryAt_eq_some.2 hl, ?_, he⟩
  rw [entryAt_of_ne_nil (by simp)] at he
  have hkey : place ++ [name] ∈ t.entries.keys := by
    rw [← Table.contains_iff, Table.contains, he]
    rfl
  exact hn _ hkey name (by simp)

/-- A file is listed with the time that it has. -/
theorem modified_of_mem_scan (hn : t.Named) (hs : s ∈ pattern.scan t d)
    (h : t.modified s.path = .ok time) : s.modified = time := by
  obtain ⟨name, time', hmem, -, rfl⟩ := FilePattern.mem_scan.1 hs
  obtain ⟨place, bytes, hd, hcomponent, he⟩ := entryAt_of_mem_filesIn hn hmem
  unfold modified at h
  cases hl : t.lookup (d.child name) with
  | error e => rw [hl] at h; cases h
  | ok found =>
    obtain ⟨place', e⟩ := found
    obtain ⟨hlocate, hentry⟩ := locate_of_lookup hl
    obtain rfl := locate_child (directoryAt_eq_some.1 hd) hcomponent hlocate
    cases he.symm.trans hentry
    rw [hl] at h
    exact Except.ok.inj h

/-- Where the path of a listed file leads. -/
theorem place_of_mem_names (hn : t.Named) (hmem : name ∈ pattern.names t d)
    (hl : t.locate (d.child name) = .ok place) :
    ∃ here, t.directoryAt d = some here ∧ place = here ++ [name] := by
  obtain ⟨⟨time, hfile⟩, -⟩ := FilePattern.mem_names.1 hmem
  obtain ⟨here, bytes, hd, hcomponent, -⟩ := entryAt_of_mem_filesIn hn hfile
  exact ⟨here, hd, locate_child (directoryAt_eq_some.1 hd) hcomponent hl⟩

/-- Files that are listed in one directory are different ones. -/
theorem apart_scan (hn : t.Named) (pattern : FilePattern) (d : Path) :
    t.Apart ((pattern.scan t d).map FileStamp.path) := by
  rw [FilePattern.map_path_scan, Apart, List.pairwise_map]
  refine List.Pairwise.imp_of_mem ?_ (pattern.nodup_names t d)
  intro name name' hmem hmem' hne place hl hl'
  obtain ⟨here, -, rfl⟩ := place_of_mem_names hn hmem hl
  obtain ⟨there, -, heq⟩ := place_of_mem_names hn hmem' hl'
  exact hne (List.cons.inj (List.append_inj' heq rfl).2).1

/-- Files that are listed in two directories are different ones. -/
theorem locate_ne_of_scan (hn : t.Named)
    (hd : ∀ place ∈ t.directoryAt d, place ∉ t.directoryAt d')
    (hp : p ∈ (pattern.scan t d).map FileStamp.path)
    (hq : q ∈ (pattern'.scan t d').map FileStamp.path) :
    t.locate p = .ok place → t.locate q ≠ .ok place := by
  intro hlp hlq
  rw [FilePattern.map_path_scan] at hp hq
  obtain ⟨name, hmem, rfl⟩ := List.mem_map.1 hp
  obtain ⟨name', hmem', rfl⟩ := List.mem_map.1 hq
  obtain ⟨here, hhere, rfl⟩ := place_of_mem_names hn hmem hlp
  obtain ⟨there, hthere, heq⟩ := place_of_mem_names hn hmem' hlq
  obtain ⟨rfl, -⟩ := List.append_inj' heq rfl
  exact hd here hhere hthere

end

end FileTree

end TemplateInventory
