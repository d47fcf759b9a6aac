import TemplateInventory.FileTree
import TemplateInventory.Proofs.Listing
/-!
# What changes in a file tree

`fileAt` is the file at a place. Making directories makes nothing else
(`makes_makeDirectories`), so it keeps all files; a write changes the file at one
place, which the path names (`fileAt_write`).

A tree that has more finds at least what was found before
(`Extends.lookup`). Where a write makes a file that was not there, the directories
are those from before (`withFile_keepsDirectories`), and only the one of the file has
one more (`filesIn_withFile_other`).
-/

namespace TemplateInventory

namespace FileTree

/-- The bytes and the time of the file at a place, if there is one. -/
def fileAt (t : FileTree) (place : List String) : Option (ByteArray × Stamp) :=
  match t.entryAt place with
  | some (.file bytes modified) => some (bytes, modified)
  | _ => none

section
variable {t t' : FileTree} {p : Path} {place : List String} {bytes : ByteArray}

theorem entryAt_of_ne_nil (hne : place ≠ []) : t.entryAt place = t.entries.get? place := by
  simp [entryAt, hne]

/-- What stands at each place after one entry was put. -/
theorem entryAt_put (t : FileTree) (hne : place ≠ []) (e : Entry) (n : Nat) (place' : List String) :
    entryAt { t with entries := t.entries.put place e, writes := n } place' =
      if place = place' then some e else t.entryAt place' := by
  by_cases h : place' = []
  · subst h
    simp [entryAt, hne]
  · simp only [entryAt, List.isEmpty_iff, h, if_false, Table.get?_put]

/-! ## Making directories -/

/-- Nothing was made but directories. -/
structure Makes (t t' : FileTree) : Prop where
  workDir : t'.workDir = t.workDir
  entryAt : ∀ place, t'.entryAt place = t.entryAt place ∨
    t.entryAt place = none ∧ t'.entryAt place = some .directory

theorem Makes.refl (t : FileTree) : Makes t t := ⟨rfl, fun _ => .inl rfl⟩

theorem Makes.trans {t'' : FileTree} (h : Makes t t') (h' : Makes t' t'') : Makes t t'' where
  workDir := h'.workDir.trans h.workDir
  entryAt place := by
    rcases h.entryAt place with he | ⟨hn, hd⟩ <;> rcases h'.entryAt place with he' | ⟨hn', hd'⟩
    · exact .inl (he'.trans he)
    · exact .inr ⟨he ▸ hn', hd'⟩
    · exact .inr ⟨hn, he'.trans hd⟩
    · rw [hd] at hn'
      cases hn'

theorem Makes.fileAt (h : Makes t t') (place : List String) : t'.fileAt place = t.fileAt place := by
  unfold FileTree.fileAt
  rcases h.entryAt place with he | ⟨hn, hd⟩
  · rw [he]
  · rw [hn, hd]

theorem makes_makeDirectory (h : t.makeDirectory p = .ok t') : Makes t t' := by
  unfold makeDirectory at h
  split at h
  · cases h
  · next made _ =>
    cases he : t.entryAt made with
    | some e => rw [he] at h; cases h
    | none =>
      rw [he] at h
      have hne : made ≠ [] := by
        rintro rfl
        simp [FileTree.entryAt] at he
      simp only at h
      split at h
      · cases h
        refine ⟨rfl, fun place => ?_⟩
        rw [entryAt_put t hne .directory t.writes]
        by_cases hp : made = place
        · exact .inr ⟨hp ▸ he, if_pos hp⟩
        · exact .inl (if_neg hp)
      · cases h
      · cases h

theorem makes_ensureDirectory (h : t.ensureDirectory p = .ok t') : Makes t t' := by
  unfold ensureDirectory at h
  split at h
  · next made hm =>
    cases h
    exact makes_makeDirectory hm
  · split at h
    · cases h
      exact .refl t
    · cases h

theorem makes_attempt {f : FileTree → Except FileError FileTree}
    (h : ∀ t', f t = .ok t' → Makes t t') : Makes t (t.attempt f).2 := by
  unfold attempt
  cases hf : f t with
  | error e => exact .refl t
  | ok t' => exact h t' hf

theorem makes_makeDirectoriesUp (t : FileTree) (ps : List Path) :
    Makes t (t.makeDirectoriesUp ps).2 := by
  induction ps with
  | nil => exact .refl t
  | cons p above ih =>
    rw [makeDirectoriesUp]
    split
    · exact .refl t
    · cases hens : t.ensureDirectory p with
      | ok made => exact makes_ensureDirectory hens
      | error e =>
        by_cases he : e = .notFound
        · subst he
          simp only
          rcases hup : t.makeDirectoriesUp above with ⟨_ | _, made⟩
          all_goals rw [hup] at ih
          · exact ih
          · exact ih.trans (makes_attempt fun made' hm => makes_ensureDirectory hm)
        · cases e <;> first | exact .refl t | exact absurd rfl he

theorem makes_makeDirectories (t : FileTree) (p : Path) : Makes t (t.makeDirectories p).2 :=
  makes_makeDirectoriesUp t p.selfAndAbove

/-- Making directories keeps all files. -/
theorem fileAt_makeDirectories (t : FileTree) (p : Path) (place : List String) :
    (t.makeDirectories p).2.fileAt place = t.fileAt place :=
  (makes_makeDirectories t p).fileAt place

theorem lookup_of_isDirectory (h : t.isDirectory p = true) :
    ∃ place, t.locate p = .ok place ∧ t.entryAt place = some .directory ∧
      t.lookup p = .ok (place, .directory) := by
  unfold isDirectory lookup at h
  unfold lookup
  cases hl : t.locate p with
  | error e =>
    rw [hl] at h
    cases h
  | ok place =>
    refine ⟨place, rfl, ?_⟩
    rw [hl] at h
    simp only [Except.bind] at h ⊢
    unfold entryFor at h ⊢
    cases he : t.entryAt place with
    | none => rw [he] at h; cases h
    | some e =>
      cases e with
      | directory => exact ⟨rfl, rfl⟩
      | file bytes time =>
        rw [he] at h
        simp only at h
        by_cases hd : p.asksDirectory = true
        · rw [if_pos hd] at h
          cases h
        · rw [if_neg hd] at h
          cases h

/-- A directory that is there need not be made. -/
theorem makeDirectories_of_isDirectory (h : t.isDirectory p = true) :
    t.makeDirectories p = (.ok (), t) := by
  obtain ⟨place, hl, he, -⟩ := lookup_of_isDirectory h
  have hens : t.ensureDirectory p = .ok t := by
    simp [ensureDirectory, makeDirectory, hl, he, h]
  have hups : ∃ above, p.selfAndAbove = p :: above := by
    unfold Path.selfAndAbove
    cases p.components.length with
    | zero => exact ⟨[], rfl⟩
    | succ n =>
      rw [Path.upwards]
      split
      · exact ⟨[], rfl⟩
      · exact ⟨_, rfl⟩
  obtain ⟨above, ha⟩ := hups
  rw [makeDirectories, ha, makeDirectoriesUp, hens]
  split <;> rfl

/-! ## Writing -/

theorem locate_of_writable (h : t.writable p = .ok place) :
    t.locate p = .ok place ∧ t.entryAt place ≠ some .directory := by
  unfold writable at h
  split at h
  · cases hf : t.follow p (p.parts.dropLast ++ ["."]) with
    | error e => rw [hf] at h; cases h
    | ok q => rw [hf] at h; cases h
  · split at h
    · cases h
    · next q hq =>
      cases he : t.entryAt q with
      | none =>
        rw [he] at h
        simp only at h
        split at h
        · cases h
          exact ⟨hq, by simp [he]⟩
        · cases h
        · cases h
      | some e =>
        rw [he] at h
        cases e with
        | directory => cases h
        | file bytes time =>
          cases h
          exact ⟨hq, by simp [he]⟩

theorem ne_nil_of_writable (h : t.writable p = .ok place) : place ≠ [] := by
  rintro rfl
  exact (locate_of_writable h).2 (by simp [entryAt])

theorem exists_of_write (h : t.write p bytes = .ok t') :
    ∃ place, t.writable p = .ok place ∧
      t' = { t with
        entries := t.entries.put place (.file bytes (.written t.writes))
        writes := t.writes + 1 } := by
  unfold write at h
  split at h
  · cases h
  · next place hp =>
    cases h
    exact ⟨place, hp, rfl⟩

/-- A write makes one file and keeps the others. -/
theorem fileAt_write (h : t.write p bytes = .ok t') :
    ∃ place, t.writable p = .ok place ∧
      t'.fileAt place = some (bytes, .written t.writes) ∧
      ∀ other, other ≠ place → t'.fileAt other = t.fileAt other := by
  obtain ⟨place, hp, rfl⟩ := exists_of_write h
  have hput := entryAt_put t (ne_nil_of_writable hp) (.file bytes (.written t.writes)) (t.writes + 1)
  refine ⟨place, hp, ?_, fun other hne => ?_⟩
  · rw [fileAt, hput, if_pos rfl]
  · rw [fileAt, hput, if_neg (Ne.symm hne)]
    rfl

/-! ## Trees that have more -/

/-- What is a directory stays one. -/
structure KeepsDirectories (t t' : FileTree) : Prop where
  workDir : t'.workDir = t.workDir
  directory : ∀ place, t.entryAt place = some .directory → t'.entryAt place = some .directory

namespace KeepsDirectories

theorem walk {here parts : List String} (h : KeepsDirectories t t')
    (hw : t.walk here parts = .ok place) : t'.walk here parts = .ok place := by
  induction parts generalizing here with
  | nil => exact hw
  | cons part rest ih =>
    rw [FileTree.walk] at hw ⊢
    split at hw
    · next hdot => rw [if_pos hdot]; exact ih hw
    · next hdot =>
      rw [if_neg hdot]
      split at hw
      · next hup => rw [if_pos hup]; exact ih hw
      · next hup =>
        rw [if_neg hup]
        split at hw
        · cases hw
        · next hlong =>
          rw [if_neg hlong]
          simp only at hw ⊢
          split at hw
          · next hlast => rw [if_pos hlast]; exact hw
          · next hlast =>
            rw [if_neg hlast]
            -- Only a directory lets the walk go on.
            split at hw
            · next hd => rw [h.directory _ hd]; exact ih hw
            · cases hw
            · cases hw

theorem locate (h : KeepsDirectories t t') (hl : t.locate p = .ok place) :
    t'.locate p = .ok place := by
  unfold FileTree.locate follow reach at hl ⊢
  split at hl
  · cases hl
  · next hlong =>
    rw [if_neg hlong]
    split at hl
    · cases hl
    · next hempty =>
      rw [if_neg hempty]
      split at hl
      · cases hl
      · next hzero =>
        rw [if_neg hzero, h.workDir]
        exact h.walk hl

theorem lookup (h : KeepsDirectories t t') (hl : t.lookup p = .ok (place, .directory)) :
    t'.lookup p = .ok (place, .directory) := by
  have hd : t.isDirectory p = true := by
    unfold isDirectory
    rw [hl]
  obtain ⟨place', hp, he, hl'⟩ := lookup_of_isDirectory hd
  cases hl.symm.trans hl'
  simp [FileTree.lookup, h.locate hp, Except.bind, entryFor, h.directory place he]

end KeepsDirectories

/-- What stands somewhere stays there. -/
structure Extends (t t' : FileTree) : Prop where
  workDir : t'.workDir = t.workDir
  entryAt : ∀ place e, t.entryAt place = some e → t'.entryAt place = some e

namespace Extends

theorem trans {t'' : FileTree} (h : Extends t t') (h' : Extends t' t'') : Extends t t'' :=
  ⟨h'.workDir.trans h.workDir, fun place e he => h'.entryAt place e (h.entryAt place e he)⟩

theorem keepsDirectories (h : Extends t t') : KeepsDirectories t t' :=
  ⟨h.workDir, fun place => h.entryAt place .directory⟩

theorem lookup {found : List String × Entry} (h : Extends t t') (hl : t.lookup p = .ok found) :
    t'.lookup p = .ok found := by
  unfold FileTree.lookup at hl ⊢
  cases hp : t.locate p with
  | error e => rw [hp] at hl; cases hl
  | ok place =>
    rw [hp] at hl
    rw [h.keepsDirectories.locate hp]
    simp only [Except.bind] at hl ⊢
    unfold entryFor at hl ⊢
    cases he : t.entryAt place with
    | none => rw [he] at hl; cases hl
    | some e => rw [he] at hl; rw [h.entryAt place e he]; exact hl

end Extends

theorem Makes.extends (h : Makes t t') : Extends t t' where
  workDir := h.workDir
  entryAt place e he := by
    rcases h.entryAt place with hs | ⟨hn, -⟩
    · exact hs.trans he
    · rw [hn] at he
      cases he

/-! ## New files -/

/-- The tree with a file that was not there. -/
def withFile (t : FileTree) (place : List String) (bytes : ByteArray) (time : Stamp) : FileTree :=
  { t with entries := t.entries.put place (.file bytes time), writes := t.writes + 1 }

variable {time : Stamp}

theorem ne_nil_of_entryAt (hp : t.entryAt place = none) : place ≠ [] := by
  rintro rfl
  simp [entryAt] at hp

theorem extends_withFile (hp : t.entryAt place = none) :
    Extends t (t.withFile place bytes time) where
  workDir := rfl
  entryAt place' e he := by
    rw [withFile, entryAt_put t (ne_nil_of_entryAt hp), if_neg, he]
    rintro rfl
    rw [hp] at he
    cases he

/-- A file makes no directories. -/
theorem withFile_keepsDirectories (hne : place ≠ []) :
    KeepsDirectories (t.withFile place bytes time) t where
  workDir := rfl
  directory place' hd := by
    rw [withFile, entryAt_put t hne] at hd
    split at hd
    · cases hd
    · exact hd

/-- Where a path leads to the new file, it is found. -/
theorem found_withFile {found : List String × Entry} (hp : t.entryAt place = none)
    (hl : (t.withFile place bytes time).locate p = .ok place)
    (h : (t.withFile place bytes time).lookup p = .ok found) :
    found = (place, .file bytes time) := by
  have he : (t.withFile place bytes time).entryAt place = some (.file bytes time) :=
    (entryAt_put t (ne_nil_of_entryAt hp) _ _ place).trans (if_pos rfl)
  rw [lookup, hl] at h
  simp only [Except.bind, entryFor, he] at h
  split at h
  · cases h
  · cases h
    rfl

theorem holds_eq_false (hl : t.locate p = .ok place) (hp : t.entryAt place = none) :
    t.holds p = false := by
  simp [holds, lookup, hl, Except.bind, entryFor, hp]

/-- The name and time of an entry, if it is a file directly in a directory. -/
def fileBelow (directory : List String) : List String × Entry → Option (String × Stamp)
  | (place, .file _ time) =>
    if place.dropLast == directory then place.getLast?.map fun name => (name, time) else none
  | (_, .directory) => none

theorem filesIn_of_directory (hl : t.lookup p = .ok (place, .directory)) :
    t.filesIn p = t.entries.entries.filterMap (fileBelow place) := by
  rw [filesIn, hl]
  refine congrArg (fun f => t.entries.entries.filterMap f) (funext fun x => ?_)
  obtain ⟨place', e⟩ := x
  cases e <;> rfl

theorem directory_of_filesIn (h : t.filesIn p ≠ []) :
    ∃ place, t.lookup p = .ok (place, .directory) := by
  unfold filesIn at h
  split at h
  · next place hl => exact ⟨place, hl⟩
  · exact absurd rfl h

/-- A directory where a new file is not has the files that it had. -/
theorem filesIn_withFile_other (hp : t.entryAt place = none)
    (ho : (t.withFile place bytes time).lookup p ≠ .ok (place.dropLast, .directory)) :
    (t.withFile place bytes time).filesIn p = t.filesIn p := by
  have hne := ne_nil_of_entryAt hp
  have hnew : t.entries.get? place = none := by rwa [entryAt_of_ne_nil hne] at hp
  by_cases hd : ∃ directory, t.lookup p = .ok (directory, .directory)
  · obtain ⟨directory, hl⟩ := hd
    have hx : Extends t (t.withFile place bytes time) := extends_withFile hp
    have hl' := hx.lookup hl
    have hout : ¬ place.dropLast = directory := by
      rintro rfl
      exact ho hl'
    rw [filesIn_of_directory hl, filesIn_of_directory hl', withFile]
    simp only [Table.put]
    rw [putEntry_of_not_mem _ ((Table.get?_eq_none_iff _ _).1 hnew), List.filterMap_append]
    simp [fileBelow, hout]
  · have hd' : ¬ ∃ directory, (t.withFile place bytes time).lookup p = .ok (directory, .directory) := by
      rintro ⟨directory, hl⟩
      exact hd ⟨directory, (withFile_keepsDirectories hne).lookup hl⟩
    rw [Classical.not_not.1 (mt directory_of_filesIn hd), Classical.not_not.1 (mt directory_of_filesIn hd')]

/-- A write that brings a file to an empty directory makes that file. -/
theorem eq_withFile_of_write {directory : Path} (h : t.write p bytes = .ok t')
    (hbefore : t.filesIn directory = []) (hafter : t'.filesIn directory ≠ []) :
    ∃ place, t.writable p = .ok place ∧ t.entryAt place = none ∧
      t' = t.withFile place bytes (.written t.writes) ∧
      t'.lookup directory = .ok (place.dropLast, .directory) := by
  obtain ⟨place, hp, rfl⟩ := exists_of_write h
  have hne := ne_nil_of_writable hp
  obtain ⟨inside, hl'⟩ := directory_of_filesIn hafter
  have hl : t.lookup directory = .ok (inside, .directory) :=
    (withFile_keepsDirectories hne).lookup hl'
  have hnone : ∀ x ∈ t.entries.entries, fileBelow inside x = none := by
    rwa [filesIn_of_directory hl, List.filterMap_eq_nil_iff] at hbefore
  have hin : place.dropLast = inside := by
    rw [filesIn_of_directory hl', ne_eq, List.filterMap_eq_nil_iff] at hafter
    refine Classical.byContradiction fun hout => hafter fun x hx => ?_
    obtain ⟨place', e⟩ := x
    rw [Table.mem_entries_iff, Table.get?_put] at hx
    split at hx
    · next he =>
      cases hx
      subst he
      simp [fileBelow, hout]
    · exact hnone _ (Table.mem_entries_iff.2 hx)
  refine ⟨place, hp, ?_, rfl, hin ▸ hl'⟩
  cases he : t.entryAt place with
  | none => rfl
  | some e =>
    cases e with
    | directory => exact absurd he (locate_of_writable hp).2
    | file bytes' time' =>
      rw [entryAt_of_ne_nil hne] at he
      have hno := hnone _ (Table.mem_entries_iff.2 he)
      simp [fileBelow, hin, hne] at hno

end

end FileTree

end TemplateInventory
