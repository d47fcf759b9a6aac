import TemplateInventory.Proofs.LoadOrder
import TemplateInventory.Proofs.Stamps
/-!
# Nothing has changed

After a load and further calls that succeed, the stamps are those that a scan of the
directories finds (`files_unchanged`). So while nobody else touches the files there is
nothing to load again, although loading may write files itself.

The files of one more directory are stamped as they are listed, and the stamps of the
directories before stay right, since their files are others (`Work.takes_addDirectory`).
`Workspace.KeepsWatch` is what each call does to this; `Watched` are the workspaces that
such calls lead to.
-/

namespace TemplateInventory

open Holdings Inventory

/-! ## What directories list -/

/-- Whether some directories hold the files under some paths, in order. -/
def Inventory.Lists (i : Inventory) (files : FileTree) (sources : List Source)
    (paths : List Path) : Prop :=
  ∃ found, i.filesOfAll files sources = .ok found ∧ found.map FileStamp.path = paths

/-- Whether no two of some directories are at one place. -/
def FileTree.OnePath (t : FileTree) (sources : List Source) : Prop :=
  sources.Pairwise fun s s' => ∀ place ∈ t.directoryAt s.path, place ∉ t.directoryAt s'.path

instance (t : FileTree) (sources : List Source) : Decidable (t.OnePath sources) :=
  inferInstanceAs (Decidable (sources.Pairwise fun s s' =>
    ∀ place ∈ t.directoryAt s.path, place ∉ t.directoryAt s'.path))

/-- Whether every directory of the inventory is known under one path. -/
def Workspace.OnePath (w : Workspace) : Prop := w.files.OnePath w.inventory.known

instance (w : Workspace) : Decidable w.OnePath :=
  inferInstanceAs (Decidable (w.files.OnePath w.inventory.known))

/-- Whether the stamps are those of the files in some directories. -/
structure Workspace.Stamped (w : Workspace) (sources : List Source) : Prop where
  listed : w.inventory.Lists w.files sources (w.inventory.stamps.map FileStamp.path)
  current : w.files.Current w.inventory.stamps

section
variable {i i' : Inventory} {t t' : FileTree} {kind : SourceKind} {d p : Path} {s : Source}
  {sources sources' : List Source} {paths paths' : List Path} {found : List FileStamp}

theorem Inventory.scan_of_filesOf (h : i.filesOf t kind d = .ok found) :
    ∃ pattern, i.patternFor kind = .ok pattern ∧ found = pattern.scan t d := by
  unfold filesOf at h
  cases hp : i.patternFor kind with
  | error e => rw [hp] at h; cases h
  | ok pattern =>
    rw [hp] at h
    cases h
    exact ⟨pattern, rfl, rfl⟩

theorem FileTree.Rewrites.onePath (h : t.Rewrites t') (ho : t.OnePath sources) :
    t'.OnePath sources := by
  refine List.Pairwise.imp (fun hpair => ?_) ho
  rw [h.directoryAt, h.directoryAt]
  exact hpair

namespace Inventory

theorem lists_nil : i.Lists t [] [] := ⟨[], rfl, rfl⟩

theorem lists_cons : i.Lists t (s :: sources) paths ↔ ∃ pattern rest,
    i.patternFor s.kind = .ok pattern ∧ i.Lists t sources rest ∧
      paths = (pattern.scan t s.path).map FileStamp.path ++ rest := by
  unfold Lists
  rw [filesOfAll, filesOf]
  constructor
  · rintro ⟨found, hf, rfl⟩
    cases hp : i.patternFor s.kind with
    | error e => rw [hp] at hf; cases hf
    | ok pattern =>
      rw [hp] at hf
      simp only [Except.map] at hf
      cases hr : i.filesOfAll t sources with
      | error e => rw [hr] at hf; cases hf
      | ok rest =>
        rw [hr] at hf
        cases hf
        exact ⟨pattern, _, rfl, ⟨rest, rfl, rfl⟩, List.map_append⟩
  · rintro ⟨pattern, _, hp, ⟨rest, hr, rfl⟩, rfl⟩
    rw [hp, hr]
    exact ⟨_, rfl, List.map_append⟩

theorem Lists.append (h : i.Lists t sources paths) (h' : i.Lists t sources' paths') :
    i.Lists t (sources ++ sources') (paths ++ paths') := by
  induction sources generalizing paths with
  | nil =>
    obtain ⟨found, hf, rfl⟩ := h
    cases hf
    exact h'
  | cons s rest ih =>
    obtain ⟨pattern, rest, hp, hr, rfl⟩ := lists_cons.1 h
    rw [List.append_assoc]
    exact lists_cons.2 ⟨pattern, _, hp, ih hr, rfl⟩

/-- Rewritten files are listed as before. -/
theorem Lists.rewrites (h : i.Lists t sources paths) (hr : t.Rewrites t') :
    i.Lists t' sources paths := by
  induction sources generalizing paths with
  | nil => exact h
  | cons s rest ih =>
    obtain ⟨pattern, rest, hp, hrest, rfl⟩ := lists_cons.1 h
    refine lists_cons.2 ⟨pattern, rest, hp, ih hrest, ?_⟩
    rw [FilePattern.map_path_scan, FilePattern.map_path_scan, hr.names]

theorem Lists.congr (h : i.Lists t sources paths)
    (hp : ∀ s ∈ sources, i'.patternFor s.kind = i.patternFor s.kind) : i'.Lists t sources paths := by
  induction sources generalizing paths with
  | nil => exact h
  | cons s rest ih =>
    obtain ⟨pattern, rest, hpattern, hrest, rfl⟩ := lists_cons.1 h
    refine lists_cons.2 ⟨pattern, rest, ?_, ih hrest fun s' hs => hp s' (List.mem_cons_of_mem s hs), rfl⟩
    rw [hp s List.mem_cons_self, hpattern]

theorem Lists.mem (h : i.Lists t sources paths) (hp : p ∈ paths) :
    ∃ s ∈ sources, ∃ pattern : FilePattern, p ∈ (pattern.scan t s.path).map FileStamp.path := by
  induction sources generalizing paths with
  | nil =>
    obtain ⟨found, hf, rfl⟩ := h
    cases hf
    cases hp
  | cons s rest ih =>
    obtain ⟨pattern, rest, -, hrest, rfl⟩ := lists_cons.1 h
    rcases List.mem_append.1 hp with hp | hp
    · exact ⟨s, List.mem_cons_self, pattern, hp⟩
    · obtain ⟨s', hs', hlisted⟩ := ih hrest hp
      exact ⟨s', List.mem_cons_of_mem s hs', hlisted⟩

/-- Directories at different places have different files. -/
theorem Lists.apart (h : i.Lists t sources paths) (hn : t.Named) (ho : t.OnePath sources) :
    t.Apart paths := by
  induction sources generalizing paths with
  | nil =>
    obtain ⟨found, hf, rfl⟩ := h
    cases hf
    exact .nil
  | cons s rest ih =>
    obtain ⟨pattern, rest, -, hrest, rfl⟩ := lists_cons.1 h
    obtain ⟨hfirst, hothers⟩ := List.pairwise_cons.1 ho
    refine List.pairwise_append.2 ⟨FileTree.apart_scan hn pattern s.path, ih hrest hothers, ?_⟩
    intro p hp q hq place
    obtain ⟨s', hs', pattern', hq⟩ := hrest.mem hq
    exact FileTree.locate_ne_of_scan hn (hfirst s' hs') hp hq

end Inventory

/-- Files are listed with the times that they have. -/
theorem Inventory.modified_of_mem_filesOfAll {a : FileStamp} {time : Stamp} (hn : t.Named)
    (hf : i.filesOfAll t sources = .ok found) (ha : a ∈ found) (ht : t.modified a.path = .ok time) :
    a.modified = time := by
  induction sources generalizing found with
  | nil =>
    cases hf
    cases ha
  | cons s rest ih =>
    rw [filesOfAll] at hf
    cases hfirst : i.filesOf t s.kind s.path with
    | error e => rw [hfirst] at hf; cases hf
    | ok first =>
      cases hothers : i.filesOfAll t rest with
      | error e => rw [hfirst, hothers] at hf; cases hf
      | ok others =>
        rw [hfirst, hothers] at hf
        cases hf
        obtain ⟨pattern, -, rfl⟩ := scan_of_filesOf hfirst
        rcases List.mem_append.1 ha with ha | ha
        · exact FileTree.modified_of_mem_scan hn ha ht
        · exact ih hothers ha

/-- Stamps of the same files with the times that these have are the same. -/
theorem FileTree.Current.eq {stamps : List FileStamp} (hc : t.Current stamps)
    (hp : found.map FileStamp.path = stamps.map FileStamp.path)
    (hf : ∀ a ∈ found, ∀ time, t.modified a.path = .ok time → a.modified = time) :
    found = stamps := by
  induction found generalizing stamps with
  | nil => exact (List.map_eq_nil_iff.1 hp.symm).symm
  | cons a found ih =>
    obtain ⟨b, rest, rfl, hpath, hrest⟩ := List.map_eq_cons_iff.1 hp.symm
    have htime := hf a List.mem_cons_self b.modified (hpath ▸ hc b List.mem_cons_self)
    have hothers := ih (fun s hs => hc s (List.mem_cons_of_mem b hs)) hrest.symm
      fun s hs => hf s (List.mem_cons_of_mem a hs)
    obtain ⟨path, time⟩ := a
    obtain ⟨path', time'⟩ := b
    subst hothers
    simp only at hpath htime
    rw [hpath, htime]

/-- Where the stamps are those of the files, a scan of the directories finds just them. -/
theorem Workspace.Stamped.filesOfAll {w : Workspace} (hs : w.Stamped sources) (hn : w.files.Named) :
    w.inventory.filesOfAll w.files sources = .ok w.inventory.stamps := by
  obtain ⟨found, hf, hpaths⟩ := hs.listed
  rw [hf, hs.current.eq hpaths fun a ha time => modified_of_mem_filesOfAll hn hf ha]

end

/-! ## Adding directories -/

/-- Whether the files of some directories were read and stamped on the way from one
workspace to another. The stamps are those of these and of earlier directories, if they
were so of the earlier ones, and no two are at one place. -/
structure Workspace.Takes (added : List Source) (w w' : Workspace) : Prop where
  files : w.files.Rewrites w'.files
  settings : w.inventory.SameSettings w'.inventory
  stamped : ∀ done, w.files.Named → w.files.OnePath (done ++ added) → w.Stamped done →
    w'.Stamped (done ++ added)

section
variable {w w' w'' : Workspace} {added added' : List Source} {s : Source} {d : Path} {expected : Int}

namespace Workspace.Takes

theorem refl (w : Workspace) : Takes [] w w where
  files := .refl w.files
  settings := (SameFiles.refl w.inventory).settings
  stamped done _ _ hs := by rwa [List.append_nil]

theorem trans (h : Takes added w w') (h' : Takes added' w' w'') : Takes (added ++ added') w w'' where
  files := h.files.trans h'.files
  settings := h.settings.trans h'.settings
  stamped done hn ho hs := by
    rw [← List.append_assoc] at ho ⊢
    have hfirst := h.stamped done hn (List.pairwise_append.1 ho).1 hs
    exact h'.stamped _ (h.files.named hn) (h.files.onePath ho) hfirst

end Workspace.Takes

namespace Work

/-- The files of a directory are stamped as they are listed. -/
theorem takes_addDirectory (h : (addDirectory s.kind expected s.path).runOn w = (.ok (), w')) :
    w.Takes [s] w' := by
  obtain ⟨found, w₁, hask, h⟩ := exists_of_bind h
  obtain ⟨hf, rfl⟩ := Prod.mk.inj hask
  obtain ⟨pattern, hp, rfl⟩ := scan_of_filesOf hf
  have ha := adds_addFiles h
  refine ⟨ha.files, ha.settings, fun done hn ho hs => ?_⟩
  have hlisted := hs.listed.append (lists_cons.2 ⟨pattern, [], hp, lists_nil, rfl⟩)
  rw [List.append_nil, ← ha.paths] at hlisted
  refine ⟨(hlisted.rewrites ha.files).congr fun s _ => ha.settings.patternFor s.kind, ?_⟩
  rw [ha.paths] at hlisted
  exact ha.current hs.current (hlisted.apart hn ho)

theorem takes_addSources {sources : List Source}
    (h : (addSources sources).runOn w = (.ok (), w')) : w.Takes sources w' := by
  induction sources generalizing w with
  | nil =>
    cases h
    exact .refl _
  | cons s rest ih =>
    obtain ⟨i, w₁, hi, h⟩ := exists_of_bind h
    cases hi
    obtain ⟨u, w₁, hfirst, h⟩ := exists_of_bind h
    exact (takes_addDirectory hfirst).trans (ih h)

end Work

end

/-! ## Calls -/

/-- Whether the directories that are taken for those of user files are the one of the
inventory. -/
def Inventory.KnowsUserFiles (i : Inventory) : Prop :=
  ∀ e ∈ i.sources.entries, e.2.kind = .userOverrides →
    i.userDirectory.map Path.components = some e.1

theorem Inventory.knowsUserFiles_of_shipped {i : Inventory}
    (h : ∀ e ∈ i.sources.entries, e.2.kind = .shipped) : i.KnowsUserFiles := fun e he hk => by
  rw [h e he] at hk
  cases hk

/-- A new inventory has shipped files only. -/
theorem Inventory.shipped_of_make {i : Inventory} {directories : List Path}
    {pattern selection : String} {schema : KeySchema} {version : Int}
    (h : make directories pattern selection schema version = .ok i) :
    ∀ e ∈ i.sources.entries, e.2.kind = .shipped := by
  have hfold : ∀ t : Table (List String) Source, (∀ e ∈ t.entries, e.2.kind = .shipped) →
      ∀ e ∈ (directories.foldl (fun t d => addSource t d .shipped) t).entries,
        e.2.kind = .shipped := by
    clear h
    induction directories with
    | nil => exact fun t ht => ht
    | cons d rest ih =>
      refine fun t ht => ih (addSource t d .shipped) fun e he => ?_
      unfold addSource at he
      split at he
      all_goals
        rw [Table.mem_entries_iff, Table.get?_put] at he
        split at he
        · rw [← Option.some.inj he]
        · exact ht e (Table.mem_entries_iff.2 he)
  unfold make at h
  split at h
  · cases h
  · split at h
    · cases h
    · cases h
      exact hfold .empty nofun

/-- What a call keeps: directories that are known, and right stamps for all of them if
no two are at one place. -/
structure Workspace.KeepsWatch (w w' : Workspace) : Prop where
  files : w.files.Rewrites w'.files
  known : w.inventory.known <+: w'.inventory.known
  userFiles : w.inventory.KnowsUserFiles → w'.inventory.KnowsUserFiles
  stamped : w.files.Named → w.inventory.KnowsUserFiles → w'.OnePath →
    w.Stamped w.inventory.known → w'.Stamped w'.inventory.known

section
variable {w w' w'' : Workspace} {i : Inventory} {d : Path} {kind : SourceKind}
  {scope : Option String} {expected : Int}

namespace Workspace.KeepsWatch

theorem refl (w : Workspace) : KeepsWatch w w :=
  ⟨.refl w.files, List.prefix_rfl, fun hu => hu, fun _ _ _ hs => hs⟩

theorem trans (h : KeepsWatch w w') (h' : KeepsWatch w' w'') : KeepsWatch w w'' where
  files := h.files.trans h'.files
  known := h.known.trans h'.known
  userFiles hu := h'.userFiles (h.userFiles hu)
  stamped hn hu ho hs := by
    refine h'.stamped (h.files.named hn) (h.userFiles hu) ho (h.stamped hn hu ?_ hs)
    exact List.Pairwise.sublist h'.known.sublist (h'.files.symm.onePath ho)

theorem of_sameFiles (h : w.inventory.SameFiles i) : KeepsWatch w { w with inventory := i } := by
  obtain ⟨_, _, _, _, rfl⟩ := h
  refine ⟨.refl w.files, List.prefix_rfl, fun hu => hu, fun _ _ _ hs => ⟨?_, hs.current⟩⟩
  exact hs.listed.congr fun _ _ => rfl

end Workspace.KeepsWatch

theorem Inventory.entries_addSource (h : i.sources.contains d.components = false) (kind : SourceKind) :
    (addSource i.sources d kind).entries = i.sources.entries ++ [(d.components, ⟨d, kind⟩)] := by
  have hnone : i.sources.get? d.components = none := by
    simpa [Table.contains] using h
  rw [addSource, hnone]
  exact putEntry_of_not_mem _ ((Table.get?_eq_none_iff _ _).1 hnone)

/-- A directory that is registered is found by the same pattern as the directories before;
one of user files, since it is the first of its kind. -/
theorem Workspace.Takes.keepsWatch {i : Inventory} {t : FileTree}
    (hnew : i.sources.contains d.components = false)
    (hkind : kind = .shipped ∧ scope = i.scope ∨
      kind = .userOverrides ∧ i.userDirectory = some d)
    (h : Takes [⟨d, kind⟩] ⟨{ i with
      version := expected
      scope := scope
      sources := addSource i.sources d kind }, t⟩ w') : KeepsWatch ⟨i, t⟩ w' := by
  have hsources : w'.inventory.sources.entries =
      i.sources.entries ++ [(d.components, ⟨d, kind⟩)] := by
    rw [h.settings.sources]
    exact entries_addSource hnew kind
  have hknown : w'.inventory.known = i.known ++ [⟨d, kind⟩] := by
    simp [known, hsources]
  have huser : w'.inventory.userDirectory = i.userDirectory := h.settings.userDirectory
  refine ⟨h.files, hknown ▸ List.prefix_append _ _, fun hu e he hk => ?_, fun hn hu ho hs => ?_⟩
  · rw [hsources] at he
    rw [huser]
    rcases List.mem_append.1 he with he | he
    · exact hu e he hk
    · rw [List.mem_singleton.1 he] at hk ⊢
      rcases hkind with ⟨rfl, -⟩ | ⟨-, hd⟩
      · cases hk
      · rw [hd]
        rfl
  · rw [OnePath, hknown] at ho
    rw [hknown]
    refine h.stamped i.known hn (h.files.symm.onePath ho) ⟨hs.listed.congr fun s hs => ?_, hs.current⟩
    rcases hkind with ⟨-, rfl⟩ | ⟨-, hd⟩
    · rfl
    · -- The directories before are of shipped files.
      obtain ⟨e, he, rfl⟩ := List.mem_map.1 hs
      cases hk : e.2.kind with
      | shipped => rfl
      | userOverrides =>
        have hkey := hu e he hk
        rw [show i.userDirectory = _ from hd] at hkey
        have hmem : d.components ∈ i.sources.keys :=
          List.mem_map.2 ⟨e, he, (Option.some.inj hkey).symm⟩
        rw [(Table.contains_iff _ _).2 hmem] at hnew
        cases hnew

namespace Work

theorem takes_load (h : load.runOn w = (.ok (), w')) :
    Workspace.Takes w.inventory.known ⟨w.inventory.clear, w.files⟩ w' := by
  obtain ⟨u, w₁, hclear, h⟩ := exists_of_bind h
  cases hclear
  obtain ⟨i, w₁, hi, h⟩ := exists_of_bind h
  cases hi
  exact takes_addSources h

/-- A load stamps the files of all directories, whatever was stamped before. -/
theorem stamped_load (h : load.runOn w = (.ok (), w')) :
    w'.inventory.known = w.inventory.known ∧ (w.files.Named →
      w'.OnePath → w'.Stamped w'.inventory.known) := by
  have ht := takes_load h
  have hknown : w'.inventory.known = w.inventory.known := by
    rw [known, ht.settings.sources]
    rfl
  refine ⟨hknown, fun hn ho => ?_⟩
  rw [Workspace.OnePath, hknown] at ho
  rw [hknown]
  exact ht.stamped [] hn (ht.files.symm.onePath ho) ⟨lists_nil, nofun⟩

theorem keepsWatch_load (h : load.runOn w = (.ok (), w')) : w.KeepsWatch w' := by
  obtain ⟨hknown, hstamped⟩ := stamped_load h
  have ht := takes_load h
  refine ⟨ht.files, hknown ▸ List.prefix_rfl, fun hu => ?_, fun hn _ ho _ => hstamped hn ho⟩
  unfold KnowsUserFiles
  rw [ht.settings.sources, ht.settings.userDirectory]
  exact hu

theorem keepsWatch_addDirectories {directories : List Path}
    (h : (addDirectories directories).runOn w = (.ok (), w')) : w.KeepsWatch w' := by
  induction directories generalizing w with
  | nil =>
    cases h
    exact .refl _
  | cons d rest ih =>
    obtain ⟨isNew, w₁, hnew, h⟩ := exists_of_bind h
    cases hnew
    simp only at h
    split at h
    · next hnew =>
      obtain ⟨u, w₁, hregister, h⟩ := exists_of_bind h
      cases hregister
      obtain ⟨i, w₁, hi, h⟩ := exists_of_bind h
      cases hi
      obtain ⟨u, w₁, hfirst, h⟩ := exists_of_bind h
      have hcontains : w.inventory.sources.contains d.components = false := by
        simpa using (Bool.and_eq_true_iff.1 hnew).1
      have hkeeps : w.KeepsWatch w₁ :=
        (takes_addDirectory (s := ⟨d, .shipped⟩) hfirst).keepsWatch hcontains (.inl ⟨rfl, rfl⟩)
      exact hkeeps.trans (ih h)
    · exact ih h

theorem keepsWatch_loadUserFiles
    (hnew : ∀ d ∈ w.inventory.userDirectory, w.inventory.sources.contains d.components = false)
    (h : (loadUserFiles expected scope).runOn w = (.ok (), w')) : w.KeepsWatch w' := by
  cases hd : w.inventory.userDirectory with
  | none =>
    -- The call fails.
    unfold loadUserFiles at h
    obtain ⟨u, w₁, hversion, h⟩ := exists_of_bind h
    cases hversion
    obtain ⟨u, w₁, hscope, h⟩ := exists_of_bind h
    have hnone : w₁.inventory.userDirectory = none := by
      cases scope <;> cases hscope <;> exact hd
    obtain ⟨d, w₂, hask, h⟩ := exists_of_bind h
    rw [runOn_ask, requireUserDirectory, hnone] at hask
    cases hask
  | some d =>
    rw [runOn_loadUserFiles hd] at h
    exact (takes_addDirectory (s := ⟨d, .userOverrides⟩) h).keepsWatch (hnew d hd) (.inr ⟨rfl, hd⟩)

end Work

end

/-! ## Runs -/

namespace Workspace

/-- Whether a call is one that keeps watch: a load, a question or an addition. A call
that reads files has to succeed, and user files are loaded only while their directory is
not known. Other calls write or read files that no directory lists, forget what was read,
or change the pattern of user files. -/
def Watches (w : Workspace) : Call → Prop
  | .load => (Work.load.runOn w).1 = .ok ()
  | .reloadIfChanged => ∃ loaded, (Work.reloadIfChanged.runOn w).1 = .ok loaded
  | .addDirectories directories => ((Work.addDirectories directories).runOn w).1 = .ok ()
  | .loadUserFiles expected scope =>
    ((Work.loadUserFiles expected scope).runOn w).1 = .ok () ∧
      ∀ d ∈ w.inventory.userDirectory, w.inventory.sources.contains d.components = false
  | .files _ | .setScope _ | .loadText _ _ | .addFiles _ _ _ | .deleteUserFiles _ | .persist _ => False
  | _ => True

end Workspace

/-- What a load and further calls that keep watch lead to, while nobody else touches the
files, and every directory is known under one path. -/
inductive Watched : Workspace → Prop
  | load {w : Workspace} (hn : w.files.Named) (hu : w.inventory.KnowsUserFiles)
      (hl : w.Watches .load) (ho : (w.run .load).OnePath) : Watched (w.run .load)
  | step {w : Workspace} {r : Call} (hw : Watched w) (hr : w.Watches r) (ho : (w.run r).OnePath) :
      Watched (w.run r)

section
variable {w : Workspace} {r : Call}

theorem Workspace.Stamped.noFilesChanged (hs : w.Stamped w.inventory.known) (hn : w.files.Named) :
    Work.noFilesChanged.runOn w = (.ok true, w) := by
  have hagree : ∀ x ∈ w.inventory.stamps.zip w.inventory.stamps, x.1.agrees x.2 = true := by
    intro x hx
    obtain ⟨n, hn, rfl⟩ := List.mem_iff_getElem.1 hx
    simp [FileStamp.agrees, Path.same]
  have hfound := hs.filesOfAll hn
  rw [known] at hfound
  unfold Work.noFilesChanged
  rw [Work.runOn_ask, hfound]
  simp only [Except.map, beq_self_eq_true, Bool.true_and, List.all_eq_true.2 hagree]

theorem Workspace.Stamped.reloadIfChanged (hs : w.Stamped w.inventory.known) (hn : w.files.Named) :
    Work.reloadIfChanged.runOn w = (.ok false, w) := by
  unfold Work.reloadIfChanged
  rw [Work.runOn_bind, hs.noFilesChanged hn]
  rfl

theorem Workspace.keepsWatch_run (hn : w.files.Named) (hs : w.Stamped w.inventory.known)
    (hr : w.Watches r) : w.KeepsWatch (w.run r) := by
  cases r with
  | load => exact Work.keepsWatch_load (Prod.ext hr rfl)
  | reloadIfChanged =>
    rw [run, hs.reloadIfChanged hn]
    exact .refl w
  | addDirectories directories => exact Work.keepsWatch_addDirectories (Prod.ext hr rfl)
  | loadUserFiles expected scope => exact Work.keepsWatch_loadUserFiles hr.2 (Prod.ext hr.1 rfl)
  | make e => exact .of_sameFiles (sameFiles_onHoldings _ _)
  | add node => exact .of_sameFiles (sameFiles_onHoldings _ _)
  | addText text expected => exact .of_sameFiles (sameFiles_addText _ text expected)
  | addGrouping node => exact .of_sameFiles (sameFiles_addGrouping _ node)
  | expandTagged tag => exact .of_sameFiles (sameFiles_expandAll _ tag 0 _)
  | getElement name values => exact .of_sameFiles (sameFiles_onHoldings _ _)
  | getAlteration name values => exact .of_sameFiles (sameFiles_onHoldings _ _)
  | getBase name values => exact .of_sameFiles (sameFiles_onHoldings _ _)
  | unified base alteration => exact .of_sameFiles ⟨_, _, _, _, rfl⟩
  | files | setScope | loadText | addFiles | deleteUserFiles | persist => exact hr.elim

namespace Watched

theorem stamped (hw : Watched w) :
    w.files.Named ∧ w.inventory.KnowsUserFiles ∧ w.Stamped w.inventory.known := by
  induction hw with
  | @load w hn hu hl ho =>
    have hload : Work.load.runOn w = (.ok (), w.run .load) := Prod.ext hl rfl
    have hkeeps := Work.keepsWatch_load hload
    exact ⟨hkeeps.files.named hn, hkeeps.userFiles hu, (Work.stamped_load hload).2 hn ho⟩
  | @step w r hw hr ho ih =>
    obtain ⟨hn, hu, hs⟩ := ih
    have hkeeps := Workspace.keepsWatch_run hn hs hr
    exact ⟨hkeeps.files.named hn, hkeeps.userFiles hu, hkeeps.stamped hn hu ho hs⟩

end Watched

end

/-- While nobody else touches the files, a scan of the directories finds just the stamps,
after a load and any further calls, also where these have written files. A stamp of a
written file stands for whatever time the file got, so this does not depend on clocks.
No file counts as changed then, and asking to load again does nothing. -/
theorem files_unchanged {w : Workspace} (hw : Watched w) :
    w.inventory.filesOfAll w.files w.inventory.known = .ok w.inventory.stamps ∧
      Work.noFilesChanged.runOn w = (.ok true, w) ∧
      Work.reloadIfChanged.runOn w = (.ok false, w) := by
  obtain ⟨hn, -, hs⟩ := hw.stamped
  exact ⟨hs.filesOfAll hn, hs.noFilesChanged hn, hs.reloadIfChanged hn⟩

/-- A workspace with a part of which the user has an edition that is outdated; user files
are not loaded yet. -/
def Workspace.ofOldEdition : Workspace :=
  let w := Workspace.ofTwoFiles "layout" "<Inventory><part id=\"a\"/></Inventory>"
    "<Inventory><part id=\"A\" color=\"red\"/></Inventory>"
  { w with inventory :=
    { w.inventory with
      merger := some .overlay
      sources := addSource .empty ⟨"shipped"⟩ .shipped } }

/-- The workspace once everything and then the user files were loaded. -/
def Workspace.ofNewEdition : Workspace := (ofOldEdition.run .load).run (.loadUserFiles 25 none)

/-- The outdated edition is written back when it is loaded, and not again. -/
theorem runs_of_oldEdition :
    (Workspace.ofOldEdition.files.Named ∧
        (∀ e ∈ Workspace.ofOldEdition.inventory.sources.entries, e.2.kind = .shipped) ∧
        (Work.load.runOn .ofOldEdition).1.toBool = true ∧ (Workspace.ofOldEdition.run .load).OnePath) ∧
      (((Work.loadUserFiles 25 none).runOn (Workspace.ofOldEdition.run .load)).1.toBool = true ∧
        (∀ d ∈ (Workspace.ofOldEdition.run .load).inventory.userDirectory,
          (Workspace.ofOldEdition.run .load).inventory.sources.contains d.components = false) ∧
        Workspace.ofNewEdition.OnePath) ∧
      (Work.load.runOn .ofNewEdition).1.toBool = true ∧
      (Workspace.ofNewEdition.run .load).OnePath ∧
      (Workspace.ofNewEdition.run .load).files.writes = 1 := by
  decide +kernel

/-- A user file that was brought up to date while it was loaded counts as unchanged. -/
theorem files_unchanged_oldEdition :
    let w := Workspace.ofNewEdition.run .load
    Watched w ∧ w.files.writes = 1 ∧
      w.inventory.filesOfAll w.files w.inventory.known = .ok w.inventory.stamps ∧
      Work.noFilesChanged.runOn w = (.ok true, w) ∧
      Work.reloadIfChanged.runOn w = (.ok false, w) := by
  obtain ⟨⟨hnamed, hshipped, hload, hpath⟩, ⟨huser, hnew, hpath'⟩, hagain, hpath'', hwrites⟩ :=
    runs_of_oldEdition
  have hfirst : Watched (Workspace.ofOldEdition.run .load) :=
    .load hnamed (knowsUserFiles_of_shipped hshipped) (ok_of_toBool hload) hpath
  have hsecond : Watched .ofNewEdition :=
    hfirst.step (r := .loadUserFiles 25 none) ⟨ok_of_toBool huser, hnew⟩ hpath'
  have hthird := hsecond.step (r := .load) (ok_of_toBool hagain) hpath''
  exact ⟨hthird, hwrites, files_unchanged hthird⟩

end TemplateInventory
