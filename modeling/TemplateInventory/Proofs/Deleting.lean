import TemplateInventory.Proofs.FileNames
/-!
# Deleting user files

Whether a user file belongs to a view is read off its name when user files are
deleted: a view has several parts between underscores there (`isUserView`). So it is
the name of a file that counts, and not what was saved in it (`deleted_by_name`). The
two agree for elements without an underscore in the name of their file, and for views
whose label and class have more than underscores.
-/

namespace TemplateInventory

open Inventory

/-! ## Parts between underscores -/

section
variable {cs : List Char} {name ending : String}

/-- Something on both sides of an underscore makes two parts. -/
theorem two_parts {before after : List Char} (hb : ∃ c ∈ before, c ≠ '_')
    (ha : ∃ c ∈ after, c ≠ '_') :
    1 < (((before ++ '_' :: after).splitOn '_').filter (!·.isEmpty)).length := by
  rw [List.splitOn_append_cons_self, List.filter_append, List.length_append]
  have := List.length_pos_of_ne_nil (parts_ne_nil hb)
  have := List.length_pos_of_ne_nil (parts_ne_nil ha)
  omega

/-- The stem of a name is what stands before its last dot, if there is something. -/
theorem splitName_append {front back : List Char} (hf : front ≠ []) (hb : '.' ∉ back) :
    Path.splitName (String.ofList (front ++ '.' :: back)) =
      (String.ofList front, some (String.ofList back)) := by
  have hending : (back.reverse ++ '.' :: front.reverse).takeWhile (· != '.') = back.reverse := by
    rw [List.takeWhile_append_of_pos fun c hc => ?_]
    · simp
    · simpa using fun he : c = '.' => hb (he ▸ List.mem_reverse.1 hc)
  have hreverse : (String.ofList (front ++ '.' :: back)).toList.reverse =
      back.reverse ++ '.' :: front.reverse := by simp
  have hdrop : (back.reverse ++ '.' :: front.reverse).drop back.reverse.length = '.' :: front.reverse :=
    List.drop_left
  obtain ⟨c, rest, hc⟩ := List.exists_cons_of_ne_nil (List.reverse_ne_nil_iff.2 hf)
  unfold Path.splitName
  simp only [hreverse, hending, hdrop, List.reverse_reverse]
  rw [hc]
  change (String.ofList (c :: rest).reverse, _) = _
  rw [← hc, List.reverse_reverse]

theorem mem_of_mem_splitName {c : Char} (h : c ∈ (Path.splitName name).1.toList) : c ∈ name.toList := by
  unfold Path.splitName at h
  simp only at h
  split at h
  · next stem _ _ hdrop =>
    rw [String.toList_ofList, List.mem_reverse] at h
    exact List.mem_reverse.1 (List.mem_of_mem_drop (hdrop ▸ List.mem_cons_of_mem _ h))
  · exact h

/-- A dot in the ending leaves all that stands before the ending to the stem. -/
theorem prefix_splitName (front : List Char) (hf : front ≠ []) (hdot : '.' ∈ ending.toList) :
    front <+: (Path.splitName (String.ofList front ++ ending)).1.toList := by
  have hlast : '.' ∈ ending.toList.reverse := List.mem_reverse.2 hdot
  obtain ⟨back, before, hsplit, hback⟩ := List.eq_append_cons_of_mem hlast
  have hending : ending.toList = before.reverse ++ '.' :: back.reverse := by
    rw [← List.reverse_reverse ending.toList, hsplit]
    simp
  have hname : String.ofList front ++ ending =
      String.ofList ((front ++ before.reverse) ++ '.' :: back.reverse) := by
    rw [← String.toList_inj]
    simp [hending]
  rw [hname, splitName_append (by simp [hf]) (by simpa using hback), String.toList_ofList]
  exact List.prefix_append front _

end

/-! ## Views by their names -/

section
variable {d : Path} {name ending : String}

theorem isUserView_child (hd : d.text ≠ "") (hn : IsComponent name) :
    Work.isUserView (d.child name) = true ↔
      1 < (((Path.splitName name).1.toList.splitOn '_').filter (!·.isEmpty)).length := by
  simp [Work.isUserView, Path.fileStem_child hd hn]

/-- Without an underscore a name has one part. -/
theorem isUserView_eq_false (hd : d.text ≠ "") (hn : IsComponent name) (h : '_' ∉ name.toList) :
    Work.isUserView (d.child name) = false := by
  rw [← Bool.not_eq_true, isUserView_child hd hn,
    List.splitOn_eq_singleton (mt mem_of_mem_splitName h)]
  exact Nat.not_lt.2 (List.length_filter_le _ [_])

/-- Whether a text has more than underscores. -/
def HasLetters (s : String) : Prop := ∃ c ∈ s.toList, c ≠ '_'

/-- A name of two such texts with an underscore between them is that of a view, if the
ending has a dot. -/
theorem isUserView_of_parts {front label cls : String} (hd : d.text ≠ "") (hn : IsComponent name)
    (hname : name = front ++ (label ++ "_" ++ cls) ++ ending) (hlabel : HasLetters label)
    (hcls : HasLetters cls) (hdot : '.' ∈ ending.toList) : Work.isUserView (d.child name) = true := by
  obtain ⟨c, hc, hne⟩ := hlabel
  obtain ⟨c', hc', hne'⟩ := hcls
  have hfront : name = String.ofList ((front ++ label).toList ++ '_' :: cls.toList) ++ ending := by
    rw [hname, ← String.toList_inj]
    simp
  obtain ⟨rest, hrest⟩ :=
    prefix_splitName ((front ++ label).toList ++ '_' :: cls.toList) (by simp) hdot
  rw [isUserView_child hd hn, hfront, ← hrest, List.append_assoc, List.cons_append]
  exact two_parts ⟨c, by simp [hc], hne⟩ ⟨c', by simp [hc'], hne'⟩

end

/-! ## Deleting one after the other -/

namespace FileTree

section
variable {t : FileTree} {d : Path} {place : List String} {name : String}

theorem entryAt_erase (t : FileTree) (hne : place ≠ []) (place' : List String) :
    entryAt { t with entries := t.entries.erase place } place' =
      if place = place' then none else t.entryAt place' := by
  by_cases h : place' = []
  · subst h
    simp [entryAt, hne]
  · simp only [entryAt, List.isEmpty_iff, h, if_false, Table.get?_erase]

/-- Whether the files of some names stand in the directory under `d`. -/
structure Stand (t : FileTree) (d : Path) (place : List String) (names : List String) : Prop where
  directory : t.lookup d = .ok (place, .directory)
  component : ∀ name ∈ names, IsComponent name
  file : ∀ name ∈ names, ∃ bytes time,
    t.lookup (d.child name) = .ok (place ++ [name], .file bytes time)

/-- A path of the directory that names something names what stands at its place later. -/
theorem lookup_child_of_keeps {t' : FileTree} {e : Entry} (hk : KeepsDirectories t t')
    (hd : t.lookup d = .ok (place, .directory)) (hn : IsComponent name)
    (hl : t.lookup (d.child name) = .ok (place ++ [name], e))
    {e' : Entry} (he : t'.entryAt (place ++ [name]) = some e') :
    t'.lookup (d.child name) = .ok (place ++ [name], e') :=
  lookup_child (hk.lookup hd) hn (hk.locate (locate_of_lookup hl).1) he

namespace Stand

variable {t' : FileTree} {names names' : List String}

/-- The files of some of the names still stand there. -/
theorem kept (hs : t.Stand d place names) (hk : t.KeepsDirectories t')
    (hnames : ∀ n ∈ names', n ∈ names)
    (hfile : ∀ n ∈ names', ∃ bytes time, t'.entryAt (place ++ [n]) = some (.file bytes time)) :
    t'.Stand d place names' where
  directory := hk.lookup hs.directory
  component n hn := hs.component n (hnames n hn)
  file n hn := by
    obtain ⟨bytes, time, he⟩ := hfile n hn
    obtain ⟨_, _, hl⟩ := hs.file n (hnames n hn)
    exact ⟨bytes, time,
      lookup_child_of_keeps hk hs.directory (hs.component n (hnames n hn)) hl he⟩

theorem concat {bytes : ByteArray} {time : Stamp} (hs : t.Stand d place names)
    (hn : IsComponent name) (hl : t.lookup (d.child name) = .ok (place ++ [name], .file bytes time)) :
    t.Stand d place (names ++ [name]) where
  directory := hs.directory
  component := by
    rw [List.forall_mem_append, List.forall_mem_singleton]
    exact ⟨hs.component, hn⟩
  file := by
    rw [List.forall_mem_append, List.forall_mem_singleton]
    exact ⟨hs.file, bytes, time, hl⟩

end Stand

end

end FileTree

namespace Work

section
variable {i : Inventory} {t : FileTree} {d : Path} {place names : List String}

/-- Files that stand in a directory can be deleted, and nothing else goes. -/
theorem deleteAll_stand (deleted : Nat) (hs : t.Stand d place names) (hn : names.Nodup) :
    ∃ t', (deleteAll deleted (names.map d.child)).runOn ⟨i, t⟩ =
        (.ok (deleted + names.length), ⟨i, t'⟩) ∧ t.KeepsDirectories t' ∧
      ∀ place', t'.entryAt place' =
        if ∃ name ∈ names, place' = place ++ [name] then none else t.entryAt place' := by
  induction names generalizing deleted t with
  | nil => exact ⟨t, rfl, ⟨rfl, fun _ h => h⟩, fun place' => by simp⟩
  | cons name names ih =>
    obtain ⟨bytes, time, hl⟩ := hs.file name List.mem_cons_self
    have hcomponent := hs.component name List.mem_cons_self
    obtain ⟨hnotin, hnodup⟩ := List.nodup_cons.1 hn
    let erased : FileTree := { t with entries := t.entries.erase (place ++ [name]) }
    have hremove : t.remove (d.child name) = .ok erased := by rw [FileTree.remove, hl]
    have hentry := FileTree.entryAt_erase t (show place ++ [name] ≠ [] by simp)
    have hkeeps : t.KeepsDirectories erased := by
      refine ⟨rfl, fun place' hd => (hentry place').trans ((if_neg ?_).trans hd)⟩
      rintro rfl
      rw [(FileTree.locate_of_lookup hl).2] at hd
      cases hd
    have hrest : erased.Stand d place names := by
      refine hs.kept hkeeps (fun n h => List.mem_cons_of_mem name h) fun n h => ?_
      obtain ⟨bytes', time', hl'⟩ := hs.file n (List.mem_cons_of_mem name h)
      refine ⟨bytes', time', (hentry _).trans ((if_neg ?_).trans (FileTree.locate_of_lookup hl').2)⟩
      intro he
      obtain rfl : name = n := by simpa using he
      exact hnotin h
    obtain ⟨t', hrun, hkeeps', hentry'⟩ := ih (deleted + 1) hrest hnodup
    refine ⟨t', ?_, ⟨hkeeps'.workDir, fun p h => hkeeps'.directory p (hkeeps.directory p h)⟩,
      fun place' => ?_⟩
    · rw [List.map_cons, deleteAll, runOn_bind, runOn_onFiles]
      simp only [FileTree.attempt, hremove]
      rw [hrun, List.length_cons, Nat.add_right_comm, Nat.add_assoc]
    · rw [hentry', hentry]
      by_cases hself : place ++ [name] = place'
      · subst hself
        simp
      · simp only [hself, if_false, List.mem_cons, exists_eq_or_imp, Ne.symm hself, false_or]

end

end Work

/-! ## Files that were saved -/

/-- A file that an element was saved in. -/
structure SavedFile where
  path : Path
  name : String
  identity : String
  /-- The grouping element that the element is a view of, if it is one. -/
  grouping : Option Element
  deriving DecidableEq

/-- Whether the files `saved` were saved one after the other, starting from `w₀`.
Elements may have been looked up and added in between. -/
inductive SavedIn (w₀ : Workspace) : List SavedFile → Workspace → Prop
  | start : SavedIn w₀ [] w₀
  | save {saved : List SavedFile} {w w' : Workspace} {source : Handle} {f : SavedFile}
      (h : SavedIn w₀ saved w) (hsave : (Work.persist source).runOn w = (.ok f.path, w'))
      (hfile : w.inventory.fileFor (w.inventory.stampVersion source.element) =
        .ok (f.name, f.grouping))
      (hidentity : w.inventory.schema.identityOf (w.inventory.stampVersion source.element) =
        some f.identity) : SavedIn w₀ (saved ++ [f]) w'
  | other {saved : List SavedFile} {w : Workspace} {i : Inventory} (h : SavedIn w₀ saved w)
      (hi : i.unloaded = w.inventory.unloaded) : SavedIn w₀ saved ⟨i, w.files⟩

/-- What saving to the empty directory under `d` leads to. -/
structure Workspace.Filled (w₀ : Workspace) (d : Path) (saved : List SavedFile) (w : Workspace) :
    Prop where
  settings : w.inventory.unloaded = w₀.inventory.unloaded
  path : ∀ f ∈ saved, f.path = d.child f.name
  name : ∀ f ∈ saved, ∃ stem, w₀.inventory.fileStem f.identity f.grouping = .ok stem ∧
    f.name = w₀.inventory.filePrefix ++ stem ++ w₀.inventory.patternEnding
  /-- Once the directory is made, it has no other files. -/
  only : ∀ name time, (name, time) ∈ (w.files.makeDirectories d).2.filesIn d →
    ∃ f ∈ saved, f.name = name
  stand : saved ≠ [] → ∃ place, w.files.Stand d place (saved.map SavedFile.name)

section
variable {w₀ w w' : Workspace} {d : Path} {saved : List SavedFile} {f : SavedFile} {source : Handle}

/-- One more save adds its file. -/
theorem Workspace.Filled.save (h : w₀.Filled d saved w) (hd : w₀.inventory.userDirectory = some d)
    (htext : d.text ≠ "") (hn : IsComponent f.name)
    (hsave : (Work.persist source).runOn w = (.ok f.path, w'))
    (hfile : w.inventory.fileFor (w.inventory.stampVersion source.element) = .ok (f.name, f.grouping))
    (hidentity : w.inventory.schema.identityOf (w.inventory.stampVersion source.element) =
      some f.identity) : w₀.Filled d (saved ++ [f]) w' := by
  have hdirectory : w.inventory.userDirectory = some d :=
    (eq_of_unloaded Inventory.userDirectory (fun _ => rfl) h.settings).trans hd
  obtain ⟨d', name, grouping, made, hd', hfile', hpath, hmade, hplaces⟩ := Work.persist_places hsave
  obtain rfl := Option.some.inj (hdirectory.symm.trans hd')
  cases hfile.symm.trans hfile'
  obtain ⟨place, bytes, hlookup, hkeeps, hentry, hnew⟩ := hplaces htext hn
  have hafter : w'.files.isDirectory d = true := by rw [FileTree.isDirectory, hkeeps.lookup hlookup]
  constructor
  case settings => exact (Work.unloaded_persist hsave).trans h.settings
  case path =>
    simp only [List.forall_mem_append, List.forall_mem_singleton]
    exact ⟨h.path, hpath⟩
  case name =>
    simp only [List.forall_mem_append, List.forall_mem_singleton]
    obtain ⟨identity, stem, hid, -, hstem, hname⟩ := name_of_fileFor hfile
    obtain rfl := Option.some.inj (hid.symm.trans hidentity)
    refine ⟨h.name, stem, ?_, ?_⟩
    · exact (eq_of_unloaded (fun i => i.fileStem f.identity f.grouping) (fun _ => rfl)
        h.settings).symm.trans hstem
    · rw [hname, eq_of_unloaded filePrefix (fun _ => rfl) h.settings,
        eq_of_unloaded patternEnding (fun _ => rfl) h.settings]
  case only =>
    intro n time hmem
    rw [FileTree.makeDirectories_of_isDirectory hafter,
      FileTree.mem_filesIn (hkeeps.lookup hlookup)] at hmem
    obtain ⟨bytes', he⟩ := hmem
    rw [hentry] at he
    by_cases hself : place ++ [f.name] = place ++ [n]
    · exact ⟨f, by simp, by simpa using hself⟩
    · rw [if_neg hself] at he
      obtain ⟨g, hg, hname⟩ := h.only n time (by
        rw [hmade]
        exact (FileTree.mem_filesIn hlookup).2 ⟨bytes', he⟩)
      exact ⟨g, List.mem_append_left _ hg, hname⟩
  case stand =>
    have hs : made.Stand d place (saved.map SavedFile.name) := by
      by_cases hsaved : saved = []
      · subst hsaved
        exact ⟨hlookup, by simp, by simp⟩
      · -- After the first save the directory is there, so that none is made.
        obtain ⟨place', hs⟩ := h.stand hsaved
        have hthere : w.files.isDirectory d = true := by rw [FileTree.isDirectory, hs.directory]
        rw [FileTree.makeDirectories_of_isDirectory hthere] at hmade
        cases hmade
        cases hs.directory.symm.trans hlookup
        exact hs
    have hkept : w'.files.Stand d place (saved.map SavedFile.name) := by
      refine hs.kept hkeeps (fun n hn' => hn') fun n hn' => ?_
      by_cases hself : f.name = n
      · exact ⟨_, _, (hentry _).trans (if_pos (by rw [hself]))⟩
      · obtain ⟨bytes', time, hl⟩ := hs.file n hn'
        refine ⟨bytes', time, ?_⟩
        rw [hentry, if_neg (by simpa using hself)]
        exact (FileTree.locate_of_lookup hl).2
    refine fun _ => ⟨place, ?_⟩
    rw [List.map_append]
    exact hkept.concat hn (hpath ▸ hnew)

theorem SavedIn.filled (h : SavedIn w₀ saved w) (hd : w₀.inventory.userDirectory = some d)
    (htext : d.text ≠ "") (hempty : (w₀.files.makeDirectories d).2.filesIn d = [])
    (hn : ∀ f ∈ saved, IsComponent f.name) : w₀.Filled d saved w := by
  induction h with
  | start =>
    refine ⟨rfl, nofun, nofun, fun name time hmem => ?_, fun hne => absurd rfl hne⟩
    rw [hempty] at hmem
    cases hmem
  | save h hsave hfile hidentity ih =>
    rw [List.forall_mem_append, List.forall_mem_singleton] at hn
    exact (ih hn.1).save hd htext hn.2 hsave hfile hidentity
  | other h hi ih =>
    have hf := ih hn
    exact ⟨hi.trans hf.settings, hf.path, hf.name, hf.only, hf.stand⟩

/-- The directory has just the files that were saved. -/
theorem Workspace.Filled.mem_filesIn (h : w₀.Filled d saved w) (n : String) :
    (∃ time, (n, time) ∈ w.files.filesIn d) ↔ ∃ f ∈ saved, f.name = n := by
  constructor
  · rintro ⟨time, hmem⟩
    obtain ⟨place, hl⟩ := FileTree.directory_of_filesIn (List.ne_nil_of_mem hmem)
    refine h.only n time ?_
    rwa [FileTree.makeDirectories_of_isDirectory (by rw [FileTree.isDirectory, hl])]
  · rintro ⟨f, hf, rfl⟩
    obtain ⟨place, hs⟩ := h.stand (List.ne_nil_of_mem hf)
    obtain ⟨bytes, time, hl⟩ := hs.file f.name (List.mem_map_of_mem hf)
    exact ⟨time, (FileTree.mem_filesIn hs.directory).2 ⟨bytes, (FileTree.locate_of_lookup hl).2⟩⟩

/-- Deleting goes by the names that the user pattern finds. -/
theorem Work.runOn_deleteUserFiles {i : Inventory} {pattern : FilePattern} {scope : Option String}
    (t : FileTree) (hd : i.userDirectory = some d)
    (hpattern : i.patternFor .userOverrides = .ok pattern) (hscope : ∀ s ∈ scope, i.scope = some s) :
    (deleteUserFiles scope).runOn ⟨i, t⟩ =
      (deleteAll 0 (((pattern.names t d).filter fun n => !isUserView (d.child n)).map d.child)).runOn
        ⟨i, t⟩ := by
  have hset : (setScope scope).runOn ⟨i, t⟩ = (.ok (), ⟨i, t⟩) := by
    cases scope with
    | none => rfl
    | some s =>
      have hsame : { i with scope := some s } = i := by rw [← hscope s rfl]
      exact congrArg (fun i => ((.ok (), ⟨i, t⟩) : Except InventoryError Unit × Workspace)) hsame
  have hfound : i.filesOf t .userOverrides d = .ok (pattern.scan t d) := by
    rw [filesOf, hpattern]
    rfl
  have hdirectory : i.requireUserDirectory = .ok d := by rw [requireUserDirectory, hd]
  unfold deleteUserFiles
  simp only [runOn_bind, hset, runOn_ask, hdirectory, hfound]
  rw [FilePattern.map_path_scan, List.filter_map]
  rfl

/-- Of the files that were saved, those can be deleted whose names are given. -/
theorem Workspace.Filled.deleteAll {i : Inventory} {t : FileTree}
    (h : w₀.Filled d saved ⟨i, t⟩) (names : List String) (hnames : ∀ n ∈ names, ∃ f ∈ saved, f.name = n)
    (hnodup : names.Nodup) :
    ∃ t', (Work.deleteAll 0 (names.map d.child)).runOn ⟨i, t⟩ = (.ok (0 + names.length), ⟨i, t'⟩) ∧
      ∀ f ∈ saved, t.holds f.path = true ∧ (t'.holds f.path = false ↔ f.name ∈ names) := by
  by_cases hsaved : saved = []
  · subst hsaved
    obtain rfl : names = [] := List.eq_nil_iff_forall_not_mem.2 fun n hn => by
      obtain ⟨f, hf, -⟩ := hnames n hn
      cases hf
    exact ⟨t, rfl, nofun⟩
  obtain ⟨place, hs⟩ := h.stand hsaved
  have hsub : ∀ n ∈ names, n ∈ saved.map SavedFile.name := fun n hn => List.mem_map.2 (hnames n hn)
  obtain ⟨t', hrun, hkeeps, hentry⟩ := Work.deleteAll_stand (i := i) 0
    ⟨hs.directory, fun n hn => hs.component n (hsub n hn), fun n hn => hs.file n (hsub n hn)⟩ hnodup
  refine ⟨t', hrun, fun f hf => ?_⟩
  have hf' : f.name ∈ saved.map SavedFile.name := List.mem_map_of_mem hf
  obtain ⟨bytes, time, hl⟩ := hs.file f.name hf'
  obtain ⟨hlocate, hat⟩ := FileTree.locate_of_lookup hl
  rw [h.path f hf]
  refine ⟨by rw [FileTree.holds, hl], ?_⟩
  by_cases hmem : f.name ∈ names
  · have hgone : t'.entryAt (place ++ [f.name]) = none :=
      (hentry _).trans (if_pos ⟨f.name, hmem, rfl⟩)
    exact iff_of_true (FileTree.holds_eq_false (hkeeps.locate hlocate) hgone) hmem
  · have hthere : t'.entryAt (place ++ [f.name]) = some (.file bytes time) := by
      refine (hentry _).trans ((if_neg ?_).trans hat)
      rintro ⟨n, hn, he⟩
      obtain rfl : f.name = n := by simpa using he
      exact hmem hn
    have hl' := FileTree.lookup_child_of_keeps hkeeps hs.directory (hs.component f.name hf') hl hthere
    exact iff_of_false (by rw [FileTree.holds, hl']; simp) hmem

theorem Inventory.underscore_not_mem_filePrefix (i : Inventory) : '_' ∉ i.filePrefix.toList := by
  unfold filePrefix
  split
  · decide
  · exact nofun

/-- What the class of a view is called in the name of its file. -/
def Inventory.viewClass (i : Inventory) (grouping : Element) : String :=
  (grouping.children.head?.bind (·.attr i.conventions.classAttr)).getD ""

/-- Let elements be saved one after the other to a directory that was empty, each under
the name of an entry. Then deleting succeeds, and deletes just the files whose names
match the user pattern and have at most one part between underscores. So where the file
pattern is a star and plain characters, it deletes the file of an element that is no
view, if there is no underscore in its name. And where these characters have a dot, it
keeps the file of a view whose label and class have more than underscores. -/
theorem deleted_by_name {scope : Option String}
    (hpattern : FilePattern.parse w₀.inventory.pattern.text = .ok w₀.inventory.pattern)
    (hd : w₀.inventory.userDirectory = some d) (htext : d.text ≠ "")
    (hempty : (w₀.files.makeDirectories d).2.filesIn d = []) (hsaved : SavedIn w₀ saved w)
    (hn : ∀ f ∈ saved, IsComponent f.name) (hscope : ∀ s ∈ scope, w₀.inventory.scope = some s) :
    ∃ pattern n w', w₀.inventory.patternFor .userOverrides = .ok pattern ∧
      (Work.deleteUserFiles scope).runOn w = (.ok n, w') ∧
      (∀ f ∈ saved, w.files.holds f.path = true ∧
        (w'.files.holds f.path = false ↔
          pattern.matchesName f.name = true ∧ Work.isUserView f.path = false)) ∧
      ∀ ending, w₀.inventory.pattern.text = "*" ++ ending → (∀ c ∈ ending.toList, Glob.IsPlain c) →
        (∀ f ∈ saved, f.grouping = none → '_' ∉ f.identity.toList → '_' ∉ ending.toList →
          w'.files.holds f.path = false) ∧
        ('.' ∈ ending.toList → ∀ f ∈ saved, ∀ g label, f.grouping = some g →
          g.requiredAttr w₀.inventory.conventions.labelAttr = .ok label → HasLetters label →
          HasLetters (w₀.inventory.viewClass g) → w'.files.holds f.path = true) := by
  obtain ⟨pattern, hfor⟩ := exists_patternFor hpattern
  have hfilled := hsaved.filled hd htext hempty hn
  have hsettings := hfilled.settings
  rcases w with ⟨i, t⟩
  have hrun := Work.runOn_deleteUserFiles t
    ((eq_of_unloaded Inventory.userDirectory (fun _ => rfl) hsettings).trans hd)
    ((eq_of_unloaded (·.patternFor .userOverrides) (fun _ => rfl) hsettings).trans hfor)
    fun s hs => (eq_of_unloaded Inventory.scope (fun _ => rfl) hsettings).trans (hscope s hs)
  obtain ⟨t', hdeleted, hfiles⟩ := hfilled.deleteAll
    ((pattern.names t d).filter fun n => !Work.isUserView (d.child n))
    (fun n hmem => (hfilled.mem_filesIn n).1
      (FilePattern.mem_names.1 (List.mem_filter.1 hmem).1).1)
    ((FilePattern.nodup_names pattern t d).filter _)
  have hgone : ∀ f ∈ saved, t'.holds f.path = false ↔
      pattern.matchesName f.name = true ∧ Work.isUserView f.path = false := by
    intro f hf
    rw [(hfiles f hf).2, List.mem_filter, FilePattern.mem_names, hfilled.path f hf,
      and_iff_right ((hfilled.mem_filesIn f.name).2 ⟨f, hf, rfl⟩), Bool.not_eq_true']
  refine ⟨pattern, _, ⟨i, t'⟩, hfor, hrun.trans hdeleted, fun f hf => ⟨(hfiles f hf).1, hgone f hf⟩,
    fun ending hp hplain => ⟨fun f hf hnone hidentity hending => ?_,
      fun hdot f hf g label hsome hlabel hletters hclass => ?_⟩⟩
  · obtain ⟨stem, hstem, hname⟩ := hfilled.name f hf
    rw [hnone] at hstem
    cases hstem
    rw [patternEnding_of_star hp] at hname
    obtain rfl : pattern = w₀.inventory.starPattern ending :=
      Except.ok.inj (hfor.symm.trans (patternFor_star hp hplain))
    refine (hgone f hf).2 ⟨hname ▸ w₀.inventory.matchesName_starPattern ending f.identity, ?_⟩
    rw [hfilled.path f hf]
    refine isUserView_eq_false htext (hn f hf) ?_
    rw [hname]
    simpa using ⟨w₀.inventory.underscore_not_mem_filePrefix, hidentity, hending⟩
  · obtain ⟨stem, hstem, hname⟩ := hfilled.name f hf
    rw [hsome, Inventory.fileStem, hlabel] at hstem
    cases hstem
    rw [patternEnding_of_star hp] at hname
    rw [← Bool.not_eq_false, hgone f hf, hfilled.path f hf,
      isUserView_of_parts htext (hn f hf) hname hletters hclass hdot]
    exact fun h => nomatch h.2

end

/-! ## Names that decide, and names that mislead -/

/-- The file that an element is saved in, if it can be saved. -/
def Workspace.savedAs (w : Workspace) (source : Handle) : Option SavedFile :=
  let e := w.inventory.stampVersion source.element
  match ((Work.persist source).runOn w).1, w.inventory.fileFor e, w.inventory.schema.identityOf e with
  | .ok p, .ok (name, grouping), some identity => some ⟨p, name, identity, grouping⟩
  | _, _, _ => none

/-- The workspace after an element was saved. -/
def Workspace.afterSave (w : Workspace) (source : Handle) : Workspace :=
  ((Work.persist source).runOn w).2

theorem SavedIn.afterSave {w₀ w : Workspace} {saved : List SavedFile} {source : Handle} {f : SavedFile}
    (h : SavedIn w₀ saved w) (hf : w.savedAs source = some f) :
    SavedIn w₀ (saved ++ [f]) (w.afterSave source) := by
  unfold Workspace.savedAs at hf
  simp only at hf
  split at hf
  · next hsave hfile hidentity =>
    cases hf
    exact h.save (Prod.ext hsave rfl) hfile hidentity
  · cases hf

/-- The workspace after user files were deleted, and how many were. -/
def Workspace.afterDelete (w : Workspace) : Option Nat × Workspace :=
  ((Work.deleteUserFiles none).runOn w).map Except.toOption id

/-- A workspace with a grouping element. -/
def Workspace.withGrouping (w : Workspace) (grouping : Element) : Workspace :=
  (w.run (.make grouping)).run (.addGrouping (.fresh w.inventory.holdings.nextSerial grouping))

theorem Reachable.withGrouping {w : Workspace} {grouping : Element} (hw : Reachable w)
    (hn : grouping.name = w.inventory.conventions.groupingElement) :
    Reachable (w.withGrouping grouping) :=
  (hw.step (r := .make grouping) trivial).step ⟨hw.made grouping, hn⟩

/-- A grouping element for views with the tag of `viewPart`, with a child of a class. -/
def classView (label : String) : Element :=
  ⟨"layoutType", .ofList [("layout", "a#t"), ("label", label)], [⟨"part", .ofList [("class", "c")], [], none⟩],
    none⟩

/-- A grouping element without a class. -/
def plainView : Element := ⟨"layoutType", .ofList [("layout", "a#t"), ("label", "V")], [], none⟩

/-- A part with an underscore. -/
def brokenPart : Handle := .fresh 0 (.part [("id", "a_b")])

/-- Workspaces with a view that has a class, with one that has none, and with one whose
label leads up and back. -/
def Workspace.ofClassView : Workspace := Workspace.ofScope.withGrouping (classView "V")

def Workspace.ofPlainView : Workspace := (Workspace.ofUser .parts).withGrouping plainView

def Workspace.ofOuterView : Workspace := Workspace.ofScope.withGrouping (classView "../user/")

def classFile : SavedFile := ⟨⟨"user/V_c.xml"⟩, "V_c.xml", "a#t", some (classView "V")⟩

def innerFile : SavedFile := ⟨⟨"user/x.xml"⟩, "x.xml", "x", none⟩

def brokenFile : SavedFile := ⟨⟨"user/default$$a_b"⟩, "default$$a_b", "a_b", none⟩

def plainFile : SavedFile := ⟨⟨"user/default$$V_"⟩, "default$$V_", "a#t", some plainView⟩

def outerFile : SavedFile :=
  ⟨⟨"user/../user/_c.xml"⟩, "../user/_c.xml", "a#t", some (classView "../user/")⟩

/-- Whether an element is saved as a file, and deleting then leaves it there or not. -/
def Workspace.Leaves (w : Workspace) (source : Handle) (f : SavedFile) (there : Bool) : Prop :=
  w.savedAs source = some f ∧ (w.afterSave source).afterDelete.1.isSome = true ∧
    (w.afterSave source).afterDelete.2.files.holds f.path = there

instance (w : Workspace) (source : Handle) (f : SavedFile) (there : Bool) :
    Decidable (w.Leaves source f there) := inferInstanceAs (Decidable (_ ∧ _ ∧ _))

theorem deletions :
    Workspace.ofClassView.savedAs innerPart = some innerFile ∧
      (Workspace.ofClassView.afterSave innerPart).savedAs viewPart = some classFile ∧
      (Workspace.ofUser .parts).Leaves brokenPart brokenFile true ∧
      Workspace.ofPlainView.Leaves viewPart plainFile false ∧
      Workspace.ofOuterView.Leaves viewPart outerFile false := by
  decide +kernel

/-- A part is deleted, and a view with a class is kept. -/
theorem deleted_by_name_innerPart :
    let w := (Workspace.ofClassView.afterSave innerPart).afterSave viewPart
    ∃ n w', SavedIn .ofClassView [innerFile, classFile] w ∧
      (Work.deleteUserFiles (some "s")).runOn w = (.ok n, w') ∧
      w'.files.holds ⟨"user/x.xml"⟩ = false ∧ w'.files.holds ⟨"user/V_c.xml"⟩ = true := by
  obtain ⟨hinner, hview, -⟩ := deletions
  have hscope : ∀ s ∈ some "s", Workspace.ofClassView.inventory.scope = some s := by
    rintro _ ⟨⟩
    rfl
  have hsaved : SavedIn .ofClassView [innerFile, classFile]
      ((Workspace.ofClassView.afterSave innerPart).afterSave viewPart) :=
    (SavedIn.start.afterSave hinner).afterSave hview
  obtain ⟨pattern, n, w', -, hrun, -, hstar⟩ := deleted_by_name (d := ⟨"user"⟩)
    rfl rfl (by decide) rfl hsaved (by decide) hscope
  obtain ⟨hgone, hkept⟩ := hstar ".xml" rfl (by simp [Glob.IsPlain])
  refine ⟨n, w', hsaved, hrun, hgone innerFile (by simp) rfl (by decide) (by decide), ?_⟩
  exact hkept (by decide) classFile (by simp) (classView "V") "V" rfl rfl ⟨'V', by decide⟩
    ⟨'c', by decide⟩

/-- Whether deleting removes the files of elements that are no views, and keeps those
of views, provided that no two such elements share one and every identity is the name of
an entry. -/
def Workspace.DeletesByKind (w₀ : Workspace) : Prop :=
  ∀ saved w n w', SavedIn w₀ saved w → (∀ f ∈ saved, IsComponent f.identity) →
    (∀ f ∈ saved, ∀ g ∈ saved, f.path = g.path → f.grouping.isSome = g.grouping.isSome) →
    (Work.deleteUserFiles none).runOn w = (.ok n, w') →
    (∀ f ∈ saved, f.grouping = none → w'.files.holds f.path = false) ∧
      ∀ f ∈ saved, f.grouping.isSome = true → w'.files.holds f.path = true

theorem Workspace.DeletesByKind.leaves {w : Workspace} {source : Handle} {f : SavedFile} {there : Bool}
    (h : w.DeletesByKind) (hl : w.Leaves source f there) (hf : IsComponent f.identity) :
    there = f.grouping.isSome := by
  obtain ⟨hsaved, hok, hthere⟩ := hl
  obtain ⟨n, hn⟩ := Option.isSome_iff_exists.1 hok
  obtain ⟨hgone, hkept⟩ := h [f] _ n _ (SavedIn.start.afterSave hsaved) (by simpa using hf) (by simp)
    (Prod.ext (ok_of_toOption hn) rfl)
  cases hg : f.grouping with
  | none => exact hthere.symm.trans (hgone f (by simp) hg)
  | some g => exact hthere.symm.trans (hkept f (by simp) (by rw [hg]; rfl))

/-- A part with an underscore in its identity is kept like a view. A view without a class
is deleted, and so is one whose label ends in a slash. -/
theorem deletion_by_name :
    (Reachable (.ofUser .parts) ∧ ¬ (Workspace.ofUser .parts).DeletesByKind) ∧
      (Reachable .ofPlainView ∧ ¬ Workspace.ofPlainView.DeletesByKind) ∧
      Reachable .ofOuterView ∧ ¬ Workspace.ofOuterView.DeletesByKind := by
  obtain ⟨-, -, hbroken, hplain, houter⟩ := deletions
  refine ⟨⟨reachable_ofUser .parts, fun h => ?_⟩,
    ⟨(reachable_ofUser .parts).withGrouping rfl, fun h => ?_⟩,
    reachable_ofScope.withGrouping rfl, fun h => ?_⟩
  · cases h.leaves hbroken (by decide)
  · cases h.leaves hplain (by decide)
  · cases h.leaves houter (by decide)

end TemplateInventory
