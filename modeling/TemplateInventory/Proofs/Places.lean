import TemplateInventory.FilePattern
import TemplateInventory.Proofs.Files
import Mathlib.Tactic.SplitIfs
/-!
# Paths and places

A path for an entry of a directory is the path of the directory and one more part,
provided that the name of the entry is a single one, `IsComponent`. So it leads to the
place directly in the place of the directory (`locate_child`), and the files that are
listed in a directory are those that stand there (`mem_filesIn`). A pattern finds those
of them whose names match, sorted by their paths (`FilePattern.pairwise_scan`).

Once all directories on the way to a path are made, the path names a directory
(`isDirectory_of_makeDirectories`).
-/

namespace TemplateInventory

/-- Whether a text is the name of an entry: one part of a path, that leads down. -/
structure IsComponent (name : String) : Prop where
  nonempty : name ≠ ""
  notHere : name ≠ "."
  notUp : name ≠ ".."
  noSlash : '/' ∉ name.toList

instance (name : String) : Decidable (IsComponent name) :=
  decidable_of_iff (name ≠ "" ∧ name ≠ "." ∧ name ≠ ".." ∧ '/' ∉ name.toList)
    ⟨fun ⟨h₁, h₂, h₃, h₄⟩ => ⟨h₁, h₂, h₃, h₄⟩, fun ⟨h₁, h₂, h₃, h₄⟩ => ⟨h₁, h₂, h₃, h₄⟩⟩

/-! ## Paths of entries -/

/-- What has more than separators in it has a part. -/
theorem parts_ne_nil {sep : Char} {cs : List Char} (h : ∃ c ∈ cs, c ≠ sep) :
    (cs.splitOn sep).filter (!·.isEmpty) ≠ [] := by
  intro hnil
  rw [List.filter_eq_nil_iff] at hnil
  obtain ⟨c, hc, hne⟩ := h
  -- Parts that all are empty have only separators around them.
  have hall : ∀ parts : List (List Char), (∀ part ∈ parts, part = []) →
      ∀ d ∈ [sep].intercalate parts, d = sep := by
    intro parts hparts d hd
    induction parts with
    | nil => simp at hd
    | cons part parts ih =>
      obtain rfl := hparts part List.mem_cons_self
      cases parts with
      | nil => simp at hd
      | cons part' parts =>
        rw [List.intercalate_cons_cons] at hd
        simp only [List.nil_append, List.singleton_append, List.mem_cons] at hd
        rcases hd with rfl | hd
        · rfl
        · exact ih (fun p hp => hparts p (List.mem_cons_of_mem _ hp)) hd
  have hjoin : [sep].intercalate (cs.splitOn sep) = cs := List.intercalate_splitOn sep
  rw [← hjoin] at hc
  exact hne (hall _ (fun part hp => by simpa using hnil part hp) c hc)

namespace Path

section
variable {d : Path} {name name' : String}

theorem isAbsolute_name (h : '/' ∉ name.toList) : (Path.mk name).isAbsolute = false := by
  rw [isAbsolute, beq_eq_false_iff_ne]
  exact fun he => h (List.mem_of_head? he)

/-- A path from a directory has the parts of the directory before its own; what stands
after a slash at the end of the directory is no part. -/
theorem splitSlashes_join (hd : d.text ≠ "") (hn : (Path.mk name).isAbsolute = false) :
    ∃ front, front ≠ [] ∧ splitSlashes (d.child name).text = front ++ splitSlashes name ∧
      (splitSlashes d.text = front ∨ splitSlashes d.text = front ++ [""]) := by
  have hsplit : ∀ cs : List Char, splitSlashes (String.ofList (cs ++ '/' :: name.toList)) =
      splitSlashes (String.ofList cs) ++ splitSlashes name := fun cs => by
    simp only [splitSlashes, String.toList_ofList, List.splitOn_append_cons_self, List.map_append]
  have hne : ∀ s, splitSlashes s ≠ [] := fun s => by simp [splitSlashes, List.splitOn_ne_nil]
  unfold child join
  simp only [hn, Bool.false_or, beq_iff_eq, hd, if_false]
  split
  · next hend =>
    -- The directory ends in a slash, which is the one before the name.
    rw [endsInSlash, beq_iff_eq, List.getLast?_eq_some_iff] at hend
    obtain ⟨cs, hcs⟩ := hend
    have htext : d.text = String.ofList (cs ++ ['/']) := by rw [← hcs, String.ofList_toList]
    refine ⟨splitSlashes (String.ofList cs), hne _, ?_, .inr ?_⟩
    · rw [← hsplit, htext]
      congr 1
      rw [← String.toList_inj]
      simp
    · rw [htext, splitSlashes, String.toList_ofList, List.splitOn_append_cons_self, List.splitOn_nil,
        List.map_append, splitSlashes, String.toList_ofList]
      rfl
  · refine ⟨splitSlashes d.text, hne _, ?_, .inl rfl⟩
    have h := hsplit d.text.toList
    rw [String.ofList_toList] at h
    rw [← h]
    congr 1
    rw [← String.toList_inj]
    simp

theorem splitSlashes_name (hn : '/' ∉ name.toList) : splitSlashes name = [name] := by
  rw [splitSlashes, List.splitOn_eq_singleton hn, List.map_singleton, String.ofList_toList]

/-- The path of an entry has the parts of the directory and one more. -/
theorem splitSlashes_child (hd : d.text ≠ "") (hn : '/' ∉ name.toList) :
    ∃ front, front ≠ [] ∧ splitSlashes (d.child name).text = front ++ [name] ∧
      (splitSlashes d.text = front ∨ splitSlashes d.text = front ++ [""]) := by
  rw [← splitSlashes_name hn]
  exact splitSlashes_join hd (isAbsolute_name hn)

theorem isAbsolute_join (hd : d.text ≠ "") (hn : (Path.mk name).isAbsolute = false) :
    (d.child name).isAbsolute = d.isAbsolute := by
  have hlist : d.text.toList ≠ [] := by simpa using hd
  obtain ⟨c, cs, hcs⟩ := List.exists_cons_of_ne_nil hlist
  unfold child join
  simp only [hn, Bool.false_or, beq_iff_eq, hd, if_false]
  split <;> simp [isAbsolute, hcs]

theorem isAbsolute_child (hd : d.text ≠ "") (hn : '/' ∉ name.toList) :
    (d.child name).isAbsolute = d.isAbsolute := isAbsolute_join hd (isAbsolute_name hn)

theorem endsInSlash_join (hd : d.text ≠ "") (hn : (Path.mk name).isAbsolute = false)
    (hne : name ≠ "") : (d.child name).endsInSlash = (Path.mk name).endsInSlash := by
  obtain ⟨c, hc⟩ := Option.isSome_iff_exists.1
    (List.getLast?_isSome.2 (show name.toList ≠ [] by simpa using hne))
  unfold child join
  simp only [hn, Bool.false_or, beq_iff_eq, hd, if_false]
  split <;> simp [endsInSlash, List.getLast?_append, List.getLast?_cons, hc]

theorem parts_join (hd : d.text ≠ "") (hn : (Path.mk name).isAbsolute = false) :
    (d.child name).parts = d.parts ++ (Path.mk name).parts := by
  obtain ⟨front, -, hchild, hdir⟩ := splitSlashes_join hd hn
  rw [parts, parts, parts, hchild, List.filter_append]
  rcases hdir with hdir | hdir <;> simp [hdir]

theorem parts_child (hd : d.text ≠ "") (hn : IsComponent name) :
    (d.child name).parts = d.parts ++ [name] := by
  have hself : (Path.mk name).parts = [name] := by
    simp [parts, splitSlashes_name hn.noSlash, hn.nonempty]
  rw [parts_join hd (isAbsolute_name hn.noSlash), hself]

theorem components_child (hd : d.text ≠ "") (hn : IsComponent name) :
    (d.child name).components = d.components ++ [name] := by
  obtain ⟨front, hne, hchild, hdir⟩ := splitSlashes_child hd hn.noSlash
  have hself : ([name].filter fun s => s != "" && s != ".") = [name] := by
    simp [hn.nonempty, hn.notHere]
  have hnamed : (splitSlashes d.text).filter (fun s => s != "" && s != ".") =
      front.filter fun s => s != "" && s != "." := by
    rcases hdir with hdir | hdir <;> simp [hdir]
  have hhead : (splitSlashes d.text).head? = front.head? := by
    obtain ⟨a, as, rfl⟩ := List.exists_cons_of_ne_nil hne
    rcases hdir with hdir | hdir <;> simp [hdir]
  have hhead' : (front ++ [name]).head? = front.head? := by
    obtain ⟨a, as, rfl⟩ := List.exists_cons_of_ne_nil hne
    rfl
  unfold components
  simp only [isAbsolute_child hd hn.noSlash, hchild, hnamed, hhead, hhead', List.filter_append, hself]
  split
  · rfl
  · split <;> rfl

theorem fileStem_child (hd : d.text ≠ "") (hn : IsComponent name) :
    (d.child name).fileStem = some (splitName name).1 := by
  have hroot : name ≠ "/" := by
    rintro rfl
    exact hn.noSlash (by decide)
  simp [fileStem, fileName, components_child hd hn, hroot, hn.notHere, hn.notUp]

theorem asksDirectory_child (hd : d.text ≠ "") (hn : IsComponent name) :
    (d.child name).asksDirectory = false := by
  obtain ⟨front, -, hchild, -⟩ := splitSlashes_child hd hn.noSlash
  simp [asksDirectory, hchild, hn.nonempty, hn.notHere]

end

/-! ### Names with slashes -/

/-- What a text has before its first slash. -/
def firstPart (name : String) : String := String.ofList (name.toList.takeWhile (· != '/'))

section
variable {name : String}

theorem toList_firstPart (name : String) :
    (firstPart name).toList = name.toList.takeWhile (· != '/') := String.toList_ofList

theorem noSlash_firstPart (name : String) : '/' ∉ (firstPart name).toList := by
  rw [toList_firstPart]
  intro h
  simpa using List.all_eq_true.1 (List.all_takeWhile (p := (· != '/'))) _ h

theorem firstPart_of_noSlash (h : '/' ∉ name.toList) : firstPart name = name := by
  have hall : name.toList.takeWhile (· != '/') = name.toList := by
    rw [← List.append_nil name.toList, List.takeWhile_append_of_pos fun c hc => ?_,
      List.takeWhile_nil]
    simpa using fun he : c = '/' => h (he ▸ hc)
  rw [firstPart, hall, String.ofList_toList]

/-- Where there is a slash, the first part ends at the first. -/
theorem exists_of_slash (h : '/' ∈ name.toList) :
    ∃ rest, name.toList = (firstPart name).toList ++ '/' :: rest := by
  obtain ⟨front, rest, hname, hfront⟩ := List.eq_append_cons_of_mem h
  refine ⟨rest, ?_⟩
  rw [toList_firstPart, hname, List.takeWhile_append_of_pos fun c hc => ?_]
  · simp
  · simpa using fun he : c = '/' => hfront (he ▸ hc)

/-- A text that starts with the name of an entry and has a slash, though not at its end,
has more parts. -/
theorem parts_of_slash (hn : IsComponent (firstPart name)) (h : '/' ∈ name.toList)
    (hend : (Path.mk name).endsInSlash = false) :
    ∃ more, more ≠ [] ∧ (Path.mk name).parts = firstPart name :: more := by
  obtain ⟨rest, hname⟩ := exists_of_slash h
  have hself : (Path.mk name).parts =
      firstPart name :: (((rest.splitOn '/').map String.ofList).filter (· != "")) := by
    rw [parts, splitSlashes, hname, List.splitOn_append_cons_self, List.map_append,
      List.splitOn_eq_singleton (noSlash_firstPart name), List.map_singleton, String.ofList_toList,
      List.singleton_append, List.filter_cons_of_pos (by simpa using hn.nonempty)]
  refine ⟨_, ?_, hself⟩
  rw [endsInSlash, beq_eq_false_iff_ne, hname, List.getLast?_append, List.getLast?_cons] at hend
  cases hlast : rest.getLast? with
  | none => simp [hlast] at hend
  | some c =>
    rw [hlast] at hend
    have hrest : (rest.splitOn '/').filter (!·.isEmpty) ≠ [] :=
      parts_ne_nil ⟨c, List.mem_of_getLast? hlast, by simpa using hend⟩
    simpa [List.filter_map, Function.comp_def, List.filter_eq_nil_iff] using hrest

theorem isAbsolute_of_firstPart (hn : IsComponent (firstPart name)) :
    (Path.mk name).isAbsolute = false := by
  rw [isAbsolute, beq_eq_false_iff_ne]
  intro h
  obtain ⟨rest, hname⟩ := List.head?_eq_some_iff.1 h
  refine hn.nonempty ?_
  rw [firstPart, hname]
  rfl

end

end Path

/-! ## Places of entries -/

namespace FileTree

section
variable {t : FileTree} {d : Path} {here parts place place' : List String} {name : String}
  {time : Stamp} {e : Entry}

/-- More parts lead on from a directory. -/
theorem walk_append (hd : t.walk here parts = .ok place) (he : t.entryAt place = some .directory)
    (more : List String) : t.walk here (parts ++ more) = t.walk place more := by
  induction parts generalizing here with
  | nil =>
    cases hd
    rfl
  | cons part rest ih =>
    rw [List.cons_append, walk]
    rw [walk] at hd
    split at hd
    · next hdot => rw [if_pos hdot]; exact ih hd
    · next hdot =>
      rw [if_neg hdot]
      split at hd
      · next hup => rw [if_pos hup]; exact ih hd
      · next hup =>
        rw [if_neg hup]
        split at hd
        · cases hd
        · next hlong =>
          rw [if_neg hlong]
          simp only at hd ⊢
          cases rest with
          | nil =>
            -- The last part of the directory.
            cases hd
            rw [he, List.nil_append]
            cases more <;> rfl
          | cons next rest =>
            rw [if_neg (by simp)] at hd ⊢
            split at hd
            · exact ih hd
            · cases hd
            · cases hd

/-- The name of an entry leads one step down. -/
theorem walk_name (hn : IsComponent name) (hw : t.walk here [name] = .ok place) :
    place = here ++ [name] := by
  have hhere : ¬ (name == ".") = true := by simpa using hn.notHere
  have hup : ¬ (name == "..") = true := by simpa using hn.notUp
  rw [walk, if_neg hhere, if_neg hup] at hw
  split at hw
  · cases hw
  · simp only [List.isEmpty_nil, if_true] at hw
    cases hw
    rfl

/-- From the name of an entry only a directory leads on. -/
theorem directory_of_walk {more : List String} (hn : IsComponent name) (hmore : more ≠ [])
    (hw : t.walk here (name :: more) = .ok place) :
    t.entryAt (here ++ [name]) = some .directory := by
  have hhere : ¬ (name == ".") = true := by simpa using hn.notHere
  have hup : ¬ (name == "..") = true := by simpa using hn.notUp
  have hlast : ¬ more.isEmpty = true := by simpa using hmore
  rw [walk, if_neg hhere, if_neg hup] at hw
  split_ifs at hw
  simp only at hw
  split at hw
  · next he => exact he
  · cases hw
  · cases hw

theorem reach_of_follow {p : Path} (h : t.follow p parts = .ok place) :
    p.text ≠ "" ∧ t.walk (if p.isAbsolute then [] else t.workDir) parts = .ok place := by
  unfold follow reach at h
  split_ifs at h with hlong hempty hzero habs
  · exact ⟨by simpa using hempty, by rw [if_pos habs]; exact h⟩
  · exact ⟨by simpa using hempty, by rw [if_neg habs]; exact h⟩

theorem text_ne_of_lookup {p : Path} (h : t.lookup p = .ok (place, e)) : p.text ≠ "" := by
  unfold lookup at h
  cases hl : t.locate p with
  | error err => rw [hl] at h; cases h
  | ok q => exact (reach_of_follow hl).1

theorem locate_of_lookup {p : Path} {e : Entry} (h : t.lookup p = .ok (place, e)) :
    t.locate p = .ok place ∧ t.entryAt place = some e := by
  unfold lookup at h
  cases hl : t.locate p with
  | error err => rw [hl] at h; cases h
  | ok q =>
    rw [hl] at h
    change t.entryFor p q = _ at h
    unfold entryFor at h
    split at h
    · cases h
    · next he => split at h <;> cases h; exact ⟨rfl, he⟩
    · next he => cases h; exact ⟨rfl, he⟩

/-- The path of an entry leads to its place in the directory, if it leads anywhere. -/
theorem locate_child (hd : t.lookup d = .ok (place, .directory)) (hn : IsComponent name)
    (hl : t.locate (d.child name) = .ok place') : place' = place ++ [name] := by
  have htext := text_ne_of_lookup hd
  have hdirectory : t.isDirectory d = true := by
    unfold isDirectory
    rw [hd]
  obtain ⟨q, hq, he, hd'⟩ := lookup_of_isDirectory hdirectory
  obtain rfl : q = place := by
    rw [hd] at hd'
    cases hd'
    rfl
  obtain ⟨-, hwalk⟩ := reach_of_follow hq
  obtain ⟨-, hwalk'⟩ := reach_of_follow hl
  rw [Path.isAbsolute_child htext hn.noSlash, Path.parts_child htext hn, walk_append hwalk he]
    at hwalk'
  exact walk_name hn hwalk'

theorem lookup_child (hd : t.lookup d = .ok (place, .directory)) (hn : IsComponent name)
    (hl : t.locate (d.child name) = .ok place') (he : t.entryAt place' = some e) :
    t.lookup (d.child name) = .ok (place ++ [name], e) := by
  obtain rfl := locate_child hd hn hl
  have hasks := Path.asksDirectory_child (text_ne_of_lookup hd) hn
  rw [lookup, hl]
  change t.entryFor _ _ = _
  rw [entryFor, he]
  cases e with
  | directory => rfl
  | file bytes time => simp [hasks]

/-- A file whose name starts with that of an entry is written only under the name of an
entry, if there is no directory in the directory that it could be in. -/
theorem isComponent_of_writable (hd : t.lookup d = .ok (place, .directory))
    (hfree : ∀ n, t.entryAt (place ++ [n]) ≠ some .directory)
    (hn : IsComponent (Path.firstPart name)) (hw : t.writable (d.child name) = .ok place') :
    IsComponent name := by
  by_cases hslash : '/' ∈ name.toList
  · have htext := text_ne_of_lookup hd
    have habs := Path.isAbsolute_of_firstPart hn
    have hend : (Path.mk name).endsInSlash = false := by
      rw [← Path.endsInSlash_join htext habs fun hempty => by simp [hempty] at hslash]
      rw [← Bool.not_eq_true]
      intro hend
      rw [writable, if_pos hend] at hw
      cases hf : t.follow (d.child name) ((d.child name).parts.dropLast ++ ["."]) with
      | error e => rw [hf] at hw; cases hw
      | ok q => rw [hf] at hw; cases hw
    obtain ⟨more, hmore, hparts⟩ := Path.parts_of_slash hn hslash hend
    obtain ⟨hlocate, he⟩ := locate_of_lookup hd
    obtain ⟨-, hwalk⟩ := reach_of_follow hlocate
    obtain ⟨-, hwalk'⟩ := reach_of_follow (locate_of_writable hw).1
    rw [Path.isAbsolute_join htext habs, Path.parts_join htext habs, walk_append hwalk he, hparts]
      at hwalk'
    exact absurd (directory_of_walk hn hmore hwalk') (hfree _)
  · rwa [Path.firstPart_of_noSlash hslash] at hn

/-! ## Files of a directory -/

/-- The files in a directory are those at the places directly in its own. -/
theorem mem_filesIn (hd : t.lookup d = .ok (place, .directory)) :
    (name, time) ∈ t.filesIn d ↔ ∃ bytes, t.entryAt (place ++ [name]) = some (.file bytes time) := by
  have hplace : ∀ at' : List String, at'.dropLast = place ∧ at'.getLast? = some name ↔
      at' = place ++ [name] := by
    intro at'
    constructor
    · rintro ⟨rfl, hlast⟩
      obtain ⟨front, rfl⟩ := List.getLast?_eq_some_iff.1 hlast
      rw [List.dropLast_concat]
    · rintro rfl
      simp
  rw [filesIn_of_directory hd, List.mem_filterMap, entryAt_of_ne_nil (by simp)]
  constructor
  · rintro ⟨⟨at', e⟩, hmem, hbelow⟩
    cases e with
    | directory => cases hbelow
    | file bytes time' =>
      simp only [fileBelow, beq_iff_eq] at hbelow
      split_ifs at hbelow with hdrop
      obtain ⟨last, hlast, heq⟩ := Option.map_eq_some_iff.1 hbelow
      cases heq
      exact ⟨bytes, (hplace at').1 ⟨hdrop, hlast⟩ ▸ Table.mem_entries_iff.1 hmem⟩
  · rintro ⟨bytes, he⟩
    refine ⟨(place ++ [name], .file bytes time), Table.mem_entries_iff.2 he, ?_⟩
    simp [fileBelow]

/-- Files in one directory have different names. -/
theorem nodup_filesIn (t : FileTree) (d : Path) : ((t.filesIn d).map Prod.fst).Nodup := by
  by_cases hd : t.filesIn d = []
  · simp [hd]
  obtain ⟨place, hl⟩ := directory_of_filesIn hd
  have hplace : ∀ (e : List String × Entry) (f : String × Stamp), fileBelow place e = some f →
      e.1 = place ++ [f.1] := by
    rintro ⟨at', e⟩ ⟨name, time⟩ hf
    cases e with
    | directory => cases hf
    | file bytes time' =>
      simp only [fileBelow, beq_iff_eq] at hf
      split_ifs at hf with hdrop
      obtain ⟨last, hlast, heq⟩ := Option.map_eq_some_iff.1 hf
      cases heq
      obtain ⟨front, rfl⟩ := List.getLast?_eq_some_iff.1 hlast
      rw [← hdrop, List.dropLast_concat]
  rw [filesIn_of_directory hl, List.nodup_iff_pairwise_ne, List.pairwise_map, List.pairwise_filterMap]
  refine (List.pairwise_map.1 t.entries.distinct).imp fun {a b} hne f hf g hg he => hne ?_
  rw [hplace a f hf, hplace b g hg, he]

end

/-! ## Directories that were made -/

section
variable {t t' : FileTree} {p : Path}

theorem isDirectory_of_locate {place : List String} (hl : t.locate p = .ok place)
    (he : t.entryAt place = some .directory) : t.isDirectory p = true := by
  simp [isDirectory, lookup, hl, Except.bind, entryFor, he]

theorem isDirectory_of_ensureDirectory (h : t.ensureDirectory p = .ok t') :
    t'.isDirectory p = true := by
  have hmakes := makes_ensureDirectory h
  unfold ensureDirectory at h
  split at h
  · next made hm =>
    cases h
    unfold makeDirectory at hm
    cases hl : t.locate p with
    | error e => rw [hl] at hm; cases hm
    | ok place =>
      rw [hl] at hm
      refine isDirectory_of_locate (hmakes.extends.keepsDirectories.locate hl) ?_
      simp only at hm
      split at hm
      · cases hm
      · next hnone =>
        split at hm
        · cases hm
          exact (entryAt_put t (ne_nil_of_entryAt hnone) .directory t.writes place).trans (if_pos rfl)
        · cases hm
        · cases hm
  · split at h
    · next hd => cases h; exact hd
    · cases h

/-- Once they could be made, there is a directory. -/
theorem isDirectory_of_makeDirectories (hp : p.text ≠ "") (h : t.makeDirectories p = (.ok (), t')) :
    t'.isDirectory p = true := by
  obtain ⟨above, ha⟩ : ∃ above, p.selfAndAbove = p :: above := by
    unfold Path.selfAndAbove
    cases p.components.length with
    | zero => exact ⟨[], rfl⟩
    | succ n =>
      rw [Path.upwards]
      split
      · exact ⟨[], rfl⟩
      · exact ⟨_, rfl⟩
  have hne : ¬ (p.text == "") = true := by simpa using hp
  rw [makeDirectories, ha, makeDirectoriesUp, if_neg hne] at h
  split at h
  · next made hens => cases h; exact isDirectory_of_ensureDirectory hens
  · rcases hup : t.makeDirectoriesUp above with ⟨_ | _, made⟩
    · rw [hup] at h; cases h
    · rw [hup] at h
      simp only [attempt] at h
      split at h
      · cases h
      · next made' hens => cases h; exact isDirectory_of_ensureDirectory hens
  · cases h

end

end FileTree

/-! ## What a pattern finds -/

namespace FilePattern

section
variable {pattern : FilePattern} {files : FileTree} {d : Path} {s : FileStamp} {name : String}

theorem mem_scan : s ∈ pattern.scan files d ↔ ∃ name time, (name, time) ∈ files.filesIn d ∧
    pattern.matchesName name = true ∧ s = ⟨d.child name, time⟩ := by
  unfold scan
  simp only [List.mem_map, List.mem_mergeSort, List.mem_filter, Prod.exists]
  constructor
  · rintro ⟨name, time, ⟨hmem, hmatch⟩, rfl⟩
    exact ⟨name, time, hmem, hmatch, rfl⟩
  · rintro ⟨name, time, hmem, hmatch, rfl⟩
    exact ⟨name, time, ⟨hmem, hmatch⟩, rfl⟩

/-- The names of the files that are found, in order. -/
def names (pattern : FilePattern) (files : FileTree) (d : Path) : List String :=
  (((files.filesIn d).map Prod.fst).filter pattern.matchesName).mergeSort fun a b => !(b < a)

theorem map_path_scan (pattern : FilePattern) (files : FileTree) (d : Path) :
    (pattern.scan files d).map FileStamp.path = (pattern.names files d).map d.child := by
  have hsort := List.map_mergeSort (f := Prod.fst)
    (l := (files.filesIn d).filter (pattern.matchesName ∘ Prod.fst))
    (r := fun a b => !(b.1 < a.1)) (s := fun a b => !(b < a)) fun _ _ _ _ => rfl
  rw [scan, names, List.filter_map, List.map_map, ← hsort, List.map_map]
  rfl

theorem mem_names : name ∈ pattern.names files d ↔
    (∃ time, (name, time) ∈ files.filesIn d) ∧ pattern.matchesName name = true := by
  simp [names]

theorem nodup_names (pattern : FilePattern) (files : FileTree) (d : Path) :
    (pattern.names files d).Nodup :=
  (List.mergeSort_perm _ _).nodup_iff.2 ((files.nodup_filesIn d).filter _)

/-- The names ascend. -/
theorem pairwise_names (pattern : FilePattern) (files : FileTree) (d : Path) :
    (pattern.names files d).Pairwise (· < ·) := by
  have hle : ∀ a b : String, (!decide (b < a)) = true ↔ a ≤ b := fun a b => by
    rw [Bool.not_eq_true', decide_eq_false_iff_not, String.not_lt]
  have hsorted : (pattern.names files d).Pairwise fun a b => (!decide (b < a)) = true := by
    refine List.pairwise_mergeSort (fun a b c hab hbc => ?_) (fun a b => ?_) _
    · exact (hle a c).2 (String.le_trans ((hle a b).1 hab) ((hle b c).1 hbc))
    · rw [Bool.or_eq_true, hle, hle]
      exact String.le_total a b
  -- Names that do not descend and differ ascend.
  refine hsorted.imp₂ (fun a b hab hne => ?_) (pattern.nodup_names files d)
  exact Std.lt_of_le_of_ne ((hle a b).1 hab) hne

/-! ### The order of what is found -/

/-- Whether a directory has a file of some name that matches. -/
def Finds (pattern : FilePattern) (files : FileTree) (d : Path) (name : String) : Prop :=
  pattern.matchesName name = true ∧ ∃ place bytes time,
    files.lookup d = .ok (place, .directory) ∧
      files.entryAt (place ++ [name]) = some (.file bytes time)

/-- Whether some names are those of the matching files in a directory, in ascending
order. The paths with these names then ascend, too (`InOrder.pairwise_paths`). -/
structure InOrder (pattern : FilePattern) (files : FileTree) (d : Path) (names : List String) :
    Prop where
  mem_iff : ∀ name, name ∈ names ↔ pattern.Finds files d name
  ascending : names.Pairwise (· < ·)

theorem finds_iff : pattern.Finds files d name ↔
    (∃ time, (name, time) ∈ files.filesIn d) ∧ pattern.matchesName name = true := by
  constructor
  · rintro ⟨hmatch, place, bytes, time, hd, he⟩
    exact ⟨⟨time, (FileTree.mem_filesIn hd).2 ⟨bytes, he⟩⟩, hmatch⟩
  · rintro ⟨⟨time, hmem⟩, hmatch⟩
    obtain ⟨place, hd⟩ := FileTree.directory_of_filesIn (List.ne_nil_of_mem hmem)
    obtain ⟨bytes, he⟩ := (FileTree.mem_filesIn hd).1 hmem
    exact ⟨hmatch, place, bytes, time, hd, he⟩

theorem inOrder_names (pattern : FilePattern) (files : FileTree) (d : Path) :
    pattern.InOrder files d (pattern.names files d) :=
  ⟨fun _ => mem_names.trans finds_iff.symm, pattern.pairwise_names files d⟩

namespace InOrder

variable {names names' : List String}

theorem nodup (h : pattern.InOrder files d names) : names.Nodup :=
  List.nodup_iff_pairwise_ne.2 (h.ascending.imp String.ne_of_lt)

/-- There is just one order. -/
theorem unique (h : pattern.InOrder files d names) (h' : pattern.InOrder files d names') :
    names = names' := by
  refine List.Perm.eq_of_pairwise (fun a b _ _ hab hba => absurd hba (String.lt_asymm hab))
    h.ascending h'.ascending ((List.perm_ext_iff_of_nodup h.nodup h'.nodup).2 fun name => ?_)
  rw [h.mem_iff, h'.mem_iff]

/-- It is the one of a scan. -/
theorem map_path_scan (h : pattern.InOrder files d names) :
    (pattern.scan files d).map FileStamp.path = names.map d.child := by
  rw [FilePattern.map_path_scan, h.unique (pattern.inOrder_names files d)]

/-- Paths in one directory differ in their last components only. -/
theorem pairwise_paths (h : pattern.InOrder files d names) (hn : ∀ name ∈ names, IsComponent name) :
    (names.map d.child).Pairwise fun a b => a.components < b.components := by
  refine List.pairwise_map.2 (h.ascending.imp_of_mem fun {a b} ha hb hab => ?_)
  obtain ⟨-, place, _, _, hd, -⟩ := (h.mem_iff a).1 ha
  have htext := FileTree.text_ne_of_lookup hd
  rw [Path.components_child htext (hn a ha), Path.components_child htext (hn b hb)]
  exact List.append_left_lt (List.Lex.rel hab)

end InOrder

/-- Whether names are in order is found out from the list of the directory. -/
theorem inOrder_iff {names : List String} : pattern.InOrder files d names ↔
    names.Pairwise (· < ·) ∧
      names.Perm (((files.filesIn d).map Prod.fst).filter pattern.matchesName) := by
  have hsort : (pattern.names files d).Perm _ := List.mergeSort_perm _ _
  refine ⟨fun h => ⟨h.ascending, ?_⟩, fun ⟨hascending, hperm⟩ => ⟨fun name => ?_, hascending⟩⟩
  · rwa [h.unique (pattern.inOrder_names files d)]
  · rw [(hperm.trans hsort.symm).mem_iff, (pattern.inOrder_names files d).mem_iff]

instance (names : List String) : Decidable (pattern.InOrder files d names) :=
  decidable_of_iff' _ inOrder_iff

/-- The files that are found are sorted by their paths. -/
theorem pairwise_scan (pattern : FilePattern) (hn : ∀ f ∈ files.filesIn d, IsComponent f.1) :
    (pattern.scan files d).Pairwise fun a b => a.path.components < b.path.components := by
  rw [← List.pairwise_map (f := FileStamp.path) (R := fun a b => a.components < b.components),
    map_path_scan]
  refine (pattern.inOrder_names files d).pairwise_paths fun name hname => ?_
  obtain ⟨⟨time, hmem⟩, -⟩ := mem_names.1 hname
  exact hn _ hmem

end

end FilePattern

end TemplateInventory
