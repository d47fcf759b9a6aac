import Mathlib.Data.List.TakeWhile
import TemplateInventory.Command.Report
import TemplateInventory.Proofs.Sessions
import TemplateInventory.Proofs.Skeletons
/-!
# Rows of key values

A listing has a row for each element: its name and its key values, with tabs between them.
White space at the end of the listing is left out, so that its last rows may be cut
(`Text.lineAfter_joinLines`).

The columns of a whole row ask for the key of its element, and those of a cut row do not
(`KeySchema.keyOf_eq_columns_iff`): they are too few, or the last is too short. Lower case
keeps how long a text is, counted by the lower-case forms of its characters
(`Text.length_lowercase`), so a part of a text never has the lower case of the whole.
-/

namespace TemplateInventory

/-! ## Texts without white space at the end -/

namespace Text

section
variable {p : Char → Bool}

theorem dropEndWhile_eq_nil_iff {cs : List Char} : dropEndWhile p cs = [] ↔ cs.all p = true := by
  rw [dropEndWhile, List.reverse_eq_nil_iff, List.dropWhile_eq_nil_iff, ← List.all_eq_true,
    List.all_reverse]

theorem dropEndWhile_append (xs ys : List Char) :
    dropEndWhile p (xs ++ ys) =
      if ys.all p = true then dropEndWhile p xs else xs ++ dropEndWhile p ys := by
  have hend : (ys.reverse.dropWhile p).isEmpty = true ↔ ys.all p = true := by
    rw [List.isEmpty_iff, ← List.reverse_eq_nil_iff, ← dropEndWhile, dropEndWhile_eq_nil_iff]
  rw [dropEndWhile, List.reverse_append, List.dropWhile_append]
  simp only [hend]
  split
  · rfl
  · rw [List.reverse_append, List.reverse_reverse, dropEndWhile]

/-- What is left is followed by characters that are dropped. -/
theorem exists_dropEndWhile (p : Char → Bool) (cs : List Char) :
    ∃ dropped, dropEndWhile p cs ++ dropped = cs ∧ dropped.all p = true := by
  refine ⟨(cs.reverse.takeWhile p).reverse, ?_, ?_⟩
  · rw [dropEndWhile, ← List.reverse_append, List.takeWhile_append_dropWhile, List.reverse_reverse]
  · rw [List.all_reverse]
    exact List.all_takeWhile

theorem drop_dropEndWhile_append (xs ys : List Char) :
    (dropEndWhile p (xs ++ ys)).drop xs.length = dropEndWhile p ys := by
  rw [dropEndWhile_append]
  split
  · next hall =>
    obtain ⟨dropped, hcut, -⟩ := exists_dropEndWhile p xs
    have hlength := congrArg List.length hcut
    rw [List.length_append] at hlength
    rw [dropEndWhile_eq_nil_iff.2 hall, List.drop_eq_nil_iff]
    omega
  · exact List.drop_left

end

/-- The line of a text after the lines `earlier`. -/
def lineAfter (earlier : List String) (text : String) : String :=
  String.ofList ((text.toList.drop (String.join (earlier.map (· ++ "\n"))).toList.length).takeWhile
    (· != '\n'))

/-- Whether there is only white space in a text. -/
def isBlankText (s : String) : Bool := s.toList.all isBlank

/-- A row is a line of the text that is made of rows, but for white space at its end if all
rows after it are blank. -/
theorem lineAfter_joinLines {before after : List String} {row : String} (h : '\n' ∉ row.toList) :
    lineAfter before (joinLines (before ++ row :: after)) =
      if after.all isBlankText = true then trimEnd row else row := by
  have hplain : ∀ cs : List Char, '\n' ∉ cs → ∀ c ∈ cs, (c != '\n') = true := fun cs hcs c hc => by
    rw [bne_iff_ne]
    exact fun he => hcs (he ▸ hc)
  have hlater : (String.join (after.map (· ++ "\n"))).toList.all isBlank = after.all isBlankText := by
    have hfeed : isBlank '\n' = true := by decide
    change _ = after.all fun row => row.toList.all isBlank
    simp [String.toList_join, List.all_flatMap, hfeed, Function.comp_def]
  have htext : (joinLines (before ++ row :: after)).toList = dropEndWhile isBlank
      ((String.join (before.map (· ++ "\n"))).toList ++
        (row.toList ++ (['\n'] ++ (String.join (after.map (· ++ "\n"))).toList))) := by
    simp [joinLines, trimEnd]
  have hrest : (['\n'] ++ (String.join (after.map (· ++ "\n"))).toList).all isBlank =
      after.all isBlankText := by
    rw [List.all_append, hlater]
    rfl
  rw [lineAfter, htext, drop_dropEndWhile_append, dropEndWhile_append, hrest, trimEnd]
  split
  · obtain ⟨dropped, hcut, -⟩ := exists_dropEndWhile isBlank row.toList
    have hpart : '\n' ∉ dropEndWhile isBlank row.toList := fun hm =>
      h (hcut ▸ List.mem_append_left dropped hm)
    rw [List.takeWhile_eq_self_iff.2 (hplain _ hpart)]
  · next hall =>
    rw [dropEndWhile_append, hlater, if_neg hall, List.takeWhile_append_of_pos (hplain _ h)]
    simp

/-! ## How long lower case is -/

/-- How long characters are in lower case. -/
def lowerLength (cs : List Char) : Nat := (cs.flatMap lowerChar).length

theorem lowerLength_append (xs ys : List Char) :
    lowerLength (xs ++ ys) = lowerLength xs + lowerLength ys := by
  simp [lowerLength]

theorem eq_nil_of_lowerLength {cs : List Char} (h : lowerLength cs = 0) : cs = [] := by
  have hne : ∀ c, lowerChar c ≠ [] := fun c => by
    unfold lowerChar
    split
    · exact List.cons_ne_nil _ _
    · split <;> exact List.cons_ne_nil _ _
  rw [lowerLength, List.length_eq_zero_iff, List.flatMap_eq_nil_iff] at h
  exact List.eq_nil_iff_forall_not_mem.2 fun c hc => hne c (h c hc)

theorem length_lowerFrom (before cs : List Char) :
    (lowerFrom before cs).length = lowerLength cs := by
  induction cs generalizing before with
  | nil => rfl
  | cons c cs ih =>
    have hfirst : (if c = 'Σ' then [lowerSigma before cs] else lowerChar c).length =
        lowerLength [c] := by
      split
      · next h => subst h; rfl
      · simp [lowerLength]
    rw [lowerFrom, List.length_append, hfirst, ih, ← lowerLength_append, List.singleton_append]

/-- The length of lower-case texts does not depend on where their letters stand. -/
theorem length_lowercase (texts : List String) :
    ((texts.map lowercase).flatMap String.toList).length =
      lowerLength (texts.flatMap String.toList) := by
  induction texts with
  | nil => rfl
  | cons text texts ih =>
    rw [List.map_cons, List.flatMap_cons, List.length_append, ih, lowercase, String.toList_ofList,
      length_lowerFrom, ← lowerLength_append, List.flatMap_cons]

/-- Each part after the first stands behind a separator. -/
theorem intercalate_cons (sep : Char) (first : List Char) (others : List (List Char)) :
    [sep].intercalate (first :: others) = first ++ others.flatMap (sep :: ·) := by
  induction others generalizing first with
  | nil => simp
  | cons second others ih =>
    rw [List.intercalate_cons_cons, ih, List.flatMap_cons]
    simp

theorem lowerLength_intercalate (first : List Char) (others : List (List Char)) :
    lowerLength (['\t'].intercalate (first :: others)) =
      lowerLength first + (others.length + lowerLength others.flatten) := by
  rw [intercalate_cons, lowerLength_append]
  refine congrArg (lowerLength first + ·) ?_
  induction others with
  | nil => rfl
  | cons second others ih =>
    have hsecond : lowerLength ('\t' :: second) = 1 + lowerLength second :=
      lowerLength_append ['\t'] second
    rw [List.flatMap_cons, lowerLength_append, ih, hsecond, List.length_cons, List.flatten_cons,
      lowerLength_append]
    omega

/-! ## Columns -/

/-- The columns of a line. -/
def columns (line : String) : List String := (line.toList.splitOn '\t').map String.ofList

theorem columns_eq_iff {line : String} {texts : List String} : columns line = texts ↔
    line.toList = ['\t'].intercalate (texts.map String.toList) ∧ texts ≠ [] ∧
      ∀ text ∈ texts, '\t' ∉ text.toList := by
  have hback : columns line = texts ↔ line.toList.splitOn '\t' = texts.map String.toList := by
    rw [columns]
    constructor
    · rintro rfl
      simp
    · intro h
      simp [h]
  rw [hback, splitOn_eq_iff, List.forall_mem_map]
  simp

theorem columns_ne_nil (line : String) : columns line ≠ [] := (columns_eq_iff.1 rfl).2.1

theorem length_columns (line : String) : (columns line).length = line.toList.count '\t' + 1 := by
  rw [columns, List.length_map]
  induction line.toList with
  | nil => rfl
  | cons c cs ih =>
    rw [List.splitOn_cons_eq_if_modifyHead, List.count_cons]
    split
    · rw [List.length_cons, ih]
    · rw [List.length_modifyHead, ih, Nat.add_zero]

theorem lowerLength_columns {line name : String} {words : List String}
    (h : columns line = name :: words) : lowerLength line.toList =
      lowerLength name.toList + (words.length + lowerLength (words.flatMap String.toList)) := by
  rw [(columns_eq_iff.1 h).1, List.map_cons, lowerLength_intercalate, List.length_map,
    List.flatMap_def]

end Text

/-! ## Rows and the keys that they ask for -/

open Text

theorem wordOf_keyValueOf (word : String) : wordOf (keyValueOf word) = word := by
  unfold keyValueOf
  split
  · next h => rw [h]; rfl
  · rfl

/-- Whether the word for a key value can be told apart in a row: it has no tab and no line feed,
and is not the sign for a missing value. -/
def IsPlainValue (value : Option String) : Prop :=
  value ≠ some absentSign ∧ ∀ s ∈ value, '\t' ∉ s.toList ∧ '\n' ∉ s.toList

instance : DecidablePred IsPlainValue := fun value =>
  inferInstanceAs (Decidable (value ≠ some absentSign ∧
    ∀ s ∈ value, '\t' ∉ s.toList ∧ '\n' ∉ s.toList))

theorem IsPlainValue.keyValueOf_wordOf {value : Option String} (h : IsPlainValue value) :
    keyValueOf (wordOf value) = value := by
  cases value with
  | none => rfl
  | some s => exact if_neg fun hs => h.1 (congrArg some hs)

theorem IsPlainValue.not_mem_wordOf {value : Option String} (h : IsPlainValue value) :
    '\t' ∉ (wordOf value).toList ∧ '\n' ∉ (wordOf value).toList := by
  cases value with
  | none => decide
  | some s => exact h.2 s rfl

theorem lowercase_wordOf (value : Option String) :
    lowercase (wordOf value) = wordOf (value.map lowercase) := by
  cases value with
  | none => decide
  | some s => rfl

namespace KeySchema

/-- Whether all key values of an element can be told apart in its row. -/
def PlainKey (s : KeySchema) (e : Element) : Prop := ∀ value ∈ s.valuesOf e, IsPlainValue value

instance (s : KeySchema) (e : Element) : Decidable (s.PlainKey e) :=
  inferInstanceAs (Decidable (∀ value ∈ s.valuesOf e, IsPlainValue value))

/-- The columns after the name; a row without key values has an empty one. -/
def cells (s : KeySchema) (e : Element) : List String :=
  match s.valuesOf e with
  | [] => [""]
  | values => values.map wordOf

section
variable {s : KeySchema} {e : Element} {line name : String} {words : List String}
  {dropped : List Char}

theorem valuesOf_eq_nil_iff : s.valuesOf e = [] ↔ s.attrsFor e.name = [] := by
  rw [← List.length_eq_zero_iff, length_valuesOf, List.length_eq_zero_iff]

theorem cells_of_nil (h : s.attrsFor e.name = []) : s.cells e = [""] := by
  rw [cells, valuesOf_eq_nil_iff.2 h]

theorem cells_of_ne_nil (h : s.attrsFor e.name ≠ []) : s.cells e = (s.valuesOf e).map wordOf := by
  unfold cells
  split
  · next hnil => exact absurd (valuesOf_eq_nil_iff.1 hnil) h
  · rfl

theorem cells_ne_nil (s : KeySchema) (e : Element) : s.cells e ≠ [] := by
  unfold cells
  split <;> simp_all

theorem toList_row (s : KeySchema) (e : Element) :
    (s.row e).toList = ['\t'].intercalate ((e.name :: s.cells e).map String.toList) := by
  rw [List.map_cons, List.intercalate_cons_of_ne_nil (by simp [cells_ne_nil]), row, cells]
  split
  · next h => simp [h]
  · simp [String.toList_intercalate]

theorem cells_plain (hp : s.PlainKey e) :
    ∀ cell ∈ s.cells e, '\t' ∉ cell.toList ∧ '\n' ∉ cell.toList := by
  unfold cells
  split
  · simp
  · rw [List.forall_mem_map]
    exact fun value hv => (hp value hv).not_mem_wordOf

theorem name_plain (hu : Xml.isUnbroken e.name = true) :
    '\t' ∉ e.name.toList ∧ '\n' ∉ e.name.toList := by
  rw [Xml.isUnbroken, List.all_eq_true] at hu
  exact ⟨fun h => absurd (hu _ h) (by decide), fun h => absurd (hu _ h) (by decide)⟩

theorem columns_row (hu : Xml.isUnbroken e.name = true) (hp : s.PlainKey e) :
    columns (s.row e) = e.name :: s.cells e := by
  refine columns_eq_iff.2 ⟨s.toList_row e, List.cons_ne_nil _ _, ?_⟩
  exact List.forall_mem_cons.2 ⟨(name_plain hu).1, fun cell hc => (cells_plain hp cell hc).1⟩

theorem not_mem_row (hu : Xml.isUnbroken e.name = true) (hp : s.PlainKey e) :
    '\n' ∉ (s.row e).toList := by
  rw [toList_row, List.map_cons, intercalate_cons, List.mem_append, List.mem_flatMap, not_or]
  refine ⟨(name_plain hu).2, ?_⟩
  rintro ⟨cs, hcs, hm⟩
  obtain ⟨cell, hc, rfl⟩ := List.mem_map.1 hcs
  exact (cells_plain hp cell hc).2 ((List.mem_cons.1 hm).resolve_left (by decide))

/-- The columns of a row ask for the key of its element. -/
theorem fit_cells (hp : s.PlainKey e) : s.fit e.name ((s.cells e).map keyValueOf) = s.valuesOf e := by
  have hlength := s.length_valuesOf e
  unfold cells
  split
  · next h =>
    rw [h, List.length_nil] at hlength
    rw [h, ← List.length_eq_zero_iff, length_fit, ← hlength]
  · have hback : ((s.valuesOf e).map wordOf).map keyValueOf = s.valuesOf e := by
      rw [List.map_map]
      exact (List.map_congr_left fun value hv => (hp value hv).keyValueOf_wordOf).trans (List.map_id _)
    rw [hback, fit_valuesOf]

/-- The row of an element without its last key value ends with the sign for a missing value. -/
theorem getLast?_row (h : (s.valuesOf e).getLast? = some none) :
    (s.row e).toList.getLast? = some '~' := by
  obtain ⟨values, hvalues⟩ := List.getLast?_eq_some_iff.1 h
  have hattrs : s.attrsFor e.name ≠ [] := fun hnil => by
    rw [valuesOf_eq_nil_iff.2 hnil] at hvalues
    simp at hvalues
  have hcells : s.cells e = values.map wordOf ++ ["~"] := by
    rw [cells_of_ne_nil hattrs, hvalues, List.map_append]
    rfl
  rw [toList_row, hcells, List.map_cons, intercalate_cons]
  simp

/-- Words that are too few ask for an element without its last key value. -/
theorem getLast?_of_short (hshort : words.length < (s.attrsFor e.name).length)
    (hkey : (s.valuesOf e).map (·.map lowercase) =
      (s.fit e.name (words.map keyValueOf)).map (·.map lowercase)) :
    (s.valuesOf e).getLast? = some none := by
  have hfit : (s.fit e.name (words.map keyValueOf)).getLast? = some none := by
    rw [fit, List.length_map, List.getLast?_append, List.getLast?_replicate, if_neg (by omega)]
    rfl
  have hlast := congrArg List.getLast? hkey
  rw [List.getLast?_map, List.getLast?_map, hfit] at hlast
  obtain ⟨value, hvalue, hnone⟩ := Option.map_eq_some_iff.1 hlast
  rw [hvalue, Option.map_eq_none_iff.1 hnone]

/-- Words that ask for the key of an element are as long as its key values in lower case. -/
theorem lowerLength_of_key (hattrs : s.attrsFor e.name ≠ [])
    (hlength : words.length = (s.attrsFor e.name).length)
    (hkey : (s.valuesOf e).map (·.map lowercase) =
      (s.fit e.name (words.map keyValueOf)).map (·.map lowercase)) :
    lowerLength ((s.cells e).flatMap String.toList) =
      lowerLength (words.flatMap String.toList) := by
  have hfit : s.fit e.name (words.map keyValueOf) = words.map keyValueOf := by
    simp [fit, ← hlength, List.take_of_length_le]
  have hlower : (s.cells e).map lowercase = words.map lowercase := by
    have hwords := congrArg (List.map wordOf) hkey
    simpa [hfit, cells_of_ne_nil hattrs, Function.comp_def, ← lowercase_wordOf,
      wordOf_keyValueOf] using hwords
  rw [← length_lowercase, ← length_lowercase, hlower]

/-- Nothing is cut behind the sign for a missing value. -/
theorem eq_nil_of_getLast? (hcut : line.toList ++ dropped = (s.row e).toList)
    (hd : dropped.all isBlank = true) (h : (s.valuesOf e).getLast? = some none) :
    dropped = [] := by
  have hlast := getLast?_row h
  rw [← hcut, List.getLast?_append] at hlast
  refine List.getLast?_eq_none_iff.1 (Option.eq_none_iff_forall_ne_some.2 fun c hc => ?_)
  rw [hc] at hlast
  obtain rfl : c = '~' := Option.some.inj hlast
  exact absurd (List.all_eq_true.1 hd _ (List.mem_of_getLast? hc)) (by decide)

theorem length_cut_columns (hu : Xml.isUnbroken e.name = true) (hp : s.PlainKey e)
    (hcut : line.toList ++ dropped = (s.row e).toList) (hcolumns : columns line = name :: words) :
    words.length ≤ (s.cells e).length := by
  have hline := length_columns line
  have hrow := length_columns (s.row e)
  rw [hcolumns, List.length_cons] at hline
  rw [columns_row hu hp, ← hcut, List.count_append, List.length_cons] at hrow
  omega

theorem lowerLength_cut_columns (hu : Xml.isUnbroken e.name = true) (hp : s.PlainKey e)
    (hcut : line.toList ++ dropped = (s.row e).toList)
    (hcolumns : columns line = e.name :: words) :
    words.length + lowerLength (words.flatMap String.toList) + lowerLength dropped =
      (s.cells e).length + lowerLength ((s.cells e).flatMap String.toList) := by
  have hline := lowerLength_columns hcolumns
  have hrow := lowerLength_columns (columns_row hu hp)
  rw [← hcut, lowerLength_append] at hrow
  omega

/-- A row with key values that still asks for the key of its element is whole. -/
theorem eq_nil_of_key (hu : Xml.isUnbroken e.name = true) (hp : s.PlainKey e)
    (hcut : line.toList ++ dropped = (s.row e).toList) (hd : dropped.all isBlank = true)
    (hcolumns : columns line = e.name :: words) (hattrs : s.attrsFor e.name ≠ [])
    (hkey : (s.valuesOf e).map (·.map lowercase) =
      (s.fit e.name (words.map keyValueOf)).map (·.map lowercase)) : dropped = [] := by
  have hcount := length_cut_columns hu hp hcut hcolumns
  have hsize := lowerLength_cut_columns hu hp hcut hcolumns
  have hcells : (s.cells e).length = (s.attrsFor e.name).length := by
    rw [cells_of_ne_nil hattrs, List.length_map, length_valuesOf]
  by_cases hshort : words.length < (s.attrsFor e.name).length
  · exact eq_nil_of_getLast? hcut hd (getLast?_of_short hshort hkey)
  · have hlength : words.length = (s.attrsFor e.name).length := by omega
    have hsame := lowerLength_of_key hattrs hlength hkey
    exact eq_nil_of_lowerLength (by omega)

/-- A row without key values is whole, or ends after the name. -/
theorem eq_nil_or_eq_name (hu : Xml.isUnbroken e.name = true) (hp : s.PlainKey e)
    (hcut : line.toList ++ dropped = (s.row e).toList) (hcolumns : columns line = e.name :: words)
    (hattrs : s.attrsFor e.name = []) : dropped = [] ∨ line = e.name := by
  have hsize := lowerLength_cut_columns hu hp hcut hcolumns
  have hempty : lowerLength ([""].flatMap String.toList) = 0 := rfl
  rw [cells_of_nil hattrs, hempty, List.length_singleton] at hsize
  cases words with
  | nil =>
    refine .inr ?_
    rw [← String.toList_inj, (columns_eq_iff.1 hcolumns).1]
    simp
  | cons word words =>
    rw [List.length_cons] at hsize
    exact .inl (eq_nil_of_lowerLength (by omega))

/-- A row that is cut asks for another key, unless it ends after the name of an element without
key attributes. -/
theorem keyOf_eq_columns_iff (hu : Xml.isUnbroken e.name = true) (hp : s.PlainKey e)
    (hcut : line.toList ++ dropped = (s.row e).toList) (hd : dropped.all isBlank = true)
    (hcolumns : columns line = name :: words) :
    s.keyOf e = .of name (s.fit name (words.map keyValueOf)) .main ↔
      line = s.row e ∨ s.attrsFor e.name = [] ∧ line = e.name := by
  have hwhole : dropped = [] → line = s.row e := fun h => by
    rw [← String.toList_inj, ← hcut, h, List.append_nil]
  constructor
  · intro hkey
    obtain rfl : e.name = name := congrArg ElementKey.element hkey
    by_cases hattrs : s.attrsFor e.name = []
    · exact (eq_nil_or_eq_name hu hp hcut hcolumns hattrs).imp hwhole fun h => ⟨hattrs, h⟩
    · exact .inl (hwhole (eq_nil_of_key hu hp hcut hd hcolumns hattrs
        (congrArg ElementKey.values hkey)))
  · rintro (rfl | ⟨hattrs, rfl⟩)
    · rw [columns_row hu hp] at hcolumns
      cases hcolumns
      rw [fit_cells hp]
      rfl
    · have hname : columns e.name = [e.name] := columns_eq_iff.2 ⟨by simp, List.cons_ne_nil _ _,
        List.forall_mem_singleton.2 (name_plain hu).1⟩
      rw [hname] at hcolumns
      cases hcolumns
      have hfit : s.fit e.name [] = [] := by
        rw [← List.length_eq_zero_iff, length_fit, hattrs, List.length_nil]
      rw [KeySchema.keyOf, valuesOf_eq_nil_iff.2 hattrs, List.map_nil, hfit]

end

end KeySchema

end TemplateInventory
