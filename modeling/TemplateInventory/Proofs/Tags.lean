import TemplateInventory.Proofs.Listing
import TemplateInventory.Proofs.Runs
import TemplateInventory.Xml.Event
import TemplateInventory.Xml.Printer
/-!
# Reading printed tags

The tag of an element is read as it was printed, if the names in it are names
(`isName`): others end a tag early or hide its attributes. A printed tag is taken
up to its own `>`, because what could end it is escaped (`goesOn_content`), and its
attributes are read one by one (`attributesFrom_attribute`). So the tag gives the
event of the element (`openEvent_tagContent`, `openEvent_bare`, `closeEvent_name`).
-/

namespace TemplateInventory

namespace Xml

open TemplateInventory.Text

/-! ## Characters -/

/-- The characters that markup is told apart by. -/
def markupChars : List Char := ['<', '>', '/', '=', '&', '!', '?', '\x22', '\x27']

/-- The characters of names. -/
def isNameChar (c : Char) : Bool := !isMarkupBlank c && !markupChars.contains c

/-- Whether a text serves as a name. -/
def isName (s : String) : Bool := !s.toList.isEmpty && s.toList.all isNameChar

section
variable {c q : Char} {cs rest : List Char} {name : String}

/-! ## Names -/

theorem ne_nil_of_isName (h : isName name = true) : name.toList ≠ [] := by
  simp only [isName, Bool.and_eq_true, Bool.not_eq_true', List.isEmpty_eq_false_iff] at h
  exact h.1

theorem isNameChar_of_mem (h : isName name = true) (hc : c ∈ name.toList) :
    isNameChar c = true := by
  simp only [isName, Bool.and_eq_true, List.all_eq_true] at h
  exact h.2 c hc

theorem not_blank_of_isNameChar (h : isNameChar c = true) : isMarkupBlank c = false := by
  simp only [isNameChar, Bool.and_eq_true, Bool.not_eq_true'] at h
  exact h.1

theorem ne_of_isNameChar (h : isNameChar c = true) (hq : q ∈ markupChars) : c ≠ q := by
  rintro rfl
  simp only [isNameChar, Bool.and_eq_true, Bool.not_eq_true', List.contains_eq_mem,
    decide_eq_false_iff_not] at h
  exact h.2 hq

theorem endsName_of_isNameChar (h : isNameChar c = true) : endsName c = false := by
  have hne : c ≠ '=' := ne_of_isNameChar h (by decide)
  simp [endsName, hne, not_blank_of_isNameChar h]

/-! ## Escaped texts -/

/-- The characters that are not written as they are. -/
def escaped : List Char := ['<', '>', '&', '\x22', '\x27']

theorem escapeChar_of_not_mem (h : c ∉ escaped) : escapeChar c = [c] := by
  simp only [escaped, List.mem_cons, List.not_mem_nil, or_false, not_or] at h
  simp [escapeChar, h]

theorem not_mem_escapeChar (hc : c ∈ escaped) :
    (['<', '>', '\x22', '\x27'].all fun q => !(escapeChar c).contains q) = true := by
  simp only [escaped, List.mem_cons, List.not_mem_nil, or_false] at hc
  rcases hc with rfl | rfl | rfl | rfl | rfl <;> rfl

theorem not_mem_escape (hq : q ∈ ['<', '>', '\x22', '\x27']) : q ∉ escape cs := by
  intro h
  obtain ⟨c, -, hc⟩ := List.mem_flatMap.1 h
  by_cases hm : c ∈ escaped
  · have hnot := List.all_eq_true.1 (not_mem_escapeChar hm) q hq
    simp [hc] at hnot
  · rw [escapeChar_of_not_mem hm, List.mem_singleton] at hc
    subst hc
    have hsome : ∀ q ∈ ['<', '>', '\x22', '\x27'], q ∈ escaped := by simp [escaped]
    exact hm (hsome q hq)

/-! ## Tags -/

/-- The characters between the `<` and the end of a printed start tag. -/
def tagContent (name : String) (attributes : Table String String) : List Char :=
  name.toList ++ attributes.entries.flatMap printAttribute

/-- Whether a tag goes on after `cs` as it would go on after nothing: no `>` of
`cs` is its end, and no quote stays open. -/
def GoesOn (cs : List Char) : Prop :=
  ∀ rest, takeTag none (cs ++ rest) = (takeTag none rest).map fun r => (cs ++ r.1, r.2)

theorem goesOn_nil : GoesOn [] := fun rest => by simp

theorem GoesOn.append {cs cs' : List Char} (h : GoesOn cs) (h' : GoesOn cs') :
    GoesOn (cs ++ cs') := fun rest => by
  rw [List.append_assoc, h, h', Option.map_map]
  simp [Function.comp_def]

theorem goesOn_char (hc : c ≠ '>' ∧ c ≠ '\x22' ∧ c ≠ '\x27') : GoesOn [c] := fun rest => by
  simp [takeTag, hc]

theorem goesOn_all (h : ∀ c ∈ cs, GoesOn [c]) : GoesOn cs := by
  induction cs with
  | nil => exact goesOn_nil
  | cons c cs ih =>
    exact (h c List.mem_cons_self).append (ih fun d hd => h d (List.mem_cons_of_mem c hd))

theorem goesOn_name (hn : isName name = true) : GoesOn name.toList :=
  goesOn_all fun c hc =>
    have hchar := isNameChar_of_mem hn hc
    goesOn_char ⟨ne_of_isNameChar hchar (by decide), ne_of_isNameChar hchar (by decide),
      ne_of_isNameChar hchar (by decide)⟩

/-- What stands between two quotes. -/
theorem goesOn_quoted (h : '\x22' ∉ cs) : GoesOn ('\x22' :: cs ++ ['\x22']) := fun rest => by
  have hopen : takeTag (some '\x22') (cs ++ '\x22' :: rest) =
      (takeTag none rest).map fun r => (cs ++ '\x22' :: r.1, r.2) := by
    induction cs with
    | nil => simp [takeTag]
    | cons c cs ih =>
      rw [List.mem_cons, not_or] at h
      have hc : c ≠ '\x22' := fun he => h.1 he.symm
      simp [takeTag, hc, ih h.2, Option.map_map, Function.comp_def]
  simp [takeTag, hopen, Option.map_map, Function.comp_def]

theorem goesOn_attribute {e : String × String} (hn : isName e.1 = true) :
    GoesOn (printAttribute e) := by
  have hquote : '\x22' ∉ escape e.2.toList := not_mem_escape (by decide)
  have hvalue := goesOn_quoted hquote
  have hstart := (goesOn_char (c := ' ') (by decide)).append (goesOn_name hn)
  have hall := hstart.append ((goesOn_char (c := '=') (by decide)).append hvalue)
  simpa [printAttribute] using hall

theorem goesOn_content {attributes : Table String String} (hn : isName name = true)
    (ha : ∀ n ∈ attributes.keys, isName n = true) : GoesOn (tagContent name attributes) := by
  refine (goesOn_name hn).append ?_
  have hall : ∀ e ∈ attributes.entries, GoesOn (printAttribute e) := fun e he =>
    goesOn_attribute (ha e.1 (List.mem_map_of_mem he))
  generalize attributes.entries = es at hall
  induction es with
  | nil => exact goesOn_nil
  | cons e es ih =>
    rw [List.flatMap_cons]
    exact (hall e List.mem_cons_self).append (ih fun e' he' => hall e' (List.mem_cons_of_mem e he'))

/-! ## Attributes -/

/-- One attribute is read, and then what follows it. -/
theorem attributesFrom_attribute (total pos : Nat) {seen : List (List Char × Nat)}
    (read : Table String String) {e : String × String} (rest : List Char) (hn : isName e.1 = true)
    (hnew : findEntry e.1.toList seen = none) :
    ∃ first pos', attributesFrom total seen read pos (printAttribute e ++ rest) =
      attributesFrom total ((e.1.toList, first) :: seen) (read.put e.1 e.2) pos' rest := by
  obtain ⟨name, value⟩ := e
  obtain ⟨c, tail, hname⟩ := List.exists_cons_of_ne_nil (ne_nil_of_isName hn)
  have hchar : ∀ d ∈ c :: tail, isNameChar d = true := fun d hd => isNameChar_of_mem hn (hname ▸ hd)
  have hblank : isMarkupBlank c = false := not_blank_of_isNameChar (hchar c List.mem_cons_self)
  have htail : ∀ d ∈ tail, (!endsName d) = true := fun d hd => by
    rw [endsName_of_isNameChar (hchar d (List.mem_cons_of_mem c hd))]
    rfl
  have hbody : ∀ d ∈ escape value.toList, (d != '\x22') = true := fun d hd => by
    rw [bne_iff_ne]
    rintro rfl
    exact not_mem_escape (q := '\x22') (by decide) hd
  simp only at hnew hname ⊢
  rw [hname] at hnew
  have hprint : printAttribute (name, value) ++ rest =
      [' '] ++ c :: (tail ++ '=' :: '\x22' :: (escape value.toList ++ '\x22' :: rest)) := by
    simp [printAttribute, hname]
  have hstart : ([' '] ++ c :: (tail ++ '=' :: '\x22' :: (escape value.toList ++ '\x22' :: rest))
      ).dropWhile isMarkupBlank =
        c :: (tail ++ '=' :: '\x22' :: (escape value.toList ++ '\x22' :: rest)) :=
    dropWhile_append_stop (by simp [isMarkupBlank]) hblank
  have hequals : (tail ++ '=' :: '\x22' :: (escape value.toList ++ '\x22' :: rest)).dropWhile
      (!endsName ·) = '=' :: '\x22' :: (escape value.toList ++ '\x22' :: rest) :=
    dropWhile_append_stop htail (by decide)
  have hquote : (escape value.toList ++ '\x22' :: rest).dropWhile (· != '\x22') = '\x22' :: rest :=
    dropWhile_append_stop hbody (by decide)
  have hback : String.ofList (c :: tail) = name := by rw [← hname, String.ofList_toList]
  -- The reading takes one piece after the other, and each `split` is one of them.
  rw [hprint, attributesFrom]
  split
  · next h => cases h.symm.trans hstart
  · next h =>
    cases h.symm.trans hstart
    simp only [takeWhile_append_stop htail (c := '=') (by decide)]
    split
    · next h => simp [hequals, isMarkupBlank] at h
    · next h =>
      cases h.symm.trans (congrArg (List.dropWhile isMarkupBlank) hequals)
      simp only [ne_eq, not_true, if_false, hnew]
      split
      · next h => simp [isMarkupBlank] at h
      · next h =>
        cases h
        simp only [not_true, false_and, if_false, unescape_escape,
          takeWhile_append_stop hbody (c := '\x22') (by decide)]
        split
        · next h => cases h.symm.trans hquote
        · next h =>
          cases h.symm.trans hquote
          rw [hback, String.ofList_toList, hname]
          exact ⟨_, _, rfl⟩

/-- Printed attributes are read one after the other. -/
theorem attributesFrom_print {total pos : Nat} {seen : List (List Char × Nat)}
    {read : Table String String} {es : List (String × String)} (hn : (es.map Prod.fst).Nodup)
    (hs : ∀ e ∈ es, isName e.1 = true ∧ findEntry e.1.toList seen = none) :
    attributesFrom total seen read pos (es.flatMap printAttribute) = .ok (read.putAll es) := by
  induction es generalizing seen read pos with
  | nil =>
    rw [List.flatMap_nil, attributesFrom]
    rfl
  | cons e es ih =>
    rw [List.map_cons, List.nodup_cons] at hn
    obtain ⟨hname, hnew⟩ := hs e List.mem_cons_self
    obtain ⟨first, pos', hread⟩ := attributesFrom_attribute total pos read
      (es.flatMap printAttribute) hname hnew
    rw [List.flatMap_cons, hread, ih hn.2 fun e' he' => ?_]
    · rfl
    · obtain ⟨hname', hnew'⟩ := hs e' (List.mem_cons_of_mem e he')
      have hne : e.1.toList ≠ e'.1.toList := fun h =>
        hn.1 (String.toList_injective h ▸ List.mem_map_of_mem he')
      exact ⟨hname', by rw [findEntry, if_neg hne, hnew']⟩

section
variable {attributes : Table String String}

theorem tagName_tagContent (hn : isName name = true) :
    tagName (tagContent name attributes) = name.toList := by
  have hvisible : ∀ c ∈ name.toList, (!isMarkupBlank c) = true := fun c hc => by
    rw [not_blank_of_isNameChar (isNameChar_of_mem hn hc)]
    rfl
  unfold tagName tagContent
  cases attributes.entries with
  | nil =>
    rw [List.flatMap_nil, List.takeWhile_append_of_pos hvisible, List.takeWhile_nil, List.append_nil]
  | cons e es => exact takeWhile_append_stop hvisible (by decide)

theorem tagAttributes_tagContent (hn : isName name = true)
    (ha : ∀ n ∈ attributes.keys, isName n = true) :
    tagAttributes (tagContent name attributes) = .ok attributes := by
  have hread : (Table.empty.putAll attributes.entries : Table String String) = attributes :=
    Table.ext (Table.entries_ofList attributes.distinct)
  simp only [tagAttributes, tagName_tagContent hn]
  rw [tagContent, List.drop_left, attributesFrom_print attributes.distinct fun e he =>
    ⟨ha e.1 (List.mem_map_of_mem he), rfl⟩, hread]

/-- A printed start tag does not look like an element without content. -/
theorem getLast?_tagContent (hn : isName name = true) :
    (tagContent name attributes).getLast? ≠ some '/' := by
  unfold tagContent
  rcases List.eq_nil_or_concat attributes.entries with he | ⟨es, e, he⟩
  · intro h
    rw [he, List.flatMap_nil, List.append_nil] at h
    exact ne_of_isNameChar (isNameChar_of_mem hn (List.mem_of_getLast? h)) (by decide) rfl
  · have hquote : printAttribute e =
        ' ' :: e.1.toList ++ '=' :: '\x22' :: escape e.2.toList ++ ['\x22'] := by
      simp [printAttribute]
    simp only [he, List.concat_eq_append, List.flatMap_append, List.flatMap_cons, List.flatMap_nil,
      List.append_nil, hquote, ← List.append_assoc, List.getLast?_concat]
    decide

theorem openEvent_tagContent (hn : isName name = true) (ha : ∀ n ∈ attributes.keys, isName n = true)
    (opened : List (List Char)) : openEvent opened (tagContent name attributes) =
      .ok (.opening name attributes, name.toList :: opened) := by
  have hlast : ((tagContent name attributes).getLast? == some '/') = false := by
    simpa using getLast?_tagContent hn
  simp [openEvent, hlast, tagAttributes_tagContent hn ha, tagName_tagContent hn]

theorem openEvent_bare (hn : isName name = true) (ha : ∀ n ∈ attributes.keys, isName n = true)
    (opened : List (List Char)) : openEvent opened (tagContent name attributes ++ ['/']) =
      .ok (.empty name attributes, opened) := by
  simp [openEvent, tagAttributes_tagContent hn ha, tagName_tagContent hn]

theorem closeEvent_name (hn : isName name = true) (pos : Nat) (opened : List (List Char)) :
    closeEvent pos (name.toList :: opened) name.toList = .ok (.closing, opened) := by
  have hlast : name.toList.getLast?.all (!isMarkupBlank ·) = true := by
    rw [Option.all_eq_true]
    intro c hc
    rw [not_blank_of_isNameChar (isNameChar_of_mem hn (List.mem_of_getLast? hc))]
    rfl
  simp [closeEvent, closingName, dropEndWhile_of_last hlast]

end

end

end Xml

end TemplateInventory
