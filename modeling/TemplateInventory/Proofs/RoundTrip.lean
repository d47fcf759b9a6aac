import TemplateInventory.Proofs.Tags
import TemplateInventory.Proofs.Trees
import TemplateInventory.Query.Parser
import TemplateInventory.Xml.Document
/-!
# Reading what was printed

Reading takes away the white space at the ends of texts, and texts of which nothing
is left. That is all: either form of an element is read back as `e.tidy`, if the
names in it are names (`parse_printDocument_append`, `parse_printCompact`). Names of
letters and digits are (`parse_printed`).

What stands before a tag is white space or a text (`Precedes`), so the tags of a
printed element give its events (`eventsFrom_spacedThen`), and these build the
element (`steps_eventsOf`). The two forms differ in what stands between tags, and in
nothing else, so that they are read by one proof (`spacedThen`).
-/

namespace TemplateInventory

namespace Xml

open TemplateInventory.Text

/-! ## Elements that are read back -/

/-- Whether there is no white space at the ends. -/
def isTrimmed (cs : List Char) : Bool :=
  cs.head?.all (!isMarkupBlank ·) && cs.getLast?.all (!isMarkupBlank ·)

/-- Whether a text comes back as it was: an empty one would be missing. -/
def isText (text : Option String) : Bool :=
  text.all fun t => !t.toList.isEmpty && isTrimmed t.toList

/-- A text as it comes back: without white space at its ends, and missing if nothing is
left. -/
def tidyText : Option String → Option String
  | none => none
  | some t =>
    let kept := trimWhere isMarkupBlank t.toList
    if kept.isEmpty then none else some (String.ofList kept)

/-- Whether the name of an element and those of its attributes are names. -/
def Named (e : Element) : Prop := isName e.name = true ∧ ∀ n ∈ e.attributes.keys, isName n = true

end Xml

namespace Element

mutual

/-- Whether names and texts are such that an element is read as it was printed. -/
def isPrintable : Element → Bool
  | ⟨name, attributes, children, text⟩ =>
    Xml.isName name && attributes.keys.all Xml.isName && Xml.isText text && arePrintable children

/-- Whether all elements of a list can be printed. -/
def arePrintable : List Element → Bool
  | [] => true
  | e :: es => isPrintable e && arePrintable es

end

mutual

/-- An element as it comes back: its texts do so, and all else stays. -/
def tidy : Element → Element
  | ⟨name, attributes, children, text⟩ => ⟨name, attributes, tidyAll children, Xml.tidyText text⟩

/-- The elements of a list as they come back. -/
def tidyAll : List Element → List Element
  | [] => []
  | e :: es => tidy e :: tidyAll es

end

theorem arePrintable_iff {es : List Element} :
    arePrintable es = true ↔ ∀ e ∈ es, e.isPrintable = true := by
  induction es with
  | nil => simp [arePrintable]
  | cons e es ih => simp [arePrintable, ih]

theorem isPrintable_iff {e : Element} :
    e.isPrintable = true ↔
      e.Everywhere Xml.Named ∧ e.Everywhere fun x => Xml.isText x.text = true := by
  induction e using Element.induction with
  | node e ih =>
    obtain ⟨name, attributes, children, text⟩ := e
    have hchildren : arePrintable children = true ↔
        (∀ c ∈ children, c.Everywhere Xml.Named) ∧
          ∀ c ∈ children, c.Everywhere fun x => Xml.isText x.text = true := by
      rw [arePrintable_iff]
      exact ⟨fun h => ⟨fun c hc => ((ih c hc).1 (h c hc)).1, fun c hc => ((ih c hc).1 (h c hc)).2⟩,
        fun h c hc => (ih c hc).2 ⟨h.1 c hc, h.2 c hc⟩⟩
    simp only [isPrintable, Bool.and_eq_true, List.all_eq_true, hchildren, everywhere_mk, Xml.Named]
    exact and_and_and_comm

theorem tidyAll_eq_map (es : List Element) : tidyAll es = es.map tidy := by
  induction es with
  | nil => rfl
  | cons e es ih => rw [tidyAll, ih, List.map_cons]

end Element

namespace Xml

open TemplateInventory.Text

theorem tidyText_eq_self_iff {text : Option String} :
    tidyText text = text ↔ isText text = true := by
  cases text with
  | none => simp [tidyText, isText]
  | some t =>
    have hback : ∀ cs : List Char, String.ofList cs = t ↔ cs = t.toList := fun cs => by
      rw [← String.toList_inj, String.toList_ofList]
    have htrimmed : isTrimmed t.toList = true ↔ trimWhere isMarkupBlank t.toList = t.toList := by
      rw [trimWhere_eq_self_iff, isTrimmed, Bool.and_eq_true]
    simp only [tidyText, isText, Option.all_some, Bool.and_eq_true, htrimmed]
    split
    · next hkept =>
      rw [List.isEmpty_iff] at hkept
      constructor
      · intro h
        cases h
      · intro h
        rw [hkept] at h
        rw [← h.2] at h
        cases h.1
    · next hkept =>
      rw [Option.some.injEq, hback]
      refine ⟨fun h => ⟨?_, h⟩, fun h => h.2⟩
      rwa [← h, Bool.not_eq_true', ← Bool.not_eq_true]

theorem tidyText_tidyText (text : Option String) : tidyText (tidyText text) = tidyText text := by
  cases text with
  | none => rfl
  | some t =>
    by_cases hkept : (trimWhere isMarkupBlank t.toList).isEmpty = true
    · simp only [tidyText, if_pos hkept]
    · simp only [tidyText, if_neg hkept, String.toList_ofList, trimWhere_trimWhere]

end Xml

theorem Element.tidy_eq_self_iff {e : Element} :
    e.tidy = e ↔ e.Everywhere fun x => Xml.isText x.text = true := by
  induction e using Element.induction with
  | node e ih =>
    obtain ⟨name, attributes, children, text⟩ := e
    have hchildren : children.map tidy = children ↔
        ∀ c ∈ children, c.Everywhere fun x => Xml.isText x.text = true := by
      have hmap : children.map tidy = children ↔ ∀ c ∈ children, c.tidy = c := by
        simpa using List.map_inj_left (f := tidy) (g := id) (l := children)
      rw [hmap]
      exact ⟨fun h c hc => (ih c hc).1 (h c hc), fun h c hc => (ih c hc).2 (h c hc)⟩
    simp only [tidy, tidyAll_eq_map, everywhere_mk, mk.injEq, true_and, hchildren,
      Xml.tidyText_eq_self_iff]
    exact and_comm

theorem Xml.Named.tidy {e : Element} (h : Xml.Named e) : Xml.Named e.tidy := by
  cases e
  exact h

/-- What is read from a printed element comes back as it is. -/
theorem Element.tidy_tidy (e : Element) : e.tidy.tidy = e.tidy := by
  induction e using Element.induction with
  | node e ih =>
    obtain ⟨name, attributes, children, text⟩ := e
    simp only [tidy, tidyAll_eq_map, List.map_map, Xml.tidyText_tidyText, mk.injEq, true_and,
      and_true]
    exact List.map_inj_left.2 ih

theorem Element.Everywhere.tidy {P : Element → Prop} {e : Element} (h : e.Everywhere P)
    (hP : ∀ x, P x → P x.tidy) : e.tidy.Everywhere P := by
  induction e using Element.induction with
  | node e ih =>
    obtain ⟨hself, hchildren⟩ := everywhere_iff.1 h
    refine everywhere_iff.2 ⟨hP e hself, fun c hc => ?_⟩
    obtain ⟨name, attributes, children, text⟩ := e
    simp only [Element.tidy, tidyAll_eq_map, List.mem_map] at hc
    obtain ⟨c, hc, rfl⟩ := hc
    exact ih c hc (hchildren c hc)

namespace Xml

open TemplateInventory.Text

section
variable {c : Char} {cs rest : List Char} {name : String}

/-! ## Escaped texts -/

theorem escapeChar_of_blank (h : isMarkupBlank c = true) : escapeChar c = [c] := by
  simp only [isMarkupBlank, Bool.or_eq_true, beq_iff_eq] at h
  rcases h with ((rfl | rfl) | rfl) | rfl <;> rfl

/-- Escaping puts no white space at an end, and takes none away. -/
theorem isMarkupBlank_escapeChar (c : Char) :
    (escapeChar c).head?.map isMarkupBlank = some (isMarkupBlank c) ∧
      (escapeChar c).getLast?.map isMarkupBlank = some (isMarkupBlank c) := by
  by_cases hm : c ∈ escaped
  · simp only [escaped, List.mem_cons, List.not_mem_nil, or_false] at hm
    rcases hm with rfl | rfl | rfl | rfl | rfl <;> exact ⟨by rfl, by rfl⟩
  · rw [escapeChar_of_not_mem hm]
    exact ⟨rfl, rfl⟩

theorem dropWhile_escape (cs : List Char) :
    (escape cs).dropWhile isMarkupBlank = escape (cs.dropWhile isMarkupBlank) :=
  dropWhile_flatMap (fun _ => escapeChar_of_blank) (fun c => (isMarkupBlank_escapeChar c).1) cs

theorem dropEndWhile_escape (cs : List Char) :
    dropEndWhile isMarkupBlank (escape cs) = escape (dropEndWhile isMarkupBlank cs) := by
  have hreverse : ∀ cs, (escape cs).reverse = cs.reverse.flatMap (List.reverse ∘ escapeChar) :=
    fun _ => List.reverse_flatMap
  rw [dropEndWhile, hreverse, dropWhile_flatMap, ← List.reverse_inj, List.reverse_reverse,
    hreverse, dropEndWhile, List.reverse_reverse]
  · intro c hc
    simp [escapeChar_of_blank hc]
  · intro c
    simpa using (isMarkupBlank_escapeChar c).2

theorem escape_eq_nil_iff : escape cs = [] ↔ cs = [] := by
  cases cs with
  | nil => simp [escape]
  | cons c cs =>
    obtain ⟨d, hd, -⟩ := Option.map_eq_some_iff.1 (isMarkupBlank_escapeChar c).1
    have hne : escapeChar c ≠ [] := fun h => by rw [h] at hd; cases hd
    simp [escape, hne]

/-- The events of a text. -/
def eventsOfText (text : Option String) : List Event :=
  match tidyText text with
  | some t => [.text t]
  | none => []

/-- A text is read as it was written, except for white space at its ends. -/
theorem textEvents_escape (t : String) :
    textEvents (escape (t.toList.dropWhile isMarkupBlank)) = .ok (eventsOfText (some t)) := by
  cases hv : t.toList.dropWhile isMarkupBlank with
  | nil => simp [textEvents, escape, eventsOfText, tidyText, trimWhere, hv, dropEndWhile]
  | cons c cs =>
    have hc : isMarkupBlank c = false := by
      have hhead := head_dropWhile isMarkupBlank t.toList
      rw [hv] at hhead
      simpa using hhead
    have hne : escape (c :: cs) ≠ [] := mt escape_eq_nil_iff.1 (List.cons_ne_nil c cs)
    simp [textEvents, hne, dropEndWhile_escape, dropEndWhile_cons hc, unescape_escape, Except.map,
      eventsOfText, tidyText, trimWhere, hv]

/-! ## Events -/

/-- Whether `lead` can stand before a `<` and gives the events `texts` there: white
space, and then a text. -/
def Precedes (lead : List Char) (texts : List Event) : Prop :=
  ∃ blank piece, lead = blank ++ piece ∧ (∀ c ∈ blank, isMarkupBlank c = true) ∧
    piece.head?.all (!isMarkupBlank ·) = true ∧ '<' ∉ piece ∧ textEvents piece = .ok texts

theorem precedes_nil : Precedes [] [] := ⟨[], [], rfl, by simp, rfl, by simp, rfl⟩

theorem precedes_newLine (depth : Nat) : Precedes (newLine depth) [] := by
  refine ⟨newLine depth, [], by simp, fun c hc => ?_, rfl, by simp, rfl⟩
  simp only [newLine, List.mem_cons, List.mem_replicate] at hc
  rcases hc with rfl | ⟨-, rfl⟩ <;> decide

theorem precedes_printText (text : Option String) :
    Precedes (printText text) (eventsOfText text) := by
  cases text with
  | none => exact precedes_nil
  | some t =>
    refine ⟨(escape t.toList).takeWhile isMarkupBlank,
      escape (t.toList.dropWhile isMarkupBlank), ?_, List.all_eq_true.1 List.all_takeWhile, ?_,
      not_mem_escape (by decide), textEvents_escape t⟩
    · rw [← dropWhile_escape, List.takeWhile_append_dropWhile]
      rfl
    · rw [← dropWhile_escape]
      exact head_dropWhile isMarkupBlank (escape t.toList)

/-- The events `es`, and then those of what follows. -/
def prepend (es : List Event) (later : Events) : Events := (es ++ later.1, later.2)

theorem prepend_prepend (es es' : List Event) (later : Events) :
    prepend es (prepend es' later) = prepend (es ++ es') later := by
  simp [prepend]

/-- A piece of markup gives its event after those of what stands before it. -/
theorem eventsFrom_markup {lead : List Char} {texts : List Event} {opened opened' : List (List Char)}
    {m : Markup} {taken : Nat} {event : Event} (hl : Precedes lead texts)
    (hm : ∀ pos, Markup.read pos cs = .ok (m, taken, rest))
    (he : ∀ pos, markupEvent pos opened m = .ok (event, opened')) (pos : Nat) :
    ∃ pos', eventsFrom opened pos (lead ++ '<' :: cs) =
      prepend (texts ++ [event]) (eventsFrom opened' pos' rest) := by
  obtain ⟨blank, piece, rfl, hblank, hhead, hpiece, htexts⟩ := hl
  have hpiece' : ∀ c ∈ piece, (c != '<') = true := fun c hc => by
    rw [bne_iff_ne]
    rintro rfl
    exact hpiece hc
  have hvisible : (blank ++ piece ++ '<' :: cs).dropWhile isMarkupBlank = piece ++ '<' :: cs := by
    rw [List.append_assoc, List.dropWhile_append_of_pos hblank]
    refine dropWhile_of_head ?_
    cases piece with
    | nil => rfl
    | cons c piece => exact hhead
  have hlt : ((blank ++ piece ++ '<' :: cs).dropWhile isMarkupBlank).dropWhile (· != '<') =
      '<' :: cs := by
    rw [hvisible]
    exact dropWhile_append_stop hpiece' (by decide)
  rw [eventsFrom]
  simp only [hvisible, takeWhile_append_stop hpiece' (c := '<') (by decide), htexts]
  split
  · next h => cases h.symm.trans hlt
  · next h =>
    cases h.symm.trans hlt
    split
    · next h => cases h.symm.trans (hm _)
    · next h =>
      cases h.symm.trans (hm _)
      rw [he]
      simp only [prepend, List.append_assoc, List.singleton_append]
      exact ⟨_, rfl⟩

theorem read_tag {content : List Char} (hgo : GoesOn content)
    (hs : startOf (content ++ '>' :: rest) = .tag) (pos : Nat) :
    Markup.read pos (content ++ '>' :: rest) =
      .ok (.opening content, byteLength content + 1, rest) := by
  simp [Markup.read, hs, hgo (_ :: _), takeTag, pieceFound, Except.map]

theorem startOf_tagContent {attributes : Table String String} (hn : isName name = true) :
    startOf (tagContent name attributes ++ rest) = .tag := by
  obtain ⟨c, tail, hname⟩ := List.exists_cons_of_ne_nil (ne_nil_of_isName hn)
  have hchar : isNameChar c = true := isNameChar_of_mem hn (hname ▸ List.mem_cons_self)
  have h1 : c ≠ '/' := ne_of_isNameChar hchar (by decide)
  have h2 : c ≠ '?' := ne_of_isNameChar hchar (by decide)
  have h3 : c ≠ '!' := ne_of_isNameChar hchar (by decide)
  simp [tagContent, hname, startOf, h1, h2, h3]

section
variable {attributes : Table String String} {lead : List Char} {texts : List Event}

theorem eventsFrom_opening (opened : List (List Char)) (pos : Nat) (rest : List Char)
    (hl : Precedes lead texts) (hn : isName name = true)
    (ha : ∀ n ∈ attributes.keys, isName n = true) :
    ∃ pos', eventsFrom opened pos (lead ++ (printOpening name attributes ++ '>' :: rest)) =
      prepend (texts ++ [.opening name attributes]) (eventsFrom (name.toList :: opened) pos' rest) :=
  eventsFrom_markup hl (read_tag (goesOn_content hn ha) (startOf_tagContent hn))
    (fun _ => openEvent_tagContent hn ha opened) pos

theorem eventsFrom_bare (opened : List (List Char)) (pos : Nat) (rest : List Char)
    (hl : Precedes lead texts) (hn : isName name = true)
    (ha : ∀ n ∈ attributes.keys, isName n = true) :
    ∃ pos', eventsFrom opened pos (lead ++ (printOpening name attributes ++ '/' :: '>' :: rest)) =
      prepend (texts ++ [.empty name attributes]) (eventsFrom opened pos' rest) := by
  have hgo := (goesOn_content hn ha).append (goesOn_char (c := '/') (by decide))
  have hs : startOf (tagContent name attributes ++ ['/'] ++ '>' :: rest) = .tag := by
    rw [List.append_assoc]
    exact startOf_tagContent hn
  have hall := eventsFrom_markup hl (read_tag hgo hs) (fun _ => openEvent_bare hn ha opened) pos
  simpa [printOpening, tagContent] using hall

theorem eventsFrom_closing (opened : List (List Char)) (pos : Nat) (rest : List Char)
    (hl : Precedes lead texts) (hn : isName name = true) :
    ∃ pos', eventsFrom (name.toList :: opened) pos (lead ++ (printClosing name ++ rest)) =
      prepend (texts ++ [.closing]) (eventsFrom opened pos' rest) := by
  have hgo := (goesOn_char (c := '/') (by decide)).append (goesOn_name hn)
  have hread : ∀ pos, Markup.read pos ('/' :: name.toList ++ '>' :: rest) =
      .ok (.closing name.toList, byteLength ('/' :: name.toList) + 1, rest) := fun pos => by
    have htake := hgo ('>' :: rest)
    simp only [List.cons_append, List.nil_append] at htake
    simp [Markup.read, startOf, htake, takeTag, pieceFound, Except.map]
  have hevent : ∀ pos, markupEvent pos (name.toList :: opened) (.closing name.toList) =
      .ok (.closing, opened) := fun pos => closeEvent_name hn pos opened
  have hall := eventsFrom_markup hl hread hevent pos
  simpa [printClosing] using hall

theorem eventsFrom_declaration (opened : List (List Char)) (pos : Nat) (rest : List Char) :
    ∃ pos', eventsFrom opened pos (declaration.toList ++ rest) =
      prepend [.aside] (eventsFrom opened pos' rest) := by
  have hread : ∀ pos, Markup.read pos (declaration.toList.tail ++ rest) =
      .ok (.aside, 37, rest) := fun pos => rfl
  have hevent : ∀ pos, markupEvent pos opened .aside = .ok (.aside, opened) := fun _ => rfl
  exact eventsFrom_markup precedes_nil hread hevent pos

end

end

/-! ## Printed elements -/

mutual

/-- A form of an element at a level, and after it `rest`. In front of a tag stands the
`gap` of its level, unless a text does. -/
def spacedThen (gap : Nat → List Char) (depth : Nat) (rest : List Char) : Element → List Char
  | ⟨name, attributes, children, text⟩ =>
    if isBare children text then printOpening name attributes ++ '/' :: '>' :: rest
    else
      printOpening name attributes ++ '>' :: printText text ++
        spacedAllThen gap (depth + 1) text.isNone
          ((if children.isEmpty then [] else gap depth) ++ printClosing name ++ rest) children

/-- Forms of elements at a level, one after the other, and after them `rest`. -/
def spacedAllThen (gap : Nat → List Char) (depth : Nat) (fresh : Bool) (rest : List Char) :
    List Element → List Char
  | [] => rest
  | e :: es =>
    (if fresh then gap depth else []) ++
      spacedThen gap depth (spacedAllThen gap depth true rest es) e

end

mutual

theorem prettyThen_eq_spacedThen : (e : Element) → (depth : Nat) → (rest : List Char) →
    prettyThen depth rest e = spacedThen newLine depth rest e
  | ⟨name, attributes, children, text⟩, depth, rest => by
    rw [prettyThen, spacedThen, prettyAllThen_eq_spacedAllThen]

theorem prettyAllThen_eq_spacedAllThen : (es : List Element) → (depth : Nat) → (fresh : Bool) →
    (rest : List Char) → prettyAllThen depth fresh rest es = spacedAllThen newLine depth fresh rest es
  | [], _, _, _ => rfl
  | e :: es, depth, fresh, rest => by
    rw [prettyAllThen, spacedAllThen, prettyThen_eq_spacedThen, prettyAllThen_eq_spacedAllThen]

end

mutual

theorem compactThen_eq_spacedThen : (e : Element) → (depth : Nat) → (rest : List Char) →
    compactThen rest e = spacedThen (fun _ => []) depth rest e
  | ⟨name, attributes, children, text⟩, depth, rest => by
    rw [compactThen, spacedThen, ← compactAllThen_eq_spacedAllThen, ite_self, List.nil_append]

theorem compactAllThen_eq_spacedAllThen : (es : List Element) → (depth : Nat) → (fresh : Bool) →
    (rest : List Char) →
    compactAllThen rest es = spacedAllThen (fun _ => []) depth fresh rest es
  | [], _, _, _ => rfl
  | e :: es, depth, fresh, rest => by
    rw [compactAllThen, spacedAllThen, ite_self, List.nil_append,
      ← compactThen_eq_spacedThen, ← compactAllThen_eq_spacedAllThen]

end

mutual

theorem spacedThen_append {gap : Nat → List Char} : (e : Element) → (depth : Nat) →
    (rest rest' : List Char) →
    spacedThen gap depth rest e ++ rest' = spacedThen gap depth (rest ++ rest') e
  | ⟨name, attributes, children, text⟩, depth, rest, rest' => by
    by_cases hb : isBare children text = true
    · simp [spacedThen, hb]
    · simp [spacedThen, hb, spacedAllThen_append children]

theorem spacedAllThen_append {gap : Nat → List Char} : (es : List Element) → (depth : Nat) →
    (fresh : Bool) → (rest rest' : List Char) →
    spacedAllThen gap depth fresh rest es ++ rest' = spacedAllThen gap depth fresh (rest ++ rest') es
  | [], _, _, _, _ => rfl
  | e :: es, depth, fresh, rest, rest' => by
    simp [spacedAllThen, spacedThen_append e, spacedAllThen_append es]

end

mutual

/-- The events of an element. -/
def eventsOf : Element → List Event
  | ⟨name, attributes, children, text⟩ =>
    if isBare children text then [.empty name attributes]
    else .opening name attributes :: eventsOfText text ++ eventsOfAll children ++ [.closing]

/-- The events of elements, one after the other. -/
def eventsOfAll : List Element → List Event
  | [] => []
  | e :: es => eventsOf e ++ eventsOfAll es

end

section
variable {gap : Nat → List Char} (hgap : ∀ depth, Precedes (gap depth) [])
include hgap

/-- What stands before the first child of an element. -/
theorem precedes_first (text : Option String) (depth : Nat) :
    Precedes (printText text ++ if text.isNone then gap depth else []) (eventsOfText text) := by
  cases text with
  | none => exact hgap depth
  | some t => simpa using precedes_printText (some t)

mutual

/-- A form of an element gives its events. -/
theorem eventsFrom_spacedThen : (e : Element) → e.Everywhere Named →
    ∀ {lead : List Char} {texts : List Event} (opened : List (List Char)) (rest : List Char)
      (depth pos : Nat), Precedes lead texts →
      ∃ pos', eventsFrom opened pos (lead ++ spacedThen gap depth rest e) =
        prepend (texts ++ eventsOf e) (eventsFrom opened pos' rest)
  | ⟨name, attributes, [], text⟩, he, lead, texts, opened, rest, depth, pos, hl => by
    obtain ⟨hn, ha⟩ := he.self
    by_cases hb : isBare [] text = true
    · rw [spacedThen, eventsOf, if_pos hb, if_pos hb]
      exact eventsFrom_bare opened pos rest hl hn ha
    · obtain ⟨pos₁, hopen⟩ := eventsFrom_opening opened pos
        (printText text ++ (printClosing name ++ rest)) hl hn ha
      obtain ⟨pos₂, hclose⟩ := eventsFrom_closing opened pos₁ rest (precedes_printText text) hn
      refine ⟨pos₂, ?_⟩
      rw [spacedThen, eventsOf, if_neg hb, if_neg hb]
      simpa [spacedAllThen, eventsOfAll, hclose, prepend_prepend] using hopen
  | ⟨name, attributes, c :: cs, text⟩, he, lead, texts, opened, rest, depth, pos, hl => by
    obtain ⟨⟨hn, ha⟩, hcs⟩ := Element.everywhere_mk.1 he
    have hb : ¬ isBare (c :: cs) text = true := by simp [isBare]
    -- The tags of the element, of its first child, of the others, and its end tag.
    let after := gap depth ++ (printClosing name ++ rest)
    let others := spacedAllThen gap (depth + 1) true after cs
    let before := printText text ++ if text.isNone then gap (depth + 1) else []
    obtain ⟨pos₁, hopen⟩ := eventsFrom_opening opened pos
      (before ++ spacedThen gap (depth + 1) others c) hl hn ha
    obtain ⟨pos₂, hfirst⟩ := eventsFrom_spacedThen c (hcs c List.mem_cons_self)
      (name.toList :: opened) others (depth + 1) pos₁ (precedes_first hgap text (depth + 1))
    obtain ⟨pos₃, hothers⟩ := eventsFrom_spacedAllThen cs
      (fun x hx => hcs x (List.mem_cons_of_mem c hx)) (name.toList :: opened) after (depth + 1) pos₂
    obtain ⟨pos₄, hclose⟩ := eventsFrom_closing opened pos₃ rest (hgap depth) hn
    refine ⟨pos₄, ?_⟩
    rw [hfirst, hothers, hclose, prepend_prepend, prepend_prepend, prepend_prepend] at hopen
    rw [spacedThen, eventsOf, if_neg hb, if_neg hb]
    simpa [spacedAllThen, eventsOfAll, after, others, before] using hopen

theorem eventsFrom_spacedAllThen : (es : List Element) → (∀ e ∈ es, e.Everywhere Named) →
    ∀ (opened : List (List Char)) (rest : List Char) (depth pos : Nat),
      ∃ pos', eventsFrom opened pos (spacedAllThen gap depth true rest es) =
        prepend (eventsOfAll es) (eventsFrom opened pos' rest)
  | [], _, opened, rest, depth, pos => ⟨pos, by simp [spacedAllThen, eventsOfAll, prepend]⟩
  | e :: es, he, opened, rest, depth, pos => by
    obtain ⟨pos₁, hfirst⟩ := eventsFrom_spacedThen e (he e List.mem_cons_self) opened
      (spacedAllThen gap depth true rest es) depth pos (hgap depth)
    obtain ⟨pos₂, hrest⟩ := eventsFrom_spacedAllThen es
      (fun x hx => he x (List.mem_cons_of_mem e hx)) opened rest depth pos₁
    refine ⟨pos₂, ?_⟩
    rw [spacedAllThen, if_pos rfl, hfirst, hrest, prepend_prepend]
    rfl

end

end

/-! ## Building -/

namespace Building

theorem steps_eventsOfText (name : String) (attributes : Table String String) (text : Option String)
    (rest : List Element) (root : Option Element) (es : List Event) :
    steps ⟨⟨name, attributes, [], none⟩ :: rest, root⟩ (eventsOfText text ++ es) =
      steps ⟨⟨name, attributes, [], tidyText text⟩ :: rest, root⟩ es := by
  rw [eventsOfText]
  cases tidyText text with
  | none => rfl
  | some t => simp [steps, step, addText]

mutual

/-- The events of an element add it, as it comes back, to what is built. -/
theorem steps_eventsOf : (e : Element) → (b : Building) → (es : List Event) →
    b.steps (eventsOf e ++ es) = match b.attach e.tidy with
      | .error f => .error f
      | .ok b' => b'.steps es
  | ⟨name, attributes, children, text⟩, b, es => by
    by_cases hb : isBare children text = true
    · simp only [isBare, Bool.and_eq_true, List.isEmpty_iff, Option.isNone_iff_eq_none] at hb
      obtain ⟨rfl, rfl⟩ := hb
      rfl
    · simp only [eventsOf, if_neg hb, List.cons_append, List.append_assoc, steps, step]
      rw [steps_eventsOfText, steps_eventsOfAll]
      rfl

theorem steps_eventsOfAll : (cs : List Element) → (parent : Element) → (rest : List Element) →
    (root : Option Element) → (es : List Event) →
    steps ⟨parent :: rest, root⟩ (eventsOfAll cs ++ es) =
      steps ⟨{ parent with children := parent.children ++ Element.tidyAll cs } :: rest, root⟩ es
  | [], ⟨_, _, _, _⟩, rest, root, es => by simp [eventsOfAll, Element.tidyAll]
  | c :: cs, parent, rest, root, es => by
    rw [eventsOfAll, List.append_assoc, steps_eventsOf c]
    simp [attach, steps_eventsOfAll cs, Element.push, Element.tidyAll]

end

end Building

theorem build_eventsOf (e : Element) : build (eventsOf e, none) = .ok e.tidy := by
  have hsteps := Building.steps_eventsOf e .start []
  rw [List.append_nil] at hsteps
  rw [build, hsteps]
  rfl

/-! ## Documents -/

theorem eventsFrom_blank {opened : List (List Char)} {pos : Nat} {blank : List Char}
    (hb : ∀ c ∈ blank, isMarkupBlank c = true) : eventsFrom opened pos blank = ([], none) := by
  have hvisible : blank.dropWhile isMarkupBlank = [] := by
    rw [← List.append_nil blank, List.dropWhile_append_of_pos hb, List.dropWhile_nil]
  rw [eventsFrom]
  simp only [hvisible, List.takeWhile_nil, textEvents, List.isEmpty_nil, if_true]
  split
  · rfl
  · next h =>
    rw [hvisible] at h
    cases h

/-- The document form is read back, also with white space after it. -/
theorem parse_printDocument_append {e : Element} (he : e.Everywhere Named) {blank : String}
    (hb : ∀ c ∈ blank.toList, isMarkupBlank c = true) :
    parse (printDocument e ++ blank) = .ok e.tidy := by
  have htext : dropMark (printDocument e ++ blank).toList =
      declaration.toList ++ (newLine 0 ++ spacedThen newLine 0 blank.toList e) := by
    rw [printDocument, String.toList_append, String.toList_ofList, List.append_assoc,
      List.append_assoc, prettyThen_eq_spacedThen, spacedThen_append]
    rfl
  obtain ⟨pos₁, hfirst⟩ := eventsFrom_declaration [] 0
    (newLine 0 ++ spacedThen newLine 0 blank.toList e)
  obtain ⟨pos₂, hrest⟩ := eventsFrom_spacedThen precedes_newLine e he [] blank.toList 0 pos₁
    (precedes_newLine 0)
  have hevents : events (printDocument e ++ blank) = (.aside :: eventsOf e, none) := by
    rw [events, htext, hfirst, hrest, eventsFrom_blank hb]
    simp [prepend]
  rw [parse, hevents]
  exact build_eventsOf e

/-- A document that was printed is read back. -/
theorem parse_printDocument {e : Element} (he : e.isPrintable = true) :
    parse (printDocument e ++ "\n") = .ok e := by
  obtain ⟨hnamed, htexts⟩ := Element.isPrintable_iff.1 he
  have hblank : ∀ c ∈ "\n".toList, isMarkupBlank c = true := List.all_eq_true.1 (by decide)
  rw [parse_printDocument_append hnamed hblank, Element.tidy_eq_self_iff.2 htexts]

/-- A form without a declaration is read back. -/
theorem parse_spacedThen {gap : Nat → List Char} (hgap : ∀ depth, Precedes (gap depth) [])
    {e : Element} (he : e.Everywhere Named) :
    parse (String.ofList (spacedThen gap 0 [] e)) = .ok e.tidy := by
  have hstart : dropMark (spacedThen gap 0 [] e) = spacedThen gap 0 [] e := by
    obtain ⟨name, attributes, children, text⟩ := e
    rw [spacedThen]
    split <;> rfl
  obtain ⟨pos, hall⟩ := eventsFrom_spacedThen hgap e he [] [] 0 0 precedes_nil
  have hevents : events (String.ofList (spacedThen gap 0 [] e)) = (eventsOf e, none) := by
    rw [events, String.toList_ofList, hstart, ← List.nil_append (spacedThen _ _ _ _), hall,
      eventsFrom_blank (by simp)]
    simp [prepend]
  rw [parse, hevents, build_eventsOf]

theorem parse_printCompact {e : Element} (he : e.Everywhere Named) :
    parse (printCompact e) = .ok e.tidy := by
  rw [printCompact, compact, compactThen_eq_spacedThen e 0]
  exact parse_spacedThen (fun _ => precedes_nil) he

/-- Elements that are written alike come back alike. -/
theorem tidy_of_compact {e e' : Element} (he : e.Everywhere Named) (he' : e'.Everywhere Named)
    (h : compact e = compact e') : e.tidy = e'.tidy := by
  have hread := parse_printCompact he
  rw [printCompact, h] at hread
  exact Except.ok.inj (hread.symm.trans (parse_printCompact he'))

/-! ## Plain names -/

/-- Whether a text is made of letters, digits and `_`, `-`, `.`, `:`, of which a letter
or `_` comes first. -/
def isPlainName (s : String) : Bool :=
  match s.toList with
  | [] => false
  | c :: cs => (isAlphabetic c || c == '_') && cs.all TemplateInventory.isNameChar

/-- Whether the name of an element and those of its attributes are plain. -/
def PlainlyNamed (e : Element) : Prop :=
  isPlainName e.name = true ∧ ∀ n ∈ e.attributes.keys, isPlainName n = true

instance : DecidablePred PlainlyNamed := fun _ => inferInstanceAs (Decidable (_ ∧ _))

theorem isNameChar_of_plain {c : Char} (h : TemplateInventory.isNameChar c = true) :
    isNameChar c = true := by
  have hmarks : ∀ d ∈ [' ', '\t', '\n', '\r'] ++ markupChars,
      (!TemplateInventory.isNameChar d) = true :=
    List.all_eq_true.1 (by decide)
  have hc : c ∉ [' ', '\t', '\n', '\r'] ++ markupChars := fun hm => by
    simpa [h] using hmarks c hm
  simp only [List.mem_append, not_or] at hc
  have hblank : isMarkupBlank c = false := by
    simpa [isMarkupBlank, and_assoc] using hc.1
  simp [isNameChar, hblank, hc.2]

theorem isName_of_isPlainName {s : String} (h : isPlainName s = true) : isName s = true := by
  unfold isPlainName at h
  split at h
  · cases h
  · next c cs hs =>
    rw [Bool.and_eq_true, Bool.or_eq_true, List.all_eq_true] at h
    have hc : TemplateInventory.isNameChar c = true := by
      rcases h.1 with hc | hc
      · rw [isAlphabetic, Bool.and_eq_true] at hc
        simp [TemplateInventory.isNameChar, hc.1]
      · simp [TemplateInventory.isNameChar, hc]
    have hall : ∀ d ∈ c :: cs, isNameChar d = true := by
      intro d hd
      rcases List.mem_cons.1 hd with rfl | hd
      · exact isNameChar_of_plain hc
      · exact isNameChar_of_plain (h.2 d hd)
    rw [isName, hs, Bool.and_eq_true, List.all_eq_true]
    exact ⟨rfl, hall⟩

theorem PlainlyNamed.named {e : Element} (h : PlainlyNamed e) : Named e :=
  ⟨isName_of_isPlainName h.1, fun n hn => isName_of_isPlainName (h.2 n hn)⟩

/-- Writing an element with plain names and reading it back takes away the white space
at the ends of texts, and nothing else. So it comes back as it was exactly if no text is
empty or has such white space. -/
theorem parse_printed {e : Element} (he : e.Everywhere PlainlyNamed) :
    parse (printDocument e) = .ok e.tidy ∧ parse (printCompact e) = .ok e.tidy ∧
      (parse (printDocument e) = .ok e ↔ e.Everywhere fun x => isText x.text = true) ∧
      (parse (printCompact e) = .ok e ↔ e.Everywhere fun x => isText x.text = true) := by
  have hnamed : e.Everywhere Named := he.mono fun _ => PlainlyNamed.named
  have hdocument : parse (printDocument e) = .ok e.tidy := by
    rw [← String.append_empty (s := printDocument e)]
    exact parse_printDocument_append hnamed (by simp)
  have hcompact := parse_printCompact hnamed
  refine ⟨hdocument, hcompact, ?_, ?_⟩
  · rw [hdocument, Except.ok.injEq, Element.tidy_eq_self_iff]
  · rw [hcompact, Except.ok.injEq, Element.tidy_eq_self_iff]

/-- A text before children, one of white space alone, an empty one, and marks and white
space in values. -/
def letter : Element :=
  ⟨"_letter", .ofList [("to:x-1", " <a>\t\"b\" & 'c'\r\n"), ("größe", "")],
    [⟨"p.1", .empty, [⟨"b", .empty, [], some ""⟩], some "\t \r\n"⟩,
      ⟨"p.2", .empty, [], some " &amp;]]> "⟩],
    some "\n Dear <you>,  \n dear \"me\"\t"⟩

/-- The letter as it comes back. -/
def readLetter : Element :=
  { letter with
    children := [⟨"p.1", .empty, [.bare "b"], none⟩, ⟨"p.2", .empty, [], some "&amp;]]>"⟩]
    text := some "Dear <you>,  \n dear \"me\"" }

theorem parse_printed_letter :
    letter.Everywhere PlainlyNamed ∧ parse (printDocument letter) = .ok readLetter ∧
      parse (printCompact letter) = .ok readLetter := by
  have hnamed : letter.Everywhere PlainlyNamed := by
    simp only [letter, Element.everywhere_mk, List.forall_mem_cons, List.not_mem_nil,
      false_implies, implies_true]
    decide
  have htidy : letter.tidy = readLetter := by decide
  obtain ⟨hdocument, hcompact, -⟩ := parse_printed hnamed
  rw [htidy] at hdocument hcompact
  exact ⟨hnamed, hdocument, hcompact⟩

end Xml

end TemplateInventory
