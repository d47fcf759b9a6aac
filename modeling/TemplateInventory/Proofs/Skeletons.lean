import TemplateInventory.Proofs.Edits
import TemplateInventory.Proofs.Filings
/-!
# Wrapper paths and filled skeletons

A wrapper path is read as the names that it is written from, with a slash before each and
`/*` at its end (`parse_eq_some_iff`): a name has neither a slash nor a star, so cutting at
slashes gives back what was joined by them.

Elements that are put into the skeleton of a selection are what the selection then finds, in
that document and in the one that is read from its printed form, as far as the elements
come back themselves (`filled_skeleton_selected`).
-/

namespace TemplateInventory

namespace Text

/-- What is cut at separators has none in it. -/
theorem not_mem_of_mem_splitOn {sep : Char} {cs part : List Char} (h : part ∈ cs.splitOn sep) :
    sep ∉ part := by
  induction cs generalizing part with
  | nil => simp_all
  | cons c cs ih =>
    rw [List.splitOn_cons_eq_if_modifyHead] at h
    split at h
    · rcases List.mem_cons.1 h with rfl | h
      · exact List.not_mem_nil
      · exact ih h
    · next hc =>
      obtain ⟨first, rest, hsplit⟩ := List.exists_cons_of_ne_nil (List.splitOn_ne_nil sep cs)
      rw [hsplit, List.modifyHead_cons] at h
      rcases List.mem_cons.1 h with rfl | h
      · have hfirst : sep ∉ first := ih (hsplit ▸ List.mem_cons_self)
        rw [beq_iff_eq] at hc
        exact List.not_mem_cons_of_ne_of_not_mem (Ne.symm hc) hfirst
      · exact ih (hsplit ▸ List.mem_cons_of_mem first h)

/-- Texts without a separator are cut apart where they were joined, and nowhere else. -/
theorem splitOn_eq_iff {sep : Char} {cs : List Char} {parts : List (List Char)} :
    cs.splitOn sep = parts ↔
      cs = [sep].intercalate parts ∧ parts ≠ [] ∧ ∀ part ∈ parts, sep ∉ part := by
  constructor
  · rintro rfl
    exact ⟨(List.intercalate_splitOn sep).symm, List.splitOn_ne_nil sep cs,
      fun part => not_mem_of_mem_splitOn⟩
  · rintro ⟨rfl, hne, hparts⟩
    exact List.splitOn_intercalate sep hparts hne

end Text

namespace Selection

section
variable {path : String} {s : Selection} {names : List (List Char)}

/-! ## Wrapper paths -/

/-- Names make the selection whose wrappers have them, if wrappers can have them. -/
theorem ofNames_eq_some_iff : ofNames names = some s ↔
    names = s.wrappers.map String.toList ∧ ∀ name ∈ s.wrappers, name ≠ "" ∧ '*' ∉ name.toList := by
  have hfit : ∀ texts : List String, (texts.map String.toList).all isWrapperName = true ↔
      ∀ name ∈ texts, name ≠ "" ∧ '*' ∉ name.toList := fun texts => by
    simp [isWrapperName]
  have hback : ∀ cs : List (List Char), (cs.map String.ofList).map String.toList = cs := fun cs => by
    simp
  constructor
  · intro h
    unfold ofNames at h
    split at h
    · cases h
    · next outer inner =>
      split at h
      · next hall =>
        cases h
        have hnames : outer :: inner =
            (String.ofList outer :: inner.map String.ofList).map String.toList :=
          (hback (outer :: inner)).symm
        exact ⟨hnames, (hfit _).1 (hnames ▸ hall)⟩
      · cases h
  · rintro ⟨rfl, hall⟩
    have hselection : ofNames (s.wrappers.map String.toList) =
        if (s.wrappers.map String.toList).all isWrapperName = true then
          some ⟨String.ofList s.outer.toList, (s.inner.map String.toList).map String.ofList⟩
        else none := rfl
    rw [hselection, if_pos ((hfit s.wrappers).2 hall)]
    simp

/-- A path is read if it is made of a slash, of names with slashes between them, and of
`/*`. -/
theorem parse_eq_some_iff_body : parse path = some s ↔
    ∃ body, path.toList = '/' :: (body ++ ['/', '*']) ∧ ofNames (body.splitOn '/') = some s := by
  unfold parse
  constructor
  · intro h
    split at h
    · next rest hpath =>
      split at h
      · next names hrest =>
        refine ⟨names.reverse, ?_, h⟩
        rw [hpath, ← List.reverse_reverse rest, hrest]
        simp
      · cases h
    · cases h
  · rintro ⟨body, hpath, h⟩
    rw [hpath]
    simpa using h

/-- A path is read as the selection that it is the written form of, if its wrappers can have
their names. -/
theorem parse_eq_some_iff : parse path = some s ↔
    path = s.text ∧ ∀ name ∈ s.wrappers, name ≠ "" ∧ '/' ∉ name.toList ∧ '*' ∉ name.toList := by
  have htext : s.text.toList =
      '/' :: (['/'].intercalate (s.wrappers.map String.toList) ++ ['/', '*']) := by
    simp [text, String.toList_intercalate]
  rw [parse_eq_some_iff_body, ← String.toList_inj, htext]
  constructor
  · rintro ⟨body, hpath, h⟩
    obtain ⟨hnames, hfit⟩ := ofNames_eq_some_iff.1 h
    obtain ⟨rfl, -, hslash⟩ := Text.splitOn_eq_iff.1 hnames
    exact ⟨hpath, fun name hname =>
      ⟨(hfit name hname).1, hslash _ (List.mem_map_of_mem hname), (hfit name hname).2⟩⟩
  · rintro ⟨hpath, hall⟩
    have hslash : ∀ part ∈ s.wrappers.map String.toList, '/' ∉ part := by
      intro part hpart
      obtain ⟨name, hname, rfl⟩ := List.mem_map.1 hpart
      exact (hall name hname).2.1
    exact ⟨_, hpath, ofNames_eq_some_iff.2
      ⟨Text.splitOn_eq_iff.2 ⟨rfl, by simp [wrappers], hslash⟩,
        fun name hname => ⟨(hall name hname).1, (hall name hname).2.2⟩⟩⟩

/-! ## Filled skeletons -/

/-- What comes back from a printed list is the list itself if every text does. -/
theorem map_tidy_eq_self_iff {es : List Element} : es.map Element.tidy = es ↔
    ∀ e ∈ es, e.Everywhere fun x => Xml.isText x.text = true := by
  have hmap : es.map Element.tidy = es ↔ ∀ e ∈ es, e.tidy = e := by
    simpa using List.map_inj_left (f := Element.tidy) (g := id) (l := es)
  rw [hmap]
  exact forall₂_congr fun e _ => Element.tidy_eq_self_iff

theorem element_select_enclosing (s : Selection) (es : List Element) :
    (s.select (s.enclosing es)).map Selected.element = es := by
  rw [select_enclosing, List.map_map]
  exact List.map_id es

/-- The selection of a filled skeleton that was printed and read. -/
theorem element_select_tidy_enclosing (s : Selection) (es : List Element) :
    (s.select (s.enclosing es).tidy).map Selected.element = es.map Element.tidy := by
  rw [select_tidy, select_enclosing, List.map_map, List.map_map]
  rfl

theorem named_enclosing {es : List Element} (hs : ∀ name ∈ s.wrappers, Xml.isName name = true)
    (hes : ∀ e ∈ es, e.Everywhere Xml.Named) : (s.enclosing es).Everywhere Xml.Named := by
  refine named_mapInnermost (f := fun wrapper => { wrapper with children := wrapper.children ++ es })
    (fun w hw => ?_) (named_skeleton hs) (s.mapInnermost_skeleton (· ++ es))
  refine Element.everywhere_iff.2 ⟨hw.self, fun c hc => ?_⟩
  rcases List.mem_append.1 hc with hc | hc
  · exact hw.child hc
  · exact hes c hc

/-- A path is read exactly if it is a slash before each of one or more names and `/*` after
them, where names are not empty and have neither slash nor star, and as the selection with
these wrappers. The skeleton of a selection has an innermost wrapper. The elements that are
added there are selected, in their order; and if all names can be printed, so are they once
the document is printed and read, exactly if every text in them comes back. -/
theorem filled_skeleton_selected (path : String) :
    (∀ s, parse path = some s ↔ path = "/" ++ String.intercalate "/" s.wrappers ++ "/*" ∧
      ∀ name ∈ s.wrappers, name ≠ "" ∧ '/' ∉ name.toList ∧ '*' ∉ name.toList) ∧
    ∀ s, parse path = some s → (s.innermost s.skeleton).isSome = true ∧
      ∀ es : List Element, ∃ d,
        s.mapInnermost (fun wrapper => { wrapper with children := wrapper.children ++ es })
          s.skeleton = some d ∧
        (s.select d).map Selected.element = es ∧
        ((∀ name ∈ s.wrappers, Xml.isName name = true) → (∀ e ∈ es, e.Everywhere Xml.Named) →
          ∀ blank : String, (∀ c ∈ blank.toList, Text.isMarkupBlank c = true) →
          ∃ d', Xml.parse (Xml.printDocument d ++ blank) = .ok d' ∧
            (s.select d').map Selected.element = es.map Element.tidy ∧
            ((s.select d').map Selected.element = es ↔
              ∀ e ∈ es, e.Everywhere fun x => Xml.isText x.text = true)) := by
  refine ⟨fun s => parse_eq_some_iff, fun s _ => ⟨innermost_skeleton s, fun es => ?_⟩⟩
  refine ⟨s.enclosing es, s.mapInnermost_skeleton (· ++ es), s.element_select_enclosing es, ?_⟩
  intro hs hes blank hblank
  refine ⟨(s.enclosing es).tidy,
    Xml.parse_printDocument_append (named_enclosing hs hes) hblank,
    s.element_select_tidy_enclosing es, ?_⟩
  rw [element_select_tidy_enclosing, map_tidy_eq_self_iff]

/-! ## Bins inside bins -/

/-- An element with the name of the wrappers around it, with another one inside. -/
def bins : List Element :=
  [⟨"bin", .ofList [("id", "a/*")], [.bare "bin"], some "x\r\n y"⟩, .bare "part"]

theorem filled_skeleton_selected_bins : ∃ s d d', parse "/P/bin/bin/*" = some s ∧
    s.wrappers = ["P", "bin", "bin"] ∧
    s.mapInnermost (fun wrapper => { wrapper with children := wrapper.children ++ bins })
      s.skeleton = some d ∧
    Xml.parse (Xml.printDocument d ++ "\n") = .ok d' ∧
    (s.select d').map Selected.element = bins := by
  obtain ⟨hread, hfilled⟩ := filled_skeleton_selected "/P/bin/bin/*"
  have hs : parse "/P/bin/bin/*" = some ⟨"P", ["bin", "bin"]⟩ :=
    (hread _).2 ⟨by decide, by decide⟩
  obtain ⟨-, hall⟩ := hfilled _ hs
  obtain ⟨d, hd, -, hprinted⟩ := hall bins
  have hprintable := Element.arePrintable_iff.1 (show Element.arePrintable bins = true by decide)
  obtain ⟨d', hd', -, hiff⟩ := hprinted (by decide)
    (fun e he => (Element.isPrintable_iff.1 (hprintable e he)).1) "\n"
    (List.all_eq_true.1 (by decide))
  exact ⟨_, d, d', hs, rfl, hd, hd',
    hiff.2 fun e he => (Element.isPrintable_iff.1 (hprintable e he)).2⟩

/-- Whether what is put into the skeleton is selected from the document that is read, if no
text has white space at its ends. -/
def ReturnsTrimmed (s : Selection) : Prop :=
  ∀ es d d', (∀ e ∈ es, e.IsTrimmed) →
    s.mapInnermost (fun wrapper => { wrapper with children := wrapper.children ++ es })
      s.skeleton = some d →
    Xml.parse (Xml.printDocument d) = .ok d' → (s.select d').map Selected.element = es

/-- An empty text has no white space at its ends, and does not come back. -/
theorem filled_skeleton_lost :
    parse "/P/*" = some ⟨"P", []⟩ ∧ ¬ ReturnsTrimmed ⟨"P", []⟩ := by
  have htrimmed : ∀ e ∈ [emptyTextPart.element], e.IsTrimmed := by
    refine List.forall_mem_singleton.2 (Element.everywhere_iff.2 ⟨⟨⟨by decide, by decide⟩, ?_⟩, ?_⟩)
    · rintro _ ⟨⟩
      rfl
    · exact fun _ hc => absurd hc List.not_mem_nil
  have hnamed : (enclosing ⟨"P", []⟩ [emptyTextPart.element]).Everywhere Xml.Named :=
    named_enclosing (by decide) fun e he => (htrimmed e he).mono fun _ => And.left
  have hread : Xml.parse (Xml.printDocument (enclosing ⟨"P", []⟩ [emptyTextPart.element])) =
      .ok (enclosing ⟨"P", []⟩ [emptyTextPart.element]).tidy := by
    have hblank : ∀ c ∈ "".toList, Text.isMarkupBlank c = true := by simp
    simpa using Xml.parse_printDocument_append hnamed hblank
  refine ⟨parse_eq_some_iff.2 ⟨by decide, by decide⟩, fun hall => ?_⟩
  have hsame := hall _ _ _ htrimmed
    (mapInnermost_skeleton ⟨"P", []⟩ (· ++ [emptyTextPart.element])) hread
  rw [element_select_tidy_enclosing] at hsame
  revert hsame
  decide

end

end Selection

end TemplateInventory
