import TemplateInventory.Proofs.RoundTrip
import TemplateInventory.Proofs.Versions
/-!
# Elements with one compact form

The compact form tells elements apart, except that an empty text on an element with
children is written like a missing one: `Element.WrittenAlike`. So a document loses no
element when those written like an earlier one are left out
(`firstOfEachForm_keeps_definitions`).

Each piece of a form says itself where it ends. The lemmas with `_cancel` state this with
whatever follows the piece: if two pieces and what follows them make the same text, then
the pieces are the same, and what follows them is. A name ends before the first character
that is not one of names, a value before its quote and a text before a tag, as these are
escaped in it. Attributes end where no space comes, and children where a closing tag
comes, as the name of an element does not start with a slash.
-/

namespace TemplateInventory

namespace Element

mutual

/-- Whether two elements agree in names, attributes with their order, texts and children,
where an empty text counts as missing on an element that has children. -/
def WrittenAlike : Element → Element → Prop
  | ⟨n, as, cs, t⟩, ⟨n', as', cs', t'⟩ =>
    n = n' ∧ as = as' ∧ (t = t' ∨ cs ≠ [] ∧ t.getD "" = t'.getD "") ∧ AreWrittenAlike cs cs'

/-- Whether two lists of elements do so place by place. -/
def AreWrittenAlike : List Element → List Element → Prop
  | [], [] => True
  | a :: as, b :: bs => WrittenAlike a b ∧ AreWrittenAlike as bs
  | _, _ => False

end

end Element

namespace Xml

open TemplateInventory.Text

section
variable {p : Char → Bool} {c c' x x' : Char} {cs cs' rest rest' : List Char}

/-! ## Runs -/

/-- A run ends where a character of another kind comes. -/
theorem run_cancel (hcs : ∀ a ∈ cs, p a = true) (hcs' : ∀ a ∈ cs', p a = true) (hc : p c = false)
    (hc' : p c' = false) (h : cs ++ c :: rest = cs' ++ c' :: rest') :
    cs = cs' ∧ c = c' ∧ rest = rest' := by
  have htaken := congrArg (List.takeWhile p) h
  have hdropped := congrArg (List.dropWhile p) h
  rw [takeWhile_append_stop hcs hc, takeWhile_append_stop hcs' hc'] at htaken
  rw [dropWhile_append_stop hcs hc, dropWhile_append_stop hcs' hc'] at hdropped
  exact ⟨htaken, List.cons_eq_cons.1 hdropped⟩

theorem name_cancel {n n' : String} (hn : isName n = true) (hn' : isName n' = true)
    (hc : isNameChar c = false) (hc' : isNameChar c' = false)
    (h : n.toList ++ c :: rest = n'.toList ++ c' :: rest') : n = n' ∧ c = c' ∧ rest = rest' := by
  obtain ⟨hname, hrest⟩ := run_cancel (p := isNameChar) (fun _ => isNameChar_of_mem hn)
    (fun _ => isNameChar_of_mem hn') hc hc' h
  exact ⟨String.toList_injective hname, hrest⟩

theorem escape_injective (h : escape cs = escape cs') : cs = cs' := by
  have hread := congrArg unescape h
  rw [unescape_escape, unescape_escape] at hread
  exact Except.ok.inj hread

/-- What is escaped ends where one of the escaped characters stands. -/
theorem escape_cancel (hc : c ∈ ['<', '>', '\x22', '\x27'])
    (h : escape cs ++ c :: rest = escape cs' ++ c :: rest') : cs = cs' ∧ rest = rest' := by
  have hother : ∀ cs, ∀ a ∈ escape cs, (a != c) = true := fun cs a ha => by
    rw [bne_iff_ne]
    rintro rfl
    exact not_mem_escape hc ha
  obtain ⟨hescaped, -, hrest⟩ := run_cancel (hother cs) (hother cs') (bne_self_eq_false c)
    (bne_self_eq_false c) h
  exact ⟨escape_injective hescaped, hrest⟩

/-! ## Tags -/

theorem printAttribute_cancel {e e' : String × String} (hn : isName e.1 = true)
    (hn' : isName e'.1 = true) (h : printAttribute e ++ rest = printAttribute e' ++ rest') :
    e = e' ∧ rest = rest' := by
  have hshape : ∀ (e : String × String) (rest : List Char), printAttribute e ++ rest =
      ' ' :: (e.1.toList ++ '=' :: '\x22' :: (escape e.2.toList ++ '\x22' :: rest)) := by
    intro e rest
    simp [printAttribute]
  rw [hshape, hshape] at h
  obtain ⟨hname, -, hvalue⟩ := name_cancel hn hn' (by decide) (by decide) (List.cons.inj h).2
  obtain ⟨hvalue, hrest⟩ := escape_cancel (by simp) (List.cons.inj hvalue).2
  exact ⟨Prod.ext hname (String.toList_injective hvalue), hrest⟩

theorem printAttribute_append (e : String × String) (rest : List Char) :
    ∃ tail, printAttribute e ++ rest = ' ' :: tail :=
  ⟨_, by simp [printAttribute]; rfl⟩

/-- Attributes end where no space comes. -/
theorem attributes_cancel {es es' : List (String × String)} (hn : ∀ e ∈ es, isName e.1 = true)
    (hn' : ∀ e ∈ es', isName e.1 = true) (hx : x ≠ ' ') (hx' : x' ≠ ' ')
    (h : es.flatMap printAttribute ++ x :: rest = es'.flatMap printAttribute ++ x' :: rest') :
    es = es' ∧ x = x' ∧ rest = rest' := by
  induction es generalizing es' with
  | nil =>
    cases es' with
    | nil => exact ⟨rfl, List.cons_eq_cons.1 h⟩
    | cons e' es' =>
      obtain ⟨tail, htail⟩ := printAttribute_append e' (es'.flatMap printAttribute ++ x' :: rest')
      rw [List.flatMap_cons, List.append_assoc, htail] at h
      exact absurd (List.cons.inj h).1 hx
  | cons e es ih =>
    rw [List.forall_mem_cons] at hn
    rw [List.flatMap_cons, List.append_assoc] at h
    cases es' with
    | nil =>
      obtain ⟨tail, htail⟩ := printAttribute_append e (es.flatMap printAttribute ++ x :: rest)
      rw [htail] at h
      exact absurd (List.cons.inj h).1.symm hx'
    | cons e' es' =>
      rw [List.forall_mem_cons] at hn'
      rw [List.flatMap_cons, List.append_assoc] at h
      obtain ⟨rfl, hrest⟩ := printAttribute_cancel hn.1 hn'.1 h
      obtain ⟨rfl, hend⟩ := ih hn.2 hn'.2 hrest
      exact ⟨rfl, hend⟩

/-- What ends the content of a tag. -/
def endsTag (c : Char) : Bool := c == '/' || c == '>'

theorem printOpening_cancel {n n' : String} {as as' : Table String String}
    (hn : isName n = true) (hn' : isName n' = true) (ha : ∀ k ∈ as.keys, isName k = true)
    (ha' : ∀ k ∈ as'.keys, isName k = true) (hx : endsTag x = true) (hx' : endsTag x' = true)
    (h : printOpening n as ++ x :: rest = printOpening n' as' ++ x' :: rest') :
    n = n' ∧ as = as' ∧ x = x' ∧ rest = rest' := by
  have hend : ∀ {y}, endsTag y = true → isNameChar y = false ∧ y ≠ ' ' := fun hy => by
    simp only [endsTag, Bool.or_eq_true, beq_iff_eq] at hy
    rcases hy with rfl | rfl <;> decide
  -- A name is followed by a space or by the end of the content.
  have hafter : ∀ (as : Table String String) {y : Char} (rest : List Char), endsTag y = true →
      ∃ c tail, isNameChar c = false ∧ as.entries.flatMap printAttribute ++ y :: rest = c :: tail := by
    intro as y rest hy
    cases as.entries with
    | nil => exact ⟨y, rest, (hend hy).1, rfl⟩
    | cons e es =>
      obtain ⟨tail, htail⟩ := printAttribute_append e (es.flatMap printAttribute ++ y :: rest)
      exact ⟨' ', tail, by decide, by rw [List.flatMap_cons, List.append_assoc, htail]⟩
  obtain ⟨c, tail, hc, hcs⟩ := hafter as rest hx
  obtain ⟨c', tail', hc', hcs'⟩ := hafter as' rest' hx'
  simp only [printOpening, List.cons_append, List.append_assoc, hcs, hcs', List.cons.injEq,
    true_and] at h
  obtain ⟨rfl, rfl, rfl⟩ := name_cancel hn hn' hc hc' h
  obtain ⟨hentries, hrest⟩ := attributes_cancel (fun e he => ha e.1 (List.mem_map_of_mem he))
    (fun e he => ha' e.1 (List.mem_map_of_mem he)) (hend hx).2 (hend hx').2 (hcs.trans hcs'.symm)
  exact ⟨rfl, Table.ext hentries, hrest⟩

/-! ## Elements -/

/-- What follows the content of the tag that opens an element. -/
def afterContent (rest : List Char) (e : Element) : List Char :=
  if isBare e.children e.text then '/' :: '>' :: rest
  else '>' :: (printText e.text ++ compactAllThen (printClosing e.name ++ rest) e.children)

theorem compactThen_eq (rest : List Char) (e : Element) :
    compactThen rest e = printOpening e.name e.attributes ++ afterContent rest e := by
  obtain ⟨n, as, cs, t⟩ := e
  simp only [compactThen, afterContent]
  split <;> simp

theorem afterContent_eq (rest : List Char) (e : Element) :
    ∃ x tail, endsTag x = true ∧ afterContent rest e = x :: tail := by
  unfold afterContent
  split
  · exact ⟨'/', _, by decide, rfl⟩
  · exact ⟨'>', _, by decide, rfl⟩

theorem printClosing_append (n : String) (rest : List Char) :
    printClosing n ++ rest = '<' :: '/' :: (n.toList ++ '>' :: rest) := by
  simp [printClosing]

/-- What is between the tags of an element is followed by markup. -/
theorem compactAllThen_lt (rest : List Char) (es : List Element) :
    ∃ tail, compactAllThen ('<' :: rest) es = '<' :: tail := by
  cases es with
  | nil => exact ⟨rest, rfl⟩
  | cons e es =>
    rw [compactAllThen, compactThen_eq]
    exact ⟨_, rfl⟩

/-- An element does not look like a closing tag. -/
theorem compactThen_ne_closing {e : Element} (hn : isName e.name = true) :
    compactThen rest e ≠ '<' :: '/' :: rest' := by
  intro h
  obtain ⟨c, tail, hname⟩ := List.exists_cons_of_ne_nil (ne_nil_of_isName hn)
  have hc : isNameChar c = true := isNameChar_of_mem hn (hname ▸ List.mem_cons_self)
  rw [compactThen_eq, printOpening, hname] at h
  exact ne_of_isNameChar hc (by decide) (List.cons.inj (List.cons.inj h).2).1

mutual

/-- A form says what was written, as far as it is told, and where it ends. -/
theorem compactThen_cancel : (a b : Element) → a.Everywhere Named → b.Everywhere Named →
    ∀ {rest rest' : List Char}, compactThen rest a = compactThen rest' b →
      a.WrittenAlike b ∧ rest = rest'
  | ⟨n, as, cs, t⟩, ⟨n', as', cs', t'⟩, ha, hb, rest, rest', h => by
    obtain ⟨⟨hn, hkeys⟩, hcs⟩ := Element.everywhere_mk.1 ha
    obtain ⟨⟨hn', hkeys'⟩, hcs'⟩ := Element.everywhere_mk.1 hb
    obtain ⟨x, tail, hx, hafter⟩ := afterContent_eq rest ⟨n, as, cs, t⟩
    obtain ⟨x', tail', hx', hafter'⟩ := afterContent_eq rest' ⟨n', as', cs', t'⟩
    rw [compactThen_eq, compactThen_eq, hafter, hafter'] at h
    obtain ⟨rfl, rfl, rfl, rfl⟩ := printOpening_cancel hn hn' hkeys hkeys' hx hx' h
    have hrest := hafter.trans hafter'.symm
    simp only [afterContent] at hrest
    by_cases hbare : isBare cs t = true <;> by_cases hbare' : isBare cs' t' = true
    · rw [if_pos hbare, if_pos hbare'] at hrest
      simp only [isBare, Bool.and_eq_true, List.isEmpty_iff, Option.isNone_iff_eq_none]
        at hbare hbare'
      obtain ⟨rfl, rfl⟩ := hbare
      obtain ⟨rfl, rfl⟩ := hbare'
      exact ⟨⟨rfl, rfl, .inl rfl, trivial⟩, (List.cons.inj (List.cons.inj hrest).2).2⟩
    · rw [if_pos hbare, if_neg hbare'] at hrest
      exact absurd (List.cons.inj hrest).1 (by decide)
    · rw [if_neg hbare, if_pos hbare'] at hrest
      exact absurd (List.cons.inj hrest).1 (by decide)
    · rw [if_neg hbare, if_neg hbare', printClosing_append, printClosing_append] at hrest
      -- A text ends before the first tag, which is that of a child or the closing one.
      obtain ⟨inner, hinner⟩ := compactAllThen_lt ('/' :: (n.toList ++ '>' :: rest)) cs
      obtain ⟨inner', hinner'⟩ := compactAllThen_lt ('/' :: (n.toList ++ '>' :: rest')) cs'
      have htexts := (List.cons.inj hrest).2
      rw [hinner, hinner'] at htexts
      obtain ⟨htext, hinside⟩ := escape_cancel (by simp) htexts
      have hchildren := hinner.trans ((congrArg ('<' :: ·) hinside).trans hinner'.symm)
      obtain ⟨halike, hend⟩ := compactAllThen_cancel cs cs' hcs hcs' hchildren
      refine ⟨⟨rfl, rfl, ?_, halike⟩, (List.cons.inj (List.append_cancel_left hend)).2⟩
      replace htext := String.toList_injective htext
      cases cs with
      | cons c cs => exact .inr ⟨List.cons_ne_nil c cs, htext⟩
      | nil =>
        cases cs' with
        | cons c' cs' => exact halike.elim
        | nil =>
          -- Without children neither text is missing.
          cases t with
          | none => exact absurd rfl hbare
          | some t =>
            cases t' with
            | none => exact absurd rfl hbare'
            | some t' => exact .inl (congrArg some htext)

/-- Children end where a closing tag comes. -/
theorem compactAllThen_cancel : (as bs : List Element) → (∀ a ∈ as, a.Everywhere Named) →
    (∀ b ∈ bs, b.Everywhere Named) → ∀ {rest rest' : List Char},
      compactAllThen ('<' :: '/' :: rest) as = compactAllThen ('<' :: '/' :: rest') bs →
        Element.AreWrittenAlike as bs ∧ rest = rest'
  | [], [], _, _, _, _, h => ⟨trivial, (List.cons.inj (List.cons.inj h).2).2⟩
  | [], b :: _, _, hbs, _, _, h =>
    absurd h.symm (compactThen_ne_closing (hbs b List.mem_cons_self).self.1)
  | a :: _, [], has, _, _, _, h =>
    absurd h (compactThen_ne_closing (has a List.mem_cons_self).self.1)
  | a :: as, b :: bs, has, hbs, rest, rest', h => by
    obtain ⟨halike, hrest⟩ := compactThen_cancel a b (has a List.mem_cons_self)
      (hbs b List.mem_cons_self) h
    obtain ⟨halikes, hend⟩ := compactAllThen_cancel as bs
      (fun x hx => has x (List.mem_cons_of_mem a hx))
      (fun x hx => hbs x (List.mem_cons_of_mem b hx)) hrest
    exact ⟨⟨halike, halikes⟩, hend⟩

end

mutual

/-- Elements written alike are written alike in front of anything. -/
theorem compactThen_congr : (a b : Element) → a.WrittenAlike b → (rest : List Char) →
    compactThen rest a = compactThen rest b
  | ⟨n, as, cs, t⟩, ⟨n', as', cs', t'⟩, ⟨hn, has, ht, hcs⟩, rest => by
    subst hn has
    have htext : printText t = printText t' := by
      rcases ht with rfl | ⟨-, ht⟩
      · rfl
      · rw [printText, printText, ht]
    have hbare : isBare cs t = isBare cs' t' := by
      cases cs with
      | nil =>
        cases cs' with
        | nil => rw [ht.resolve_right fun h => h.1 rfl]
        | cons c' cs' => exact hcs.elim
      | cons c cs =>
        cases cs' with
        | nil => exact hcs.elim
        | cons c' cs' => rfl
    rw [compactThen, compactThen, hbare, htext, compactAllThen_congr cs cs' hcs]

theorem compactAllThen_congr : (as bs : List Element) → Element.AreWrittenAlike as bs →
    (rest : List Char) → compactAllThen rest as = compactAllThen rest bs
  | [], [], _, _ => rfl
  | [], _ :: _, h, _ => h.elim
  | _ :: _, [], h, _ => h.elim
  | a :: as, b :: bs, ⟨h, hs⟩, rest => by
    rw [compactAllThen, compactAllThen, compactAllThen_congr as bs hs, compactThen_congr a b h]

end

theorem compact_eq_iff {a b : Element} (ha : a.Everywhere Named) (hb : b.Everywhere Named) :
    compact a = compact b ↔ a.WrittenAlike b :=
  ⟨fun h => (compactThen_cancel a b ha hb h).1, fun h => compactThen_congr a b h []⟩

theorem printCompact_eq_iff {a b : Element} : printCompact a = printCompact b ↔
    compact a = compact b := by
  rw [printCompact, printCompact, String.ofList_inj]

end

end Xml

/-! ## Elements of a document -/

section
variable {seen : List (List Char)} {selected : List Selected} {s : Selected}

theorem firstOfEachForm_sublist (seen : List (List Char)) (selected : List Selected) :
    (firstOfEachForm seen selected).Sublist selected := by
  induction selected generalizing seen with
  | nil => exact .slnil
  | cons s rest ih =>
    rw [firstOfEachForm]
    split
    · exact (ih seen).cons s
    · exact (ih _).cons_cons s

/-- Of every form that was not seen before there is an element. -/
theorem exists_mem_firstOfEachForm (hs : s ∈ selected) (hnew : Xml.compact s.element ∉ seen) :
    ∃ t ∈ firstOfEachForm seen selected, Xml.compact t.element = Xml.compact s.element := by
  induction selected generalizing seen with
  | nil => cases hs
  | cons t rest ih =>
    rw [firstOfEachForm]
    rcases List.mem_cons.1 hs with rfl | hs
    · rw [if_neg hnew]
      exact ⟨s, List.mem_cons_self, rfl⟩
    · split
      · exact ih hs hnew
      · by_cases hform : Xml.compact t.element = Xml.compact s.element
        · exact ⟨t, List.mem_cons_self, hform⟩
        · have hnew' : Xml.compact s.element ∉ Xml.compact t.element :: seen := fun h =>
            (List.mem_cons.1 h).elim (fun h => hform h.symm) hnew
          obtain ⟨u, hu, he⟩ := ih hs hnew'
          exact ⟨u, List.mem_cons_of_mem t hu, he⟩

theorem pairwise_firstOfEachForm (seen : List (List Char)) (selected : List Selected) :
    (firstOfEachForm seen selected).Pairwise
      fun s t => Xml.compact s.element ≠ Xml.compact t.element := by
  induction selected generalizing seen with
  | nil => exact .nil
  | cons s rest ih =>
    rw [firstOfEachForm]
    split
    · exact ih seen
    · refine .cons (fun t ht h => ?_) (ih _)
      exact (mem_firstOfEachForm ht).2 (h ▸ List.mem_cons_self)

/-- Two elements have one compact form just when they are written alike. So the elements
of a document that are left out have one written alike among those that count, and no two
of these are written alike. -/
theorem firstOfEachForm_keeps_definitions {a b : Element} (ha : a.Everywhere Xml.Named)
    (hb : b.Everywhere Xml.Named) (hs : ∀ s ∈ selected, s.element.Everywhere Xml.Named) :
    (Xml.printCompact a = Xml.printCompact b ↔ a.WrittenAlike b) ∧
      (firstOfEachForm [] selected).Sublist selected ∧
      (∀ s ∈ selected, ∃ t ∈ firstOfEachForm [] selected, t.element.WrittenAlike s.element) ∧
      (firstOfEachForm [] selected).Pairwise fun s t => ¬ s.element.WrittenAlike t.element := by
  have hsub := firstOfEachForm_sublist [] selected
  refine ⟨Xml.printCompact_eq_iff.trans (Xml.compact_eq_iff ha hb), hsub, fun s hmem => ?_, ?_⟩
  · obtain ⟨t, ht, hform⟩ := exists_mem_firstOfEachForm hmem List.not_mem_nil
    exact ⟨t, ht, (Xml.compact_eq_iff (hs t (hsub.mem ht)) (hs s hmem)).1 hform⟩
  · refine (pairwise_firstOfEachForm [] selected).imp_of_mem fun {s t} hmem hmem' hne halike => ?_
    exact hne ((Xml.compact_eq_iff (hs s (hsub.mem hmem)) (hs t (hsub.mem hmem'))).2 halike)

/-- A group of one view, with a text before the view. -/
def groupWithText (text : Option String) : Element :=
  ⟨"Group", Table.empty.put "Name" "one", [.bare "View"], text⟩

theorem named_groupWithText (text : Option String) :
    (groupWithText text).Everywhere Xml.Named := by
  have hgroup : Xml.isName "Group" = true ∧
      ∀ n ∈ (Table.empty.put "Name" "one" : Table String String).keys, Xml.isName n = true := by
    decide
  have hview : (Element.bare "View").Everywhere Xml.Named :=
    Element.everywhere_iff.2 ⟨⟨by decide, by decide⟩, List.forall_mem_nil _⟩
  exact Element.everywhere_mk.2 ⟨hgroup, List.forall_mem_singleton.2 hview⟩

/-- A group three times: with an empty text, without a text, and with a text. -/
def threeGroups : List Selected :=
  [⟨0, groupWithText (some "")⟩, ⟨0, groupWithText none⟩, ⟨1, groupWithText (some "x")⟩]

theorem named_threeGroups : ∀ s ∈ threeGroups, s.element.Everywhere Xml.Named :=
  List.forall_mem_cons.2 ⟨named_groupWithText _, List.forall_mem_cons.2 ⟨named_groupWithText _,
    List.forall_mem_singleton.2 (named_groupWithText _)⟩⟩

/-- An empty text before a child is not told from none, and another text is. -/
theorem firstOfEachForm_threeGroups :
    groupWithText (some "") ≠ groupWithText none ∧
      (groupWithText (some "")).WrittenAlike (groupWithText none) ∧
      ¬ (groupWithText (some "")).WrittenAlike (groupWithText (some "x")) ∧
      firstOfEachForm [] threeGroups =
        [⟨0, groupWithText (some "")⟩, ⟨1, groupWithText (some "x")⟩] ∧
      ∀ s ∈ threeGroups, ∃ t ∈ firstOfEachForm [] threeGroups, t.element.WrittenAlike s.element :=
  have hempty := firstOfEachForm_keeps_definitions (named_groupWithText (some ""))
    (named_groupWithText none) named_threeGroups
  have hother := firstOfEachForm_keeps_definitions (named_groupWithText (some ""))
    (named_groupWithText (some "x")) named_threeGroups
  ⟨by decide, hempty.1.1 (by decide), mt hother.1.2 (by decide), by decide, hempty.2.2.1⟩

end

end TemplateInventory
