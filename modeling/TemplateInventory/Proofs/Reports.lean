import TemplateInventory.Proofs.Reachable
import TemplateInventory.Proofs.RoundTrip
import TemplateInventory.Proofs.Sessions
/-!
# Reports of elements

A report is the document of an element without the line of its declaration. To take that
line away the document is cut into lines and these are joined again, and with its line feed a
line loses a carriage return before it. The line ends of the document itself have none, but a
value or a text may have some. So a report is read back as the element with the carriage
returns before line feeds left out of its values and texts (`Element.report_eq`,
`CommandSession.get_prints`), and as the element itself if there are none.
-/

namespace TemplateInventory

/-! ## Texts cut into lines and joined again -/

namespace Text

/-- A text without the carriage returns that stand before line feeds. -/
def relined : List Char → List Char
  | [] => []
  | c :: cs => if c = '\r' ∧ cs.head? = some '\n' then relined cs else c :: relined cs

section
variable {c : Char} {cs line rest : List Char}

theorem relined_cons_of_ne (h : c ≠ '\r') : relined (c :: cs) = c :: relined cs := by
  simp [relined, h]

theorem relined_sublist (cs : List Char) : (relined cs).Sublist cs := by
  induction cs with
  | nil => exact .slnil
  | cons c cs ih =>
    rw [relined]
    split
    · exact ih.cons c
    · exact ih.cons_cons c

theorem relined_eq_self_iff : relined cs = cs ↔ ¬ ['\r', '\n'] <:+: cs := by
  induction cs with
  | nil => simp [relined]
  | cons c cs ih =>
    have hstart : ['\r', '\n'] <+: c :: cs ↔ c = '\r' ∧ cs.head? = some '\n' := by
      rw [List.cons_prefix_cons, eq_comm, List.head?_eq_some_iff]
      simp [List.IsPrefix, eq_comm]
    rw [List.infix_cons_iff, not_or, hstart, ← ih, relined]
    split
    · next h =>
      -- The rest is too short to be the whole.
      have hlength := (relined_sublist cs).length_le
      refine iff_of_false (fun he => ?_) fun hn => hn.1 h
      rw [he, List.length_cons] at hlength
      omega
    · next h => simp [h]

theorem endLine_cons_cons (c d : Char) (line : List Char) :
    endLine (c :: d :: line) = c :: endLine (d :: line) := by
  have hback : (c :: d :: line).reverse = (d :: line).reverse ++ [c] := List.reverse_cons
  unfold endLine
  rw [hback]
  cases hr : (d :: line).reverse with
  | nil => simp at hr
  | cons x xs =>
    by_cases hx : x = '\r'
    · subst hx
      simp
    · simp [hx]

theorem relined_line (h : '\n' ∉ line) :
    relined (line ++ '\n' :: rest) = endLine line ++ '\n' :: relined rest := by
  have hfeed : relined ('\n' :: rest) = '\n' :: relined rest := relined_cons_of_ne (by decide)
  induction line with
  | nil => exact hfeed
  | cons c line ih =>
    rw [List.mem_cons, not_or] at h
    rw [List.cons_append, relined]
    cases line with
    | nil =>
      by_cases hc : c = '\r'
      · subst hc
        simpa [endLine] using hfeed
      · simpa [endLine, hc] using hfeed
    | cons d line =>
      have hd : d ≠ '\n' := fun he => h.2 (he ▸ List.mem_cons_self)
      rw [if_neg (by simp [hd]), ih h.2, endLine_cons_cons, List.cons_append]

theorem linesFrom_ne_nil (begun : List Char) (h : cs ≠ []) : linesFrom begun cs ≠ [] := by
  induction cs generalizing begun with
  | nil => exact absurd rfl h
  | cons c cs ih =>
    rw [linesFrom]
    split
    · exact List.cons_ne_nil _ _
    · cases cs with
      | nil => simp [linesFrom]
      | cons d cs => exact ih _ (List.cons_ne_nil d cs)

theorem intercalate_linesFrom {begun : List Char} (h : '\n' ∉ begun)
    (hlast : cs.getLast? ≠ some '\n') :
    ['\n'].intercalate (linesFrom begun cs) = relined (begun.reverse ++ cs) := by
  induction cs generalizing begun with
  | nil =>
    have hplain : relined begun.reverse = begun.reverse := relined_eq_self_iff.2 fun hi =>
      h (List.mem_reverse.1 (hi.subset (by simp)))
    rw [List.append_nil, hplain]
    cases begun <;> simp [linesFrom]
  | cons c cs ih =>
    have hlast' : cs.getLast? ≠ some '\n' := fun he => hlast (by rw [List.getLast?_cons, he]; rfl)
    rw [linesFrom]
    split
    · next hc =>
      subst hc
      have hne : cs ≠ [] := fun he => hlast (by rw [he]; rfl)
      rw [List.intercalate_cons_of_ne_nil (linesFrom_ne_nil [] hne), ih List.not_mem_nil hlast',
        relined_line (by simpa using h)]
      simp
    · next hc =>
      have hbegun : '\n' ∉ c :: begun := by simp [h, Ne.symm hc]
      rw [ih hbegun hlast', List.reverse_cons, List.append_assoc, List.singleton_append]

end

/-- What is left of a piece of a text, whatever comes after it. -/
def Relines (piece piece' : List Char) : Prop :=
  ∀ rest, relined (piece ++ rest) = piece' ++ relined rest

namespace Relines
variable {a a' b b' : List Char} {c : Char}

theorem nil : Relines [] [] := fun _ => rfl

theorem append (h : Relines a a') (h' : Relines b b') : Relines (a ++ b) (a' ++ b') := fun rest => by
  rw [List.append_assoc, h, h', List.append_assoc]

theorem cons (hc : c ≠ '\r') (h : Relines a a') : Relines (c :: a) (c :: a') := fun rest => by
  rw [List.cons_append, relined_cons_of_ne hc, h, List.cons_append]

/-- A piece without carriage returns stays. -/
theorem self (h : '\r' ∉ a) : Relines a a := by
  induction a with
  | nil => exact nil
  | cons c a ih =>
    rw [List.mem_cons, not_or] at h
    exact (ih h.2).cons (Ne.symm h.1)

end Relines

end Text

/-! ## Elements without carriage returns before line feeds -/

namespace Table
variable {κ α β : Type}

/-- The table with `f` applied to every value. -/
def mapValues (f : α → β) (t : Table κ α) : Table κ β :=
  ⟨t.entries.map fun e => (e.1, f e.2), by
    simpa [Function.comp_def] using t.distinct⟩

theorem keys_mapValues (f : α → β) (t : Table κ α) : (t.mapValues f).keys = t.keys := by
  simp [keys, mapValues, Function.comp_def]

end Table

namespace Element
open Text

/-- A value or a text without the carriage returns that stand before line feeds. -/
def relinedText (s : String) : String := String.ofList (relined s.toList)

mutual

/-- An element without the carriage returns that stand before line feeds in its values and
texts. -/
def relined : Element → Element
  | ⟨name, attributes, children, text⟩ =>
    ⟨name, attributes.mapValues relinedText, relinedAll children, text.map relinedText⟩

/-- The elements of a list without these carriage returns. -/
def relinedAll : List Element → List Element
  | [] => []
  | e :: es => relined e :: relinedAll es

end

theorem relinedAll_eq_map (es : List Element) : relinedAll es = es.map relined := by
  induction es with
  | nil => rfl
  | cons e es ih => rw [relinedAll, ih, List.map_cons]

end Element

namespace Xml
open Text

section
variable {name : String} {attributes : Table String String} {rest : List Char}

theorem head?_escape_append (cs : List Char) (h : rest.head? ≠ some '\n') :
    (escape cs ++ rest).head? = some '\n' ↔ cs.head? = some '\n' := by
  cases cs with
  | nil => simpa [escape] using h
  | cons c cs =>
    rw [escape, List.flatMap_cons]
    by_cases hm : c ∈ escaped
    · simp only [escaped, List.mem_cons, List.not_mem_nil, or_false] at hm
      rcases hm with rfl | rfl | rfl | rfl | rfl <;> simp [escapeChar]
    · simp [escapeChar_of_not_mem hm]

/-- Writing a text adds no carriage return and no line feed, and takes none away. -/
theorem relined_escape_append (cs : List Char) (h : rest.head? ≠ some '\n') :
    relined (escape cs ++ rest) = escape (relined cs) ++ relined rest := by
  induction cs with
  | nil => rfl
  | cons c cs ih =>
    have hcons : ∀ c cs, escape (c :: cs) = escapeChar c ++ escape cs := fun _ _ => rfl
    rw [hcons, List.append_assoc]
    by_cases hm : c ∈ escaped
    · have hplain : '\r' ∉ escapeChar c ∧ c ≠ '\r' := by
        simp only [escaped, List.mem_cons, List.not_mem_nil, or_false] at hm
        rcases hm with rfl | rfl | rfl | rfl | rfl <;> decide
      rw [Relines.self hplain.1, ih, relined_cons_of_ne hplain.2, hcons, List.append_assoc]
    · rw [escapeChar_of_not_mem hm, List.singleton_append, relined, relined, ih]
      simp only [head?_escape_append cs h]
      split
      · rfl
      · rw [hcons, escapeChar_of_not_mem hm, List.append_assoc, List.singleton_append]

theorem relines_quoted (cs : List Char) :
    Relines (escape cs ++ ['\x22']) (escape (relined cs) ++ ['\x22']) := fun rest => by
  rw [List.append_assoc, relined_escape_append cs (by simp), List.append_assoc,
    List.singleton_append, relined_cons_of_ne (by decide), List.singleton_append]

theorem relines_name (h : isName name = true) : Relines name.toList name.toList :=
  .self fun hm => absurd (not_blank_of_isNameChar (isNameChar_of_mem h hm)) (by decide)

theorem relines_attribute {e : String × String} (h : isName e.1 = true) :
    Relines (printAttribute e) (printAttribute (e.1, Element.relinedText e.2)) := by
  have hall := ((relines_name h).cons (c := ' ') (by decide)).append
    (((relines_quoted e.2.toList).cons (c := '\x22') (by decide)).cons (c := '=') (by decide))
  simpa [printAttribute, Element.relinedText] using hall

theorem relines_opening (h : isName name = true) (ha : ∀ n ∈ attributes.keys, isName n = true) :
    Relines (printOpening name attributes)
      (printOpening name (attributes.mapValues Element.relinedText)) := by
  have hattributes : ∀ es : List (String × String), (∀ e ∈ es, isName e.1 = true) →
      Relines (es.flatMap printAttribute)
        ((es.map fun e => (e.1, Element.relinedText e.2)).flatMap printAttribute) := fun es hes => by
    induction es with
    | nil => exact .nil
    | cons e es ih =>
      exact (relines_attribute (hes e List.mem_cons_self)).append
        (ih fun x hx => hes x (List.mem_cons_of_mem e hx))
  exact ((relines_name h).cons (by decide)).append
    (hattributes attributes.entries fun e he => ha e.1 (List.mem_map_of_mem he))

theorem relines_closing (h : isName name = true) :
    Relines (printClosing name) (printClosing name) :=
  (((relines_name h).cons (by decide)).cons (by decide)).append (.self (by decide))

theorem relines_newLine (depth : Nat) : Relines (newLine depth) (newLine depth) :=
  .self fun hm => by simp [newLine, List.mem_replicate] at hm

/-! ## Printed elements -/

theorem head?_prettyThen (depth : Nat) (rest : List Char) (e : Element) :
    (prettyThen depth rest e).head? = some '<' := by
  obtain ⟨name, attributes, children, text⟩ := e
  rw [prettyThen]
  split <;> rfl

/-- In front of a tag, or of a new line if there is no text, a text can be cut into lines
by itself. -/
theorem relined_printText {text : Option String} (h : text = none ∨ rest.head? = some '<') :
    relined (printText text ++ rest) =
      printText (text.map Element.relinedText) ++ relined rest := by
  cases text with
  | none => rfl
  | some t =>
    have hrest : rest.head? ≠ some '\n' := by
      rw [h.resolve_left (by simp)]
      decide
    simp [printText, relined_escape_append _ hrest, Element.relinedText]

mutual

theorem relined_prettyThen : (e : Element) → e.Everywhere Named → (depth : Nat) →
    (rest : List Char) →
    relined (prettyThen depth rest e) = prettyThen depth (relined rest) e.relined
  | ⟨name, attributes, children, text⟩, he, depth, rest => by
    obtain ⟨⟨hn, ha⟩, hcs⟩ : (isName name = true ∧ ∀ n ∈ attributes.keys, isName n = true) ∧
      ∀ c ∈ children, c.Everywhere Named := Element.everywhere_mk.1 he
    have hopening := relines_opening hn ha
    have hbare : isBare (Element.relinedAll children) (text.map Element.relinedText) =
        isBare children text := by
      cases children <;> cases text <;> rfl
    rw [prettyThen, Element.relined, prettyThen, hbare]
    split
    · rw [hopening, relined_cons_of_ne (by decide), relined_cons_of_ne (by decide)]
    · have hgap : Relines (if children.isEmpty then [] else newLine depth)
          (if children.isEmpty then [] else newLine depth) := by
        split
        · exact .nil
        · exact relines_newLine depth
      have hafter := hgap.append (relines_closing hn) rest
      have hchildren := relined_prettyAllThen children hcs (depth + 1) text.isNone
        ((if children.isEmpty then [] else newLine depth) ++ printClosing name ++ rest)
      have hhead : text = none ∨ (prettyAllThen (depth + 1) text.isNone
          ((if children.isEmpty then [] else newLine depth) ++ printClosing name ++ rest)
            children).head? = some '<' := by
        cases text with
        | none => exact .inl rfl
        | some t =>
          cases children with
          | nil => exact .inr rfl
          | cons c cs => exact .inr (head?_prettyThen _ _ c)
      have hempty : (Element.relinedAll children).isEmpty = children.isEmpty := by
        cases children <;> rfl
      rw [List.append_assoc, hopening, List.cons_append, relined_cons_of_ne (by decide),
        relined_printText hhead, hchildren, hafter, hempty, Option.isNone_map]
      simp only [List.append_assoc, List.cons_append]

theorem relined_prettyAllThen : (es : List Element) → (∀ e ∈ es, e.Everywhere Named) →
    (depth : Nat) → (fresh : Bool) → (rest : List Char) →
    relined (prettyAllThen depth fresh rest es) =
      prettyAllThen depth fresh (relined rest) (Element.relinedAll es)
  | [], _, _, _, _ => rfl
  | e :: es, he, depth, fresh, rest => by
    have hfirst := relined_prettyThen e (he e List.mem_cons_self) depth
      (prettyAllThen depth true rest es)
    have hothers := relined_prettyAllThen es (fun x hx => he x (List.mem_cons_of_mem e hx)) depth
      true rest
    rw [prettyAllThen, Element.relinedAll, prettyAllThen, ← hothers, ← hfirst]
    cases fresh with
    | false => rfl
    | true => exact relines_newLine depth _

end

/-- The document form of an element ends with a tag. -/
theorem getLast?_prettyThen (e : Element) : (prettyThen 0 [] e).getLast? = some '>' := by
  obtain ⟨name, attributes, children, text⟩ := e
  rw [prettyThen_eq_spacedThen, spacedThen]
  split
  · simp
  · have hend : (if children.isEmpty then [] else newLine 0) ++ printClosing name ++ [] =
        (if children.isEmpty then [] else newLine 0) ++ '<' :: '/' :: name.toList ++ ['>'] := by
      simp [printClosing]
    rw [hend, ← spacedAllThen_append, ← List.append_assoc, List.getLast?_concat]

/-- A document form does not start like a declaration. -/
theorem not_declaration_prettyThen {e : Element} (hn : isName e.name = true) (depth : Nat)
    (rest : List Char) : ¬ "<?xml".toList <+: prettyThen depth rest e := by
  obtain ⟨name, attributes, children, text⟩ := e
  obtain ⟨c, tail, hname⟩ := List.exists_cons_of_ne_nil (ne_nil_of_isName hn)
  have hc : c ≠ '?' :=
    ne_of_isNameChar (isNameChar_of_mem hn (hname ▸ List.mem_cons_self)) (by decide)
  have hshape : ∃ after, prettyThen depth rest ⟨name, attributes, children, text⟩ =
      '<' :: c :: after := by
    rw [prettyThen, printOpening, hname]
    split
    · exact ⟨_, rfl⟩
    · exact ⟨_, rfl⟩
  obtain ⟨after, hshape⟩ := hshape
  rw [hshape]
  intro hp
  exact hc (List.cons_prefix_cons.1 (List.cons_prefix_cons.1 hp).2).1.symm

end

theorem Named.relined {e : Element} (h : Named e) : Named e.relined := by
  cases e
  exact ⟨h.1, fun n hn => h.2 n (Table.keys_mapValues _ _ ▸ hn)⟩

end Xml

namespace Element
open Text Xml

theorem Everywhere.relined {P Q : Element → Prop} {e : Element} (h : e.Everywhere P)
    (hPQ : ∀ x, P x → Q x.relined) : e.relined.Everywhere Q := by
  induction e using Element.induction with
  | node e ih =>
    obtain ⟨hself, hchildren⟩ := everywhere_iff.1 h
    refine everywhere_iff.2 ⟨hPQ e hself, fun c hc => ?_⟩
    obtain ⟨name, attributes, children, text⟩ := e
    simp only [Element.relined, relinedAll_eq_map, List.mem_map] at hc
    obtain ⟨c, hc, rfl⟩ := hc
    exact ih c hc (hchildren c hc)

theorem lines_printDocument (e : Element) :
    lines (printDocument e) = declaration :: (linesFrom [] (prettyThen 0 [] e)).map String.ofList := by
  rw [lines, printDocument, String.toList_ofList, List.append_assoc]
  rfl

/-- A report is the document form of the element without carriage returns before line
feeds. -/
theorem report_eq {e : Element} (he : e.Everywhere Named) :
    e.report = String.ofList (prettyThen 0 [] e.relined) := by
  have hjoin : ['\n'].intercalate (linesFrom [] (prettyThen 0 [] e)) =
      prettyThen 0 [] e.relined := by
    rw [intercalate_linesFrom List.not_mem_nil (by rw [getLast?_prettyThen]; decide)]
    exact relined_prettyThen e he 0 []
  have hkept : ((linesFrom [] (prettyThen 0 [] e)).map String.ofList).dropWhile isDeclaration =
      (linesFrom [] (prettyThen 0 [] e)).map String.ofList := by
    cases hl : linesFrom [] (prettyThen 0 [] e) with
    | nil => rfl
    | cons first others =>
      have hfirst : first <+: prettyThen 0 [] e.relined := by
        rw [← hjoin, hl]
        cases others with
        | nil => simp
        | cons => simp [List.intercalate_cons_cons]
      have hnot : ¬ isDeclaration (String.ofList first) = true := fun hd => by
        have hback : (String.ofList first).toList = first := String.toList_ofList
        rw [isDeclaration, hback, List.isPrefixOf_iff_prefix] at hd
        exact not_declaration_prettyThen (Named.relined he.self).1 0 [] (hd.trans hfirst)
      rw [List.map_cons, List.dropWhile_cons_of_neg hnot]
  have hdeclaration : isDeclaration declaration = true := by decide
  rw [report, lines_printDocument, List.dropWhile_cons_of_pos hdeclaration, hkept,
    ← String.toList_inj, String.toList_intercalate, List.map_map, String.toList_ofList, ← hjoin]
  simp [Function.comp_def]

/-- The values of the attributes and the text. -/
def strings (e : Element) : List String := e.attributes.entries.map Prod.snd ++ e.text.toList

/-- Whether no value and no text has a carriage return in front of a line feed. -/
def IsRelined (e : Element) : Prop := ∀ s ∈ e.strings, ¬ ['\r', '\n'] <:+: s.toList

theorem relinedText_eq_self_iff {s : String} :
    relinedText s = s ↔ ¬ ['\r', '\n'] <:+: s.toList := by
  rw [← relined_eq_self_iff, relinedText, ← String.toList_inj, String.toList_ofList]

instance : DecidablePred IsRelined := fun e =>
  decidable_of_iff (∀ s ∈ e.strings, relinedText s = s) (by simp [IsRelined, relinedText_eq_self_iff])

theorem mapValues_relinedText_eq_self_iff {attributes : Table String String} :
    attributes.mapValues relinedText = attributes ↔
      ∀ s ∈ attributes.entries.map Prod.snd, ¬ ['\r', '\n'] <:+: s.toList := by
  have hmap : attributes.entries.map (fun e => (e.1, relinedText e.2)) = attributes.entries ↔
      ∀ e ∈ attributes.entries, (e.1, relinedText e.2) = e := by
    simpa using List.map_inj_left (l := attributes.entries) (f := fun e => (e.1, relinedText e.2))
      (g := id)
  rw [Table.ext_iff, Table.mapValues, hmap, List.forall_mem_map]
  simp only [Prod.ext_iff, true_and, relinedText_eq_self_iff]

theorem sublist_trimWhere (p : Char → Bool) (cs : List Char) : (trimWhere p cs).Sublist cs := by
  rw [trimWhere, dropEndWhile]
  have hend := (List.dropWhile_sublist (l := (cs.dropWhile p).reverse) p).reverse
  rw [List.reverse_reverse] at hend
  exact hend.trans (List.dropWhile_sublist p)

/-- A text that is missing, or has nothing to be taken away, comes back. -/
theorem tidyText_map_relinedText {text : Option String} :
    tidyText (text.map relinedText) = text ↔
      isText text = true ∧ ∀ s ∈ text.toList, ¬ ['\r', '\n'] <:+: s.toList := by
  cases text with
  | none => simp [tidyText, isText]
  | some t =>
    rw [Option.map_some]
    constructor
    · intro h
      have hback : relinedText t = t := by
        rw [tidyText, relinedText, String.toList_ofList] at h
        split at h
        · cases h
        · have hkept : trimWhere isMarkupBlank (Text.relined t.toList) = t.toList := by
            simpa using congrArg String.toList (Option.some.inj h)
          have hpart := sublist_trimWhere isMarkupBlank (Text.relined t.toList)
          rw [hkept] at hpart
          rw [relinedText, (relined_sublist t.toList).eq_of_length_le hpart.length_le,
            String.ofList_toList]
      rw [hback] at h
      exact ⟨tidyText_eq_self_iff.1 h, by simpa using relinedText_eq_self_iff.1 hback⟩
    · rintro ⟨htext, hnone⟩
      rw [relinedText_eq_self_iff.2 (hnone t (by simp))]
      exact tidyText_eq_self_iff.2 htext

theorem tidy_relined_eq_self_iff {e : Element} :
    e.relined.tidy = e ↔ e.Everywhere fun x => isText x.text = true ∧ x.IsRelined := by
  induction e using Element.induction with
  | node e ih =>
    obtain ⟨name, attributes, children, text⟩ := e
    have hchildren : children.map (tidy ∘ relined) = children ↔
        ∀ c ∈ children, c.Everywhere fun x => isText x.text = true ∧ x.IsRelined := by
      have hmap : children.map (tidy ∘ relined) = children ↔
          ∀ c ∈ children, c.relined.tidy = c := by
        simpa using List.map_inj_left (l := children) (f := tidy ∘ relined) (g := id)
      rw [hmap]
      exact ⟨fun h c hc => (ih c hc).1 (h c hc), fun h c hc => (ih c hc).2 (h c hc)⟩
    simp only [relined, tidy, tidyAll_eq_map, relinedAll_eq_map, List.map_map, mk.injEq, true_and,
      mapValues_relinedText_eq_self_iff, tidyText_map_relinedText, everywhere_mk, IsRelined, strings,
      List.forall_mem_append, hchildren]
    constructor
    · rintro ⟨hvalues, hcs, htext, hreturns⟩
      exact ⟨⟨htext, hvalues, hreturns⟩, hcs⟩
    · rintro ⟨⟨htext, hvalues, hreturns⟩, hcs⟩
      exact ⟨hvalues, hcs, htext, hreturns⟩

theorem parse_report {e : Element} (he : e.Everywhere Named) :
    parse e.report = .ok e.relined.tidy := by
  rw [report_eq he, prettyThen_eq_spacedThen]
  exact parse_spacedThen precedes_newLine (he.relined fun _ => Named.relined)

end Element

/-! ## What is printed for a key -/

/-- What is printed for an element is the element, as far as reading it back tells, but for
carriage returns before line feeds in values and texts, and white space at the ends of texts.
So it is read back as it is just if there are none. -/
theorem CommandSession.get_prints {c : CommandSession} {files : FileTree}
    {inventory element : String} {words : List String} {e : Element}
    (h : c.found? files inventory element words = some e) (hn : e.Everywhere Xml.Named) :
    ∃ out, c.run files (.get inventory element words) = (.ok out, files) ∧
      Xml.parse out = .ok e.relined.tidy ∧
      (Xml.parse out = .ok e ↔
        e.Everywhere fun x => Xml.isText x.text = true ∧ x.IsRelined) := by
  have hparse := Element.parse_report hn
  refine ⟨e.report, run_get h, hparse, ?_⟩
  rw [hparse, Except.ok.injEq, Element.tidy_relined_eq_self_iff]

/-! ## A workspace with one file -/

namespace CommandSession

/-- A workspace with one inventory of parts. -/
def ofParts : CommandSession where
  root := ⟨"/"⟩
  settings :=
    { inventories := .ofList [("parts", {
        directories := [⟨"shipped"⟩]
        filePattern := "*"
        selectionPath := "/Inventory/*"
        keyAttributes := [⟨"part", ["id"]⟩] })] }
  environment := ⟨.empty, none⟩

end CommandSession

/-- The files of a workspace with one file. -/
def FileTree.ofShipped (text : String) : FileTree where
  entries := .ofList [(["shipped"], .directory), (["shipped", "a"], .file text.toUTF8 (.given 0))]
  workDir := []
  writes := 0

/-- A part with a value of two lines. -/
def twoLines (ends : String) : Element := .part [("id", "x"), ("label", "a" ++ ends ++ "b")]

/-- Two lines that a line feed parts come back. -/
theorem CommandSession.get_prints_twoLines :
    ∃ out, (ofParts.run (.ofShipped "<Inventory><part id=\"x\" label=\"a\nb\"/></Inventory>")
        (.get "parts" "part" ["x"])).1 = .ok out ∧ Xml.parse out = .ok (twoLines "\n") := by
  have hnamed : (twoLines "\n").Everywhere Xml.Named :=
    Element.everywhere_iff.2 ⟨⟨by decide, by decide⟩, by simp [twoLines, Element.part]⟩
  have hfound : ofParts.found? (.ofShipped "<Inventory><part id=\"x\" label=\"a\nb\"/></Inventory>")
      "parts" "part" ["x"] = some (twoLines "\n") := by decide +kernel
  obtain ⟨out, hrun, -, hiff⟩ := get_prints hfound hnamed
  refine ⟨out, by rw [hrun], hiff.2 ?_⟩
  exact Element.everywhere_iff.2 ⟨⟨rfl, by decide⟩, by simp [twoLines, Element.part]⟩

/-- Whether every element with names and texts that can be written is printed so that it is
read back. -/
def CommandSession.PrintsAll (c : CommandSession) (files : FileTree) : Prop :=
  ∀ inventory element words e, c.found? files inventory element words = some e →
    e.Everywhere Xml.Named → (e.Everywhere fun x => Xml.isText x.text = true) →
      ∃ out, (c.run files (.get inventory element words)).1 = .ok out ∧ Xml.parse out = .ok e

/-- Two lines that a carriage return and a line feed part do not come back. -/
theorem CommandSession.printed_lines_changed : ¬ ofParts.PrintsAll
    (.ofShipped "<Inventory><part id=\"x\" label=\"a\x0d\nb\"/></Inventory>") := by
  intro hall
  obtain ⟨out, hrun, hparse⟩ := hall "parts" "part" ["x"] (twoLines "\x0d\n") (by decide +kernel)
    (Element.everywhere_iff.2 ⟨⟨by decide, by decide⟩, by simp [twoLines, Element.part]⟩)
    (Element.everywhere_iff.2 ⟨rfl, by simp [twoLines, Element.part]⟩)
  have hread : ((ofParts.run
      (.ofShipped "<Inventory><part id=\"x\" label=\"a\x0d\nb\"/></Inventory>")
      (.get "parts" "part" ["x"])).1.toOption.bind fun out => (Xml.parse out).toOption) =
        some (twoLines "\n") := by decide +kernel
  rw [hrun] at hread
  replace hread : (Xml.parse out).toOption = some (twoLines "\n") := hread
  rw [hparse] at hread
  revert hread
  decide

end TemplateInventory
