import TemplateInventory.Xml.Document
/-!
# Nested events

A document is built from exactly those lists of events that spell one element
(`parse_iff_spells`). What spells an element is said by a grammar: an event of an empty
element, or a start tag, content, and an end tag (`Spells`); the content is any mixture of
elements, pieces of text, and what leaves no trace (`SpellsContent`). Around the document's
element only text and what leaves no trace may stand.

That what is spelled is built goes along the grammar (`Building.steps_of_spells`). For the
other direction the events themselves are all there is to go by: if the innermost open
element is closed in the end, the events up to its end tag are content
(`Building.exists_content`), by induction on how many events there are.
-/

namespace TemplateInventory.Xml

/-! ## The grammar -/

/-- Whether an event does not count outside of elements. -/
def Event.IsOutside : Event → Prop
  | .text _ | .aside => True
  | .opening .. | .empty .. | .closing => False

/-- The text that pieces make up: none if there are none. -/
def joinPieces : List String → Option String
  | [] => none
  | pieces => some (String.join pieces)

mutual

/-- Events that spell an element. -/
inductive Spells : List Event → Element → Prop
  | empty (name : String) (attributes : Table String String) :
    Spells [.empty name attributes] ⟨name, attributes, [], none⟩
  | nested (name : String) (attributes : Table String String) {inside : List Event}
      {children : List Element} {pieces : List String} :
    SpellsContent inside children pieces →
    Spells (.opening name attributes :: inside ++ [.closing])
      ⟨name, attributes, children, joinPieces pieces⟩

/-- Events that spell the children of an element and the pieces of its text. -/
inductive SpellsContent : List Event → List Element → List String → Prop
  | nil : SpellsContent [] [] []
  | aside {es : List Event} {children : List Element} {pieces : List String} :
    SpellsContent es children pieces → SpellsContent (.aside :: es) children pieces
  | text (piece : String) {es : List Event} {children : List Element} {pieces : List String} :
    SpellsContent es children pieces →
    SpellsContent (.text piece :: es) children (piece :: pieces)
  | child {inside es : List Event} {c : Element} {children : List Element}
      {pieces : List String} :
    Spells inside c → SpellsContent es children pieces →
    SpellsContent (inside ++ es) (c :: children) pieces

end

/-- Events that spell an element, with what does not count before and after it. -/
def SpellsDocument (es : List Event) (e : Element) : Prop :=
  ∃ before inside after, es = before ++ inside ++ after ∧ (∀ ev ∈ before, ev.IsOutside) ∧
    Spells inside e ∧ ∀ ev ∈ after, ev.IsOutside

/-! ## What is spelled is built -/

/-- A text with more pieces after it. -/
def addPieces (text : Option String) (pieces : List String) : Option String :=
  pieces.foldl (fun text piece => some (text.getD "" ++ piece)) text

theorem addPieces_nil (text : Option String) : addPieces text [] = text := rfl

theorem addPieces_some (text : String) (pieces : List String) :
    addPieces (some text) pieces = some (pieces.foldl (· ++ ·) text) := by
  induction pieces generalizing text with
  | nil => rfl
  | cons piece pieces ih => exact ih (text ++ piece)

theorem addPieces_none (pieces : List String) : addPieces none pieces = joinPieces pieces := by
  cases pieces with
  | nil => rfl
  | cons piece pieces => exact addPieces_some _ pieces

/-- An element with more children and more pieces of text. -/
def extend (e : Element) (children : List Element) (pieces : List String) : Element :=
  { e with children := e.children ++ children, text := addPieces e.text pieces }

theorem extend_start (name : String) (attributes : Table String String) (children : List Element)
    (pieces : List String) :
    extend ⟨name, attributes, [], none⟩ children pieces =
      ⟨name, attributes, children, joinPieces pieces⟩ := by
  rw [extend, addPieces_none, List.nil_append]

theorem extend_nil (e : Element) : extend e [] [] = e := by
  cases e
  rw [extend, List.append_nil, addPieces_nil]

theorem extend_push (e c : Element) (children : List Element) (pieces : List String) :
    extend (e.push c) children pieces = extend e (c :: children) pieces := by
  rw [extend, extend, Element.push, List.append_assoc, List.singleton_append]

namespace Building

mutual

/-- The events of an element add it to what is built. -/
theorem steps_of_spells : {inside : List Event} → {c : Element} → Spells inside c →
    (b : Building) → (rest : List Event) →
    b.steps (inside ++ rest) = match b.attach c with
      | .error f => .error f
      | .ok b' => b'.steps rest
  | _, _, .empty name attributes, b, rest => rfl
  | _, _, .nested name attributes hinside, b, rest => by
    have hopened := steps_of_spellsContent hinside ⟨name, attributes, [], none⟩ b.opened b.root
      (.closing :: rest)
    rw [extend_start] at hopened
    rw [List.append_assoc]
    exact hopened

/-- The events of a content extend the innermost open element. -/
theorem steps_of_spellsContent : {inside : List Event} → {children : List Element} →
    {pieces : List String} → SpellsContent inside children pieces → (e : Element) →
    (opened : List Element) → (root : Option Element) → (rest : List Event) →
    steps ⟨e :: opened, root⟩ (inside ++ rest) =
      steps ⟨extend e children pieces :: opened, root⟩ rest
  | _, _, _, .nil, e, opened, root, rest => by rw [extend_nil, List.nil_append]
  | _, _, _, .aside h, e, opened, root, rest => steps_of_spellsContent h e opened root rest
  | _, _, _, .text piece h, e, opened, root, rest =>
    steps_of_spellsContent h { e with text := some (e.text.getD "" ++ piece) } opened root rest
  | _, _, _, .child (c := c) hc h, e, opened, root, rest => by
    rw [List.append_assoc, steps_of_spells hc, ← extend_push]
    exact steps_of_spellsContent h (e.push c) opened root rest

end

/-! ## What is built is spelled -/

section
variable {root : Option Element} {b : Building} {es : List Event}

/-- If an element is open, and none is in the end, its content and its end tag come first. -/
theorem exists_content : (es : List Event) → {e : Element} → {opened : List Element} →
    steps ⟨e :: opened, root⟩ es = .ok b → b.opened = [] →
    ∃ inside children pieces rest,
      SpellsContent inside children pieces ∧ es = inside ++ .closing :: rest
  | [], _, _, h, hb => by
    cases h
    cases hb
  | .aside :: es, _, _, h, hb => by
    obtain ⟨inside, children, pieces, rest, hinside, rfl⟩ := exists_content es h hb
    exact ⟨_, _, _, rest, .aside hinside, rfl⟩
  | .text piece :: es, _, _, h, hb => by
    obtain ⟨inside, children, pieces, rest, hinside, rfl⟩ := exists_content es h hb
    exact ⟨_, _, _, rest, .text piece hinside, rfl⟩
  | .empty name attributes :: es, _, _, h, hb => by
    obtain ⟨inside, children, pieces, rest, hinside, rfl⟩ := exists_content es h hb
    exact ⟨_, _, _, rest, .child (.empty name attributes) hinside, rfl⟩
  | .closing :: es, _, _, _, _ => ⟨[], [], [], es, .nil, rfl⟩
  | .opening name attributes :: es, e, opened, h, hb => by
    -- The element that starts here is closed first, and then the one that is open.
    obtain ⟨inner, cs, ps, after, hinner, hes⟩ := exists_content es h hb
    have hc := Spells.nested name attributes hinner
    have hsplit : .opening name attributes :: es =
        .opening name attributes :: inner ++ [.closing] ++ after := by simp [hes]
    have hshorter : after.length < es.length := by simp [hes]; omega
    rw [hsplit, steps_of_spells hc] at h
    obtain ⟨inside, children, pieces, rest, hinside, hafter⟩ := exists_content after h hb
    exact ⟨_, _, _, rest, .child hc hinside, by rw [hsplit, hafter]; simp only [List.append_assoc]⟩
termination_by es => es.length

/-- If nothing is open in the end, the events start with those of an element where one
starts. -/
theorem exists_element {ev : Event} (h : steps ⟨[], root⟩ (ev :: es) = .ok b)
    (hb : b.opened = []) (hev : ¬ ev.IsOutside) :
    ∃ inside c rest, Spells inside c ∧ ev :: es = inside ++ rest := by
  cases ev with
  | aside => exact absurd trivial hev
  | text piece => exact absurd trivial hev
  | closing => cases h
  | empty name attributes => exact ⟨[_], _, es, .empty name attributes, rfl⟩
  | opening name attributes =>
    obtain ⟨inside, children, pieces, rest, hinside, rfl⟩ := exists_content es h hb
    exact ⟨_, _, rest, .nested name attributes hinside, by simp⟩

theorem steps_outside (hout : ∀ ev ∈ es, ev.IsOutside) (root : Option Element)
    (rest : List Event) : steps ⟨[], root⟩ (es ++ rest) = steps ⟨[], root⟩ rest := by
  induction es with
  | nil => rfl
  | cons ev es ih =>
    obtain ⟨hev, hes⟩ := List.forall_mem_cons.1 hout
    cases ev with
    | aside => exact ih hes
    | text piece => exact ih hes
    | _ => exact hev.elim

/-- After the document's element nothing counts, if nothing is open in the end. -/
theorem outside_of_steps {r : Element} (h : steps ⟨[], some r⟩ es = .ok b) (hb : b.opened = []) :
    (∀ ev ∈ es, ev.IsOutside) ∧ b.root = some r := by
  induction es with
  | nil =>
    cases h
    exact ⟨by simp, rfl⟩
  | cons ev es ih =>
    by_cases hev : ev.IsOutside
    · have hstep := steps_outside (List.forall_mem_singleton.2 hev) (some r) es
      obtain ⟨hes, hr⟩ := ih (hstep.symm.trans h)
      exact ⟨List.forall_mem_cons.2 ⟨hev, hes⟩, hr⟩
    · obtain ⟨inside, c, rest, hc, heq⟩ := exists_element h hb hev
      rw [heq, steps_of_spells hc] at h
      cases h

/-- What stands before the document's element, its events, and what stands after it. -/
theorem spellsDocument_of_steps {t : Element} (h : steps ⟨[], none⟩ es = .ok b)
    (hb : b.opened = []) (ht : b.root = some t) : SpellsDocument es t := by
  induction es with
  | nil =>
    cases h
    cases ht
  | cons ev es ih =>
    by_cases hev : ev.IsOutside
    · have hstep := steps_outside (List.forall_mem_singleton.2 hev) none es
      obtain ⟨before, inside, after, rfl, hbefore, hinside, hafter⟩ := ih (hstep.symm.trans h)
      exact ⟨ev :: before, inside, after, rfl, List.forall_mem_cons.2 ⟨hev, hbefore⟩, hinside,
        hafter⟩
    · obtain ⟨inside, c, rest, hc, heq⟩ := exists_element h hb hev
      rw [heq, steps_of_spells hc] at h
      obtain ⟨hrest, hr⟩ := outside_of_steps h hb
      cases ht.symm.trans hr
      exact ⟨[], inside, rest, heq, by simp, hc, hrest⟩

end

end Building

/-! ## Documents -/

section
variable {es : List Event} {t : Element}

theorem build_of_spells (h : SpellsDocument es t) : build (es, none) = .ok t := by
  obtain ⟨before, inside, after, rfl, hbefore, hinside, hafter⟩ := h
  have hsteps : Building.start.steps (before ++ inside ++ after) = .ok ⟨[], some t⟩ := by
    rw [Building.start, List.append_assoc, Building.steps_outside hbefore,
      Building.steps_of_spells hinside, ← List.append_nil after]
    exact Building.steps_outside hafter (some t) []
  rw [build, hsteps]
  rfl

theorem spells_of_build (h : build (es, none) = .ok t) : SpellsDocument es t := by
  rw [build] at h
  cases hsteps : Building.start.steps es with
  | error f =>
    rw [hsteps] at h
    cases h
  | ok b =>
    rw [hsteps] at h
    obtain ⟨opened, root⟩ := b
    cases opened with
    | cons e opened => cases h
    | nil =>
      cases root with
      | none => cases h
      | some r =>
        cases h
        exact Building.spellsDocument_of_steps hsteps rfl rfl

theorem parse_ok_iff {s : String} :
    parse s = .ok t ↔ (events s).2 = none ∧ build ((events s).1, none) = .ok t := by
  rw [parse]
  obtain ⟨es, fault⟩ := events s
  cases fault with
  | none => simp
  | some f =>
    simp only [build, reduceCtorEq, false_and, iff_false]
    cases Building.start.steps es <;> simp

end

/-- The documents are the lists of events that spell one element, and what they spell is
what is built from them; any other list of events gives an error. So a text is read exactly
if its events come without fault and spell one element. -/
theorem parse_iff_spells :
    (∀ es t, build (es, none) = .ok t ↔ SpellsDocument es t) ∧
      (∀ es, (¬ ∃ t, SpellsDocument es t) ↔ ∃ f, build (es, none) = .error f) ∧
      ∀ s t, parse s = .ok t ↔ (events s).2 = none ∧ SpellsDocument (events s).1 t := by
  have hbuild (es : List Event) (t : Element) : build (es, none) = .ok t ↔ SpellsDocument es t :=
    ⟨spells_of_build, build_of_spells⟩
  refine ⟨hbuild, fun es => ?_, fun s t => by rw [parse_ok_iff, hbuild]⟩
  simp only [← hbuild]
  cases build (es, none) <;> simp

/-- Pieces of text are joined across children; outside of elements they do not count. -/
example : build ([.text "a", .opening "x" .empty, .text "p", .empty "y" .empty, .aside,
      .text "q", .closing, .text "b"], none) =
    .ok ⟨"x", .empty, [.bare "y"], some "pq"⟩ := by rfl

end TemplateInventory.Xml
