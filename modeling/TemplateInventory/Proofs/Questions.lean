import TemplateInventory.Proofs.Groupings
/-!
# Questions asked again

A lookup changes what it looks at: it resolves derived elements, which join the
elements that are served, and it fills the memory. But it never writes over an answer
that was given, not even over one that nothing has the key. So a question that was
answered once has the same answer after any other questions (`answer_stays`), and then
takes it from the memory alone.
-/

namespace TemplateInventory

open Holdings

/-- A question for what is loaded. -/
inductive Question where
  | element (name : String) (values : List (Option String))
  | alteration (name : String) (values : List (Option String))
  | base (name : String) (values : List (Option String))
  /-- For the elements that a query selects. -/
  | query (path : String)
  /-- For the elements of a name whose first key values are the given ones. -/
  | matching (name : String) (values : List (Option String))
  | unified (base alteration : Handle)

/-- The inventory after it was asked; queries and partial keys are answered from what
is served, and leave nothing behind. -/
def Inventory.asked (i : Inventory) : Question → Inventory
  | .element name values => (i.getElement name values).2
  | .alteration name values => (i.getAlteration name values).2
  | .base name values => (i.getBase name values).2
  | .query _ => i
  | .matching _ _ => i
  | .unified base alteration => (i.unified base alteration).2

/-- The key that a lookup for a name and values asks for. -/
def KeySchema.keyAt (s : KeySchema) (name : String) (values : List (Option String)) : ElementKey :=
  .of name (s.fit name values) .main

/-- Values that differ in the case of their letters ask for one key. -/
theorem KeySchema.keyAt_of_lowercase (s : KeySchema) (name : String)
    {values values' : List (Option String)}
    (h : values'.map (·.map Text.lowercase) = values.map (·.map Text.lowercase)) :
    s.keyAt name values' = s.keyAt name values := by
  have hl : values'.length = values.length := by simpa using congrArg List.length h
  simp only [keyAt, ElementKey.of, fit, List.map_append, List.map_take, h, hl]

section
variable {h : Holdings} {i : Inventory} {name : String} {values : List (Option String)}
  {k : ElementKey} {o : Option Handle}

theorem Holdings.Answered.getBase (ha : h.Answered k o) (hs : k.store = .main) (name : String)
    (values : List (Option String)) : (h.getBase name values).2.Answered k o :=
  h.getBase_lookups (motive := (Answered · k o)) name values (ha.findIn .alterations name _)
    (fun _ ha' => ha'.findIn .bases name _) fun _ ha' => ha'.resolve hs [] name _

/-- An answer that is in the memory is given again, and only that is counted. -/
theorem Holdings.Answered.resolve_again (ha : h.Answered (.of name values .main) o) :
    ∃ n, h.resolve [] name values = (o, { h with hits := n }) := by
  cases o with
  | some x =>
    have hf : h.findIn .main name values = (some x, h.countHit) := findIn_of_found ha
    exact ⟨h.hits + 1, by rw [resolve_found (congrArg Prod.fst hf), hf]; rfl⟩
  | none =>
    -- A miss has looked for a derived element too, and remembers that there is none.
    have hm : h.findIn .main name values = (none, h.countHit) := findIn_of_miss ha.1
    have hx : h.countHit.findIn .alterations name values = (none, h.countHit.countHit) :=
      findIn_of_miss ha.2
    refine ⟨h.hits + 1 + 1, ?_⟩
    rw [resolve_missing ha.findIn_none.1 List.not_mem_nil ha.findIn_none.2, Holdings.afterFind, hm, hx]
    rfl

namespace Inventory

theorem answered_asked (ha : i.holdings.Answered k o) (hs : k.store = .main) (q : Question) :
    (i.asked q).holdings.Answered k o := by
  cases q with
  | element name values => exact ha.resolve hs [] name _
  | alteration name values => exact ha.findIn .alterations name _
  | base name values => exact ha.getBase hs name values
  | query path => exact ha
  | matching name values => exact ha
  | unified base alteration => exact ha.congr rfl rfl

theorem schema_asked (i : Inventory) (q : Question) : (i.asked q).schema = i.schema := by
  cases q with
  | element name values => exact schema_resolve i.holdings [] name _
  | alteration name values => exact schema_findIn i.holdings .alterations name _
  | base name values =>
    exact (leads_getBase (g := i.conventions.groupingElement) i.holdings name values).schema
  | query path => rfl
  | matching name values => rfl
  | unified base alteration => rfl

/-- Questions leave an answer in the memory, and the keys as they are. -/
theorem answered_foldl_asked (ha : i.holdings.Answered k o) (hs : k.store = .main)
    (questions : List Question) :
    (questions.foldl asked i).holdings.Answered k o ∧
      (questions.foldl asked i).schema = i.schema := by
  induction questions generalizing i with
  | nil => exact ⟨ha, rfl⟩
  | cons q rest ih =>
    obtain ⟨hrest, hkeys⟩ := ih (answered_asked ha hs q)
    exact ⟨hrest, hkeys.trans (schema_asked i q)⟩

end Inventory

end

/-- Once a lookup was answered, be it by an element or by none, a lookup of the same
key has the same answer after any questions. It changes no store and searches none. -/
theorem answer_stays (i : Inventory) (name : String) {values values' : List (Option String)}
    (questions : List Question) (hk : i.schema.keyAt name values' = i.schema.keyAt name values) :
    let first := i.getElement name values
    let later := questions.foldl Inventory.asked first.2
    let again := later.getElement name values'
    again.1 = first.1 ∧ (∀ s, again.2.holdings.store s = later.holdings.store s) ∧
      again.2.holdings.searches = later.holdings.searches := by
  intro first later again
  have hfirst : first.2.holdings.Answered (i.schema.keyAt name values) first.1 :=
    answered_resolve i.holdings name (i.schema.fit name values)
  have hkeys : first.2.schema = i.schema := schema_resolve i.holdings [] name _
  obtain ⟨hlater, hsame⟩ := Inventory.answered_foldl_asked hfirst rfl questions
  rw [← hk] at hlater
  have hfit : later.schema.fit name values' = i.schema.fit name values' := by
    rw [show later.schema = i.schema from hsame.trans hkeys]
  obtain ⟨n, hn⟩ := hlater.resolve_again
  have hagain : again = (first.1, { later with holdings := { later.holdings with hits := n } }) := by
    have hget : later.holdings.getElement name values' = (first.1, { later.holdings with hits := n }) := by
      rw [Holdings.getElement, show later.holdings.schema.fit name values' = _ from hfit, hn]
    change later.onHoldings (·.getElement name values') = _
    rw [Inventory.onHoldings, hget]
  rw [hagain]
  exact ⟨rfl, fun s => by cases s <;> rfl, rfl⟩

/-- The questions between two for the part that is derived, and the letters in which it
is asked for. -/
def partQuestions : List Question :=
  [.base "part" [some "short"], .element "part" [some "normal"], .element "part" [some "lost"],
    .query "part", .unified (.fresh 2 redPart) (.fresh 3 shortPart)]

theorem keyAt_capitals : Workspace.ofParts.inventory.schema.keyAt "part" [some "SHORT"] =
    Workspace.ofParts.inventory.schema.keyAt "part" [some "short"] :=
  KeySchema.keyAt_of_lowercase _ "part" (by decide)

/-- The derived part is the same under capitals, after its base and a part that is not
there were asked for. -/
theorem answer_stays_shortPart :
    let first := Workspace.ofParts.inventory.getElement "part" [some "short"]
    let later := partQuestions.foldl Inventory.asked first.2
    let again := later.getElement "part" [some "SHORT"]
    Reachable .ofParts ∧ again.1 = first.1 ∧
      (∀ s, again.2.holdings.store s = later.holdings.store s) ∧
      again.2.holdings.searches = later.holdings.searches :=
  ⟨reachable_ofParts, answer_stays Workspace.ofParts.inventory "part" partQuestions keyAt_capitals⟩

end TemplateInventory
