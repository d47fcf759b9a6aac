import TemplateInventory.Proofs.Queries
import TemplateInventory.Proofs.Reachable
/-!
# Steps for keys

The elements of a name with given key values are found in three ways: by the text of a
query (`Inventory.query`), by a step that is not written (`Inventory.matching`), and one by
one (`Store.findByKey`). All go by the same step, `Step.ofKey`, which leads to the elements
whose first key values are the given ones (`accepts_ofKey`), as many as there are on both
sides. So the three agree (`query_ofKey`).
-/

namespace TemplateInventory

section
variable {e : Element} {name : String} {attrs : List String} {values : List (Option String)}

/-- Whether an element has a name, and the given values for the first of some attributes, as
many as there are attributes and values. -/
def Element.StartsWith (e : Element) (name : String) (attrs : List String)
    (values : List (Option String)) : Prop :=
  let n := min attrs.length values.length
  e.name = name ∧ (e.keyValues attrs).take n = values.take n

instance (e : Element) (name : String) (attrs : List String) (values : List (Option String)) :
    Decidable (e.StartsWith name attrs values) := inferInstanceAs (Decidable (_ ∧ _))

theorem all_holds_ofValue (e : Element) (attrs : List String) (values : List (Option String)) :
    (List.zipWith Predicate.ofValue attrs values).all (·.holds e) = true ↔
      (e.keyValues attrs).take (min attrs.length values.length) =
        values.take (min attrs.length values.length) := by
  induction attrs generalizing values with
  | nil => simp [Element.keyValues]
  | cons attr attrs ih =>
    cases values with
    | nil => simp
    | cons value values =>
      simp only [Element.keyValues] at ih ⊢
      simp [Predicate.holds_ofValue, ih, Nat.succ_min_succ]

theorem accepts_ofKey (e : Element) (name : String) (attrs : List String)
    (values : List (Option String)) :
    (Step.ofKey name attrs values).accepts e = decide (e.StartsWith name attrs values) := by
  rw [Bool.eq_iff_iff, decide_eq_true_eq, Step.accepts, Bool.and_eq_true, Step.ofKey,
    all_holds_ofValue, beq_iff_eq, eq_comm]
  rfl

/-- Values beyond the attributes do not count. -/
theorem ofKey_take (name : String) (attrs : List String) (values : List (Option String)) :
    Step.ofKey name attrs (values.take attrs.length) = Step.ofKey name attrs values := by
  have htake : (List.zipWith Predicate.ofValue attrs values).take attrs.length =
      List.zipWith Predicate.ofValue attrs (values.take attrs.length) := by
    rw [List.take_zipWith, List.take_length]
  rw [Step.ofKey, Step.ofKey, ← htake,
    List.take_of_length_le (by rw [List.length_zipWith]; omega)]

theorem KeySchema.fit_eq_take (s : KeySchema) (name : String) (values : List (Option String)) :
    s.fit name values =
      (values ++ List.replicate ((s.attrsFor name).length - values.length) none).take
        (s.attrsFor name).length := by
  rw [List.take_append, List.take_of_length_le (Nat.le_of_eq (List.length_replicate ..))]
  rfl

theorem Store.findByKey_eq (s : Store) (schema : KeySchema) (name : String)
    (values : List (Option String)) :
    s.findByKey name (schema.attrsFor name) values =
      (s.allOf (.ofKey name (schema.attrsFor name) (schema.fit name values))).head? := by
  rw [schema.fit_eq_take, ofKey_take, Store.allOf, List.head?_filter]
  rfl

theorem Predicate.attr_ofValue (attr : String) (value : Option String) :
    (Predicate.ofValue attr value).attr = attr := by cases value <;> rfl

theorem attr_mem_of_mem_ofKey {p : Predicate} (hp : p ∈ (Step.ofKey name attrs values).predicates) :
    p.attr ∈ attrs := by
  rw [Step.ofKey, ← List.map_uncurry_zip_eq_zipWith, List.mem_map] at hp
  obtain ⟨⟨attr, value⟩, hmem, rfl⟩ := hp
  rw [Function.uncurry_apply_pair, Predicate.attr_ofValue]
  exact (List.of_mem_zip hmem).1

theorem wellNamed_ofKey (hn : Query.isName name = true)
    (ha : ∀ attr ∈ attrs, Query.isName attr = true) : (Step.ofKey name attrs values).WellNamed :=
  ⟨fun _ h => Option.some.inj h ▸ hn, fun _ hp => ha _ (attr_mem_of_mem_ofKey hp)⟩

end

/-! ## The three searches -/

theorem Query.text_single (s : Step) : (Query.mk s []).text = s.text := by
  rw [Query.text, Query.print, printSteps, List.append_nil, Step.text]

theorem Inventory.matching_eq_select (i : Inventory) (name : String)
    (values : List (Option String)) :
    i.matching name values =
      (Query.mk (.ofKey name (i.schema.attrsFor name) values) []).select i.elements := by
  rw [Inventory.matching, Store.allOf, Query.select, Inventory.elements, Store.elements,
    List.filter_map]
  rfl

/-- The text of a step for a key selects the elements that match the key values. They are
those of the name that have the given values for the first key attributes, each value as it
is written, and a missing value only where the attribute is missing. A store finds the
first of those that match the values cut or filled up to the key attributes. -/
theorem Inventory.query_ofKey (i : Inventory) (name : String) (values : List (Option String)) :
    let attrs := i.schema.attrsFor name
    (Query.isName name = true → (∀ attr ∈ attrs, Query.isName attr = true) →
      i.query (Step.ofKey name attrs values).text = .ok (i.matching name values)) ∧
    i.matching name values = i.elements.filter (·.StartsWith name attrs values) ∧
    (i.holdings.main.findByKey name attrs values).map Handle.element =
      (i.matching name (i.schema.fit name values)).head? := by
  refine ⟨fun hn ha => ?_, ?_, ?_⟩
  · have hnamed : (Query.mk (.ofKey name (i.schema.attrsFor name) values) []).WellNamed :=
      fun s hs => List.mem_singleton.1 hs ▸ wellNamed_ofKey hn ha
    rw [← Query.text_single, Inventory.query, Query.parse_text hnamed, i.matching_eq_select]
  · rw [i.matching_eq_select, Query.select]
    exact List.filter_congr fun e _ => accepts_ofKey e name _ values
  · rw [Store.findByKey_eq, Inventory.matching, List.head?_map]

/-- A view with attributes. -/
def Element.view (attributes : List (String × String)) : Element :=
  ⟨"view", .ofList attributes, [], none⟩

/-- Views of which one has an empty class, and two have none. -/
def Inventory.ofViews : Inventory :=
  let i := (Workspace.blank (.ofList [("view", ["class", "name"])])).inventory
  { i with holdings := { i.holdings with main :=
      ⟨[.fresh 0 (.view [("class", ""), ("name", "it's")]),
        .fresh 1 (.view [("name", "It's")]),
        .fresh 2 (.view [("name", "it's"), ("part", "1")])]⟩ } }

/-- The views without class are found by the first key value, and one of them by both. -/
theorem query_ofKey_ofViews :
    Inventory.ofViews.query "view[not(@class)]" =
        .ok [.view [("name", "It's")], .view [("name", "it's"), ("part", "1")]] ∧
      Inventory.ofViews.query "view[not(@class) and @name=\"it's\"]" =
        .ok [.view [("name", "it's"), ("part", "1")]] ∧
      (Inventory.ofViews.holdings.main.findByKey "view" ["class", "name"]
          [none, some "It's", some "more"]).map Handle.element =
        some (.view [("name", "It's")]) := by
  have hn : Query.isName "view" = true := by decide
  have ha : ∀ attr ∈ Inventory.ofViews.schema.attrsFor "view", Query.isName attr = true := by decide
  exact ⟨(Inventory.ofViews.query_ofKey "view" [none]).1 hn ha,
    (Inventory.ofViews.query_ofKey "view" [none, some "it's"]).1 hn ha,
    (Inventory.ofViews.query_ofKey "view" [none, some "It's", some "more"]).2.2⟩

end TemplateInventory
