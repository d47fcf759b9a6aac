import TemplateInventory.Proofs.Reports
import TemplateInventory.Proofs.Rows
/-!
# Fetching what is listed

A listing names the elements of an inventory by their keys, and the words of a line fetch the
element of the line if its row is whole (`CommandSession.listed_fetched`). A later command
loads all inventories again and finds them as they were, since no command changes a file.
-/

namespace TemplateInventory

open Text

/-- What a listing shows: the elements of an inventory, or those that a query selects. -/
def Inventory.listed (i : Inventory) : Option String → Except InventoryError (List Element)
  | none => .ok i.elements
  | some query => i.query query

/-- What an inventory can list, and what its rows and keys depend on. -/
def Inventory.listingView (i : Inventory) : List Element × KeySchema × String :=
  (i.elements, i.schema, i.conventions.groupingElement)

namespace CommandSession
variable {c : CommandSession} {files files' : FileTree} {inventory : String}
  {query : Option String} {out : String}

theorem run_eq_of_toOption {command : Command}
    (h : (c.run files command).1.toOption = some out) : c.run files command = (.ok out, files) := by
  have hfiles := c.run_files files command
  rcases hrun : c.run files command with ⟨err | out', files'⟩
  all_goals rw [hrun] at h hfiles
  · cases h
  · cases h
    exact congrArg (Prod.mk _) hfiles

theorem run_list (h : c.run files (.list inventory query) = (.ok out, files')) :
    files' = files ∧ ∃ i listed, c.inventory? files inventory = some i ∧
      i.listed query = .ok listed ∧ out = i.listing listed := by
  obtain rfl : files' = files := by
    rw [← c.run_files files (.list inventory query), h]
  unfold run at h
  rcases hr : c.registry files' with ⟨err | r, files''⟩
  all_goals
    rw [hr] at h
    obtain ⟨hanswer, rfl⟩ := Prod.mk.inj h
  · cases hanswer
  cases hi : c.inventoryIn r inventory with
  | error err => cases query <;> simp [answer, hi, bind, Except.bind] at hanswer
  | ok i =>
    have hfound := inventory?_eq_some_iff.2 ⟨r, hr, hi⟩
    cases query with
    | none =>
      simp only [answer, hi, bind, Except.bind, pure, Except.pure, Except.ok.injEq] at hanswer
      exact ⟨rfl, i, _, hfound, rfl, hanswer.symm⟩
    | some query =>
      cases hq : i.query query with
      | error err => simp [answer, hi, hq, bind, Except.bind, Except.mapError] at hanswer
      | ok listed =>
        simp only [answer, hi, hq, bind, Except.bind, Except.mapError, pure, Except.pure,
          Except.ok.injEq] at hanswer
        exact ⟨rfl, i, listed, hfound, hq, hanswer.symm⟩

/-- Every element of an inventory that is listed has its row as a line, unless only blank rows
come after it: then the row is cut. A line whose row is whole fetches the element, and a row
that is cut does not, unless it ends after the name of an element without key attributes. -/
theorem listed_fetched (h : c.run files (.list inventory query) = (.ok out, files')) :
    files' = files ∧ ∃ i listed, c.inventory? files inventory = some i ∧
      i.listed query = .ok listed ∧
      ∀ before e after, listed = before ++ e :: after → e ∈ i.elements →
        e.name ≠ i.conventions.groupingElement → i.schema.PlainKey e →
        ∃ line name words, line = lineAfter (before.map i.schema.row) out ∧
          line = (if (after.map i.schema.row).all isBlankText = true
            then trimEnd (i.schema.row e) else i.schema.row e) ∧
          columns line = name :: words ∧
          (c.found? files inventory name words = some e ↔
            line = i.schema.row e ∨ i.schema.attrsFor e.name = [] ∧ line = e.name) ∧
          (line = i.schema.row e →
            c.run files (.get inventory name words) = (.ok e.report, files)) := by
  obtain ⟨rfl, i, listed, hi, hlisted, rfl⟩ := run_list h
  refine ⟨rfl, i, listed, hi, hlisted, ?_⟩
  rintro before e after rfl he hn hp
  have hread := isRead_of_inventory? hi
  have hu := hread.1 e he
  obtain ⟨line, hdef⟩ : ∃ line,
      line = lineAfter (before.map i.schema.row) (i.listing (before ++ e :: after)) := ⟨_, rfl⟩
  have hline : line = if (after.map i.schema.row).all isBlankText = true
      then trimEnd (i.schema.row e) else i.schema.row e := by
    rw [hdef, Inventory.listing, List.map_append, List.map_cons]
    exact lineAfter_joinLines (KeySchema.not_mem_row hu hp)
  obtain ⟨dropped, hcut, hd⟩ : ∃ dropped,
      line.toList ++ dropped = (i.schema.row e).toList ∧ dropped.all isBlank = true := by
    rw [hline]
    split
    · rw [trimEnd, String.toList_ofList]
      exact exists_dropEndWhile isBlank _
    · exact ⟨[], List.append_nil _, rfl⟩
  obtain ⟨name, words, hcolumns⟩ := List.exists_cons_of_ne_nil (columns_ne_nil line)
  have hfound : c.found? files' inventory name words = some e ↔
      line = i.schema.row e ∨ i.schema.attrsFor e.name = [] ∧ line = e.name := by
    rw [found?, hi, Option.bind_some, Option.map_eq_some_iff, hread.getElement_iff he hn]
    exact KeySchema.keyOf_eq_columns_iff hu hp hcut hd hcolumns
  exact ⟨line, name, words, hdef, hline, hcolumns, hfound,
    fun hwhole => run_get (hfound.2 (.inl hwhole))⟩

/-- The files of a workspace with parts that have the given values. -/
def partFiles (ids : List String) : FileTree :=
  .ofShipped ("<Inventory>" ++ String.join (ids.map ("<part id=\"" ++ · ++ "\"/>")) ++
    "</Inventory>")

/-- A value that ends with a space is fetched if its line is not the last one. -/
theorem listed_fetched_inFront :
    ∃ out, ofParts.run (partFiles ["a ", "b"]) (.list "parts" none) =
        (.ok out, partFiles ["a ", "b"]) ∧
      columns (lineAfter [] out) = ["part", "a "] ∧
      ofParts.run (partFiles ["a ", "b"]) (.get "parts" "part" ["a "]) =
        (.ok "<part id=\"a \"/>", partFiles ["a ", "b"]) := by
  have hview : (ofParts.inventory? (partFiles ["a ", "b"]) "parts").map Inventory.listingView =
      some ([.part [("id", "a ")], .part [("id", "b")]], .ofList [("part", ["id"])],
        "layoutType") := by decide +kernel
  have hrun : ofParts.run (partFiles ["a ", "b"]) (.list "parts" none) =
      (.ok "part\ta \npart\tb", partFiles ["a ", "b"]) := run_eq_of_toOption (by decide +kernel)
  obtain ⟨-, i, listed, hi, hlisted, hall⟩ := listed_fetched hrun
  rw [hi, Option.map_some, Option.some.injEq, Inventory.listingView, Prod.mk.injEq, Prod.mk.injEq] at hview
  obtain ⟨helements, hschema, hgrouping⟩ := hview
  obtain rfl : i.elements = listed := Except.ok.inj hlisted
  obtain ⟨line, name, words, hdef, hline, hcolumns, -, hget⟩ := hall [] (.part [("id", "a ")])
    [.part [("id", "b")]] helements (by simp [helements]) (by rw [hgrouping]; decide)
    (by rw [hschema]; decide)
  rw [hschema] at hdef hline hget
  obtain rfl : line = "part\ta " := hline.trans (by decide)
  have hwords : columns "part\ta " = ["part", "a "] := by decide
  obtain ⟨rfl, rfl⟩ := List.cons.inj (hwords.symm.trans hcolumns)
  have hreport : (Element.part [("id", "a ")]).report = "<part id=\"a \"/>" := by decide +kernel
  exact ⟨_, hrun, hdef ▸ hwords, by rw [hget (by decide), hreport]⟩

/-- Whether every line of a listing fetches its element, if the element has key attributes and
its key values can be told apart. -/
def FetchesAll (c : CommandSession) (files : FileTree) : Prop :=
  ∀ inventory i out, c.inventory? files inventory = some i →
    c.run files (.list inventory none) = (.ok out, files) →
    ∀ before e after, i.elements = before ++ e :: after →
      e.name ≠ i.conventions.groupingElement → i.schema.attrsFor e.name ≠ [] →
      i.schema.PlainKey e →
      ∀ name words, columns (lineAfter (before.map i.schema.row) out) = name :: words →
        c.run files (.get inventory name words) = (.ok e.report, files)

/-- A value that ends with a space is not fetched if its line is the last one. -/
theorem last_line_cut : ¬ ofParts.FetchesAll (partFiles ["a "]) := by
  intro hall
  have hview : (ofParts.inventory? (partFiles ["a "]) "parts").map Inventory.listingView =
      some ([.part [("id", "a ")]], .ofList [("part", ["id"])], "layoutType") := by decide +kernel
  obtain ⟨i, hi, hview⟩ := Option.map_eq_some_iff.1 hview
  rw [Inventory.listingView, Prod.mk.injEq, Prod.mk.injEq] at hview
  obtain ⟨helements, hschema, hgrouping⟩ := hview
  have hrun : ofParts.run (partFiles ["a "]) (.list "parts" none) =
      (.ok "part\ta", partFiles ["a "]) := run_eq_of_toOption (by decide +kernel)
  have hget := hall "parts" i _ hi hrun [] (.part [("id", "a ")]) [] helements
    (by rw [hgrouping]; decide) (by rw [hschema]; decide) (by rw [hschema]; decide) "part" ["a"]
    (by rw [hschema]; decide)
  have hnone : (ofParts.run (partFiles ["a "]) (.get "parts" "part" ["a"])).1.toOption = none := by
    decide +kernel
  rw [hget] at hnone
  cases hnone

end CommandSession

end TemplateInventory
