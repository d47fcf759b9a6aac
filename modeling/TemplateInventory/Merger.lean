import TemplateInventory.Error
/-!
# Mergers

A merger brings an element of an old version up to date. It is given the current
element, the outdated one, the elements among which the result will be, and the
suffix by which the outdated element's key differs from that of the current one.
-/

namespace TemplateInventory

/-- How outdated elements are merged with current ones. -/
abbrev Merger :=
  (current outdated : Element) → (destination : List Element) → (suffix : String) →
    Except InventoryError Element

namespace Merger

/-- The merger that sets the outdated attributes over the current ones and notes
in `merged` the suffix and how many elements there are. -/
def overlay : Merger := fun current outdated destination suffix =>
  let merged := outdated.attributes.entries.foldl (fun e a => e.setAttr a.1 a.2) current
  .ok (merged.setAttr "merged" (suffix ++ ":" ++ toString destination.length))

/-- The merger that refuses to merge. -/
def refusing : Merger := fun _ _ _ suffix =>
  .error (.xml (.reported ("merge refused: " ++ suffix)))

end Merger

end TemplateInventory
