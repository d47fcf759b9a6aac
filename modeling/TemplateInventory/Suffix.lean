/-!
# Suffixes of copied elements

A copy of an element has the name of the element that it copies, its stem, with a
suffix. The suffix starts with a marker, which cannot be the first character of
the name. Of several markers the first one in the order of `markers` that occurs
counts, `splitAtMarker` at its first place.
-/

namespace TemplateInventory

/-- The marker of a copied layout, a named view. -/
def layoutCopyMarker : Char := '\x23'

/-- The marker of a copied node. -/
def nodeCopyMarker : Char := '%'

/-- Cuts a text before the first `marker` after its first character. -/
def splitAtMarker (marker : Char) : List Char → Option (List Char × List Char)
  | [] => none
  | c :: cs =>
    match cs.dropWhile (· != marker) with
    | [] => none
    | suffix => some (c :: cs.takeWhile (· != marker), suffix)

/-- The rule by which the suffix of a copy is told from its stem. -/
structure SuffixRule where
  /-- The attribute that has the suffix. -/
  attr : String
  /-- The markers in the order in which they count. -/
  markers : List Char
  deriving DecidableEq, Repr

namespace SuffixRule

/-- The markers of copied layouts and nodes, and two that users write. -/
def usualMarkers : List Char := [layoutCopyMarker, nodeCopyMarker, '_', '-']

/-- The rule with the usual markers for an attribute. -/
def ofAttr (attr : String) : SuffixRule := ⟨attr, usualMarkers⟩

/-- The usual rule, for the attribute `name`. -/
def usual : SuffixRule := ofAttr "name"

/-- A value as the stem and the suffix. -/
def splitValue (r : SuffixRule) (value : String) : Option (String × String) :=
  (r.markers.findSome? (splitAtMarker · value.toList)).map fun (stem, suffix) =>
    (String.ofList stem, String.ofList suffix)

/-- The suffix of key values, and the values with the stem in its place. -/
def split (r : SuffixRule) (attrs : List String) (values : List (Option String)) :
    Option (String × List (Option String)) :=
  match attrs.findIdx? (· == r.attr) with
  | none => none
  | some i =>
    match values[i]? with
    | some (some value) =>
      (r.splitValue value).map fun (stem, suffix) => (suffix, values.set i (some stem))
    | _ => none

end SuffixRule

end TemplateInventory
