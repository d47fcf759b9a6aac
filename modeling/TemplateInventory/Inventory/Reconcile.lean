import TemplateInventory.Inventory.Basic
import TemplateInventory.Text.Blank
import TemplateInventory.Text.Numeral
import TemplateInventory.Xml.Printer
/-!
# Reconciling versions

What becomes of the elements that a document brings. An element of the expected
version stays, as does a derived one. An outdated element is merged with the
current element of its key, or of the key that it is a copy of; an outdated
grouping element only gets the new version. Without a merger, and where there is
nothing to merge with, outdated elements are dropped. An element that is written
like an earlier one of the same document does not count.
-/

namespace TemplateInventory

/-- What becomes of an element. -/
inductive Verdict where
  | kept (h : Handle)
  | restamped (h : Handle)
  | merged (h : Handle)
  | dropped

/-- What a document's elements have become. -/
structure Reconciled where
  survivors : List Handle
  /-- Whether any of them is not as it was written. -/
  changed : Bool

/-- The selected elements without those that are written like an earlier one. -/
def firstOfEachForm (seen : List (List Char)) : List Selected → List Selected
  | [] => []
  | s :: rest =>
    let form := Xml.compact s.element
    if form ∈ seen then firstOfEachForm seen rest else s :: firstOfEachForm (form :: seen) rest

/-- The version that an element has, or `default` if it has none. -/
def Element.version (e : Element) (default : Int) : Except InventoryError Int :=
  match e.attr Element.versionAttr with
  | none => .ok default
  | some raw =>
    match Text.read32 (Text.trim raw) with
    | some v => .ok v
    | none => .error (.invalidVersion raw)

/-- The version that counts for an element. An element of user data without one
has the version of the first element of its wrapper that has one. -/
def effectiveVersion (all : List Selected) (expected : Int) (isUser : Bool) (s : Selected) :
    Except InventoryError Int :=
  match s.element.version (if isUser then 0 else expected) with
  | .error e => .error e
  | .ok v =>
    if v = 0 ∧ isUser = true then
      match all.find? fun t => t.wrapper == s.wrapper && t.element.hasAttr Element.versionAttr with
      | some sibling => sibling.element.version 0
      | none => .ok v
    else .ok v

namespace Inventory

/-- The current element that an outdated one belongs to, and the suffix by which
their keys differ. -/
def counterpart (i : Inventory) (e : Element) : Option (Handle × String) × Inventory :=
  let values := i.schema.valuesOf e
  match i.onHoldings (·.findIn .main e.name values) with
  | (some current, i) => (some (current, ""), i)
  | (none, i) =>
    match i.suffixRule.split (i.schema.attrsFor e.name) values with
    | none => (none, i)
    | some (suffix, standard) =>
      match i.onHoldings (·.findIn .main e.name standard) with
      | (some current, i) => (some (current, suffix), i)
      | (none, i) => (none, i)

/-- Merges an outdated element. In user data the result carries the expected
version. -/
def mergeOutdated (i : Inventory) (merger : Merger) (expected : Int) (isUser : Bool)
    (e : Element) : Except InventoryError Verdict × Inventory :=
  match i.counterpart e with
  | (none, i) => (.ok .dropped, i)
  | (some (current, suffix), i) =>
    match merger current.element e i.elements suffix with
    | .error err => (.error err, i)
    | .ok upgraded =>
      let upgraded :=
        if isUser then upgraded.setAttr Element.versionAttr (toString expected) else upgraded
      let h := current.revise i.holdings.nextSerial upgraded
      let (_, i) := i.mint upgraded
      (.ok (.merged h), { i with merges := i.merges + 1 })

/-- Decides what becomes of an element. -/
def judge (i : Inventory) (all : List Selected) (expected : Int) (isUser : Bool)
    (s : Selected) : Except InventoryError Verdict × Inventory :=
  match effectiveVersion all expected isUser s with
  | .error e => (.error e, i)
  | .ok v =>
    if v = expected ∨ s.element.base.isSome = true then
      let (h, i) := i.mint s.element
      (.ok (.kept h), i)
    else
      match i.merger with
      | none => (.ok .dropped, i)
      | some merger =>
        if s.element.name = i.conventions.groupingElement then
          let (h, i) := i.mint (s.element.setAttr Element.versionAttr (toString expected))
          (.ok (.restamped h), i)
        else i.mergeOutdated merger expected isUser s.element

/-- Decides about elements one after the other, up to the first fault. -/
def judgeAll (i : Inventory) (all : List Selected) (expected : Int) (isUser : Bool)
    (r : Reconciled) : List Selected → Except InventoryError Reconciled × Inventory
  | [] => (.ok r, i)
  | s :: rest =>
    match i.judge all expected isUser s with
    | (.error e, i) => (.error e, i)
    | (.ok verdict, i) =>
      let r := match verdict with
        | .kept h => { r with survivors := r.survivors ++ [h] }
        | .restamped h | .merged h => ⟨r.survivors ++ [h], true⟩
        | .dropped => r
      i.judgeAll all expected isUser r rest

/-- What becomes of the elements that are selected in a document. -/
def reconcile (i : Inventory) (selected : List Selected) (expected : Int) (isUser : Bool) :
    Except InventoryError Reconciled × Inventory :=
  i.judgeAll selected expected isUser ⟨[], false⟩ (firstOfEachForm [] selected)

end Inventory

end TemplateInventory
