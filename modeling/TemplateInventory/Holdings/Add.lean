import TemplateInventory.Holdings.Resolve
/-!
# Adding elements

An element without `base` takes the place of the one with its key. An element
whose `base` is its own identity is an override: it is unified with the element
of its key at once, and that element moves to the bases. Any other `base` makes
an alteration, which waits among the alterations until its key is asked for.

An add that fails has at most looked something up.
-/

namespace TemplateInventory

namespace Holdings

/-- What is remembered to have a key. -/
def remembered (h : Holdings) (k : ElementKey) : Option Handle := (h.cache.get k).found?

/-- Adds an element without `base`. -/
def addPlain (h : Holdings) (k : ElementKey) (node : Handle) : Holdings :=
  { h with main := h.main.replace (h.remembered k) node }.remember k (some node)

/-- Holds a derived element as it is. -/
def addAlteration (h : Holdings) (k : ElementKey) (node : Handle) : Holdings :=
  let k := k.inStore .alterations
  { h with alterations := h.alterations.replace (h.remembered k) node }.remember k (some node)

/-- Puts an override in the place of the element that it is based on. -/
def applyOverride (h : Holdings) (k : ElementKey) (node base : Handle) : Holdings :=
  let unified := Handle.unify h.schema h.nextSerial node base
  let h := { h with bases := h.bases.push base, nextSerial := h.nextSerial + 1 }
  let h := h.remember (k.inStore .bases) (some base)
  { h with main := h.main.replace (some base) unified }.remember k (some unified)

/-- Takes the element of a key away from those that are served. -/
def displace (h : Holdings) (k : ElementKey) : Holdings :=
  match h.remembered k with
  | some extant => { h with main := h.main.remove extant }.remember k none
  | none => h

/-- The element that an override of some key values takes the place of. -/
def overridden (h : Holdings) (name : String) (values : List (Option String)) :
    Option Handle × Holdings :=
  match h.remembered (.of name values .main) with
  | some extant => (some extant, h)
  | none => h.resolve [] name values

/-- Adds an override of `base`. -/
def addOverride (h : Holdings) (base : String) (node : Handle) :
    Except InventoryError Unit × Holdings :=
  let name := node.element.name
  let values := h.schema.valuesOf node.element
  let k := ElementKey.of name values .main
  match h.overridden name values with
  | (none, h) => (.error (.noBase base k), h)
  | (some extant, h) =>
    match h.remembered (k.inStore .bases) with
    | some _ => (.error (.overrideDepth base k), h)
    | none => (.ok (), (h.applyOverride k node extant).addAlteration k node)

/-- Adds an element. -/
def add (h : Holdings) (node : Handle) : Except InventoryError Unit × Holdings :=
  let k := ElementKey.of node.element.name (h.schema.valuesOf node.element) .main
  match node.element.base with
  | none => (.ok (), h.addPlain k node)
  | some base =>
    match h.schema.identityAttr node.element.name with
    | none => (.error (.baseWithoutKey node.element.name), h)
    | some attr =>
      match node.element.requiredAttr attr with
      | .error e => (.error e, h)
      | .ok identity =>
        if identity = base then h.addOverride base node
        else (.ok (), (h.displace k).addAlteration k node)

end Holdings

end TemplateInventory
