import TemplateInventory.Table
/-!
# Elements

An element is a node of a template: a name, attributes in the order in which
they were first set, children in order and perhaps a text. `Element.attributes`
is a `Table`, so no attribute occurs twice.

Elements are values, compared by `=`. `Element.agrees` is the coarser comparison
that does not look at the order of attributes.
-/

namespace TemplateInventory

/-- A node of a template with everything below it. -/
structure Element where
  name : String
  attributes : Table String String
  children : List Element
  text : Option String

namespace Element

/-- The element with nothing but a name. -/
def bare (name : String) : Element := ⟨name, .empty, [], none⟩

instance : Inhabited Element := ⟨bare ""⟩

/-! ## Equality -/

mutual

/-- Decides whether two elements are the same. -/
def decEq : (a b : Element) → Decidable (a = b)
  | ⟨n, as, cs, t⟩, ⟨n', as', cs', t'⟩ =>
    if hn : n = n' then
      if ha : as = as' then
        if ht : t = t' then
          match decEqList cs cs' with
          | isTrue hc => isTrue (by rw [hn, ha, ht, hc])
          | isFalse hc => isFalse fun h => hc (by injection h)
        else isFalse fun h => ht (by injection h)
      else isFalse fun h => ha (by injection h)
    else isFalse fun h => hn (by injection h)

/-- Decides whether two lists of elements are the same. -/
def decEqList : (as bs : List Element) → Decidable (as = bs)
  | [], [] => isTrue rfl
  | [], _ :: _ => isFalse (by simp)
  | _ :: _, [] => isFalse (by simp)
  | a :: as, b :: bs =>
    match decEq a b with
    | isTrue h =>
      match decEqList as bs with
      | isTrue h' => isTrue (by rw [h, h'])
      | isFalse h' => isFalse fun e => h' (by injection e)
    | isFalse h => isFalse fun e => h (by injection e)

end

instance : DecidableEq Element := decEq

/-! ## Attributes -/

/-- The value of an attribute. -/
def attr (e : Element) (name : String) : Option String := e.attributes.get? name

/-- Whether an attribute is there. -/
def hasAttr (e : Element) (name : String) : Bool := e.attributes.contains name

/-- The element with an attribute set; one that is there keeps its place. -/
def setAttr (e : Element) (name value : String) : Element :=
  { e with attributes := e.attributes.put name value }

/-- An attribute read as a truth value, with `default` for every text but `true`
and `false` in any case. -/
def boolAttr (e : Element) (name : String) (default : Bool) : Bool :=
  match e.attr name with
  | some v =>
    let v := v.toList.map Char.toLower
    if v = "true".toList then true else if v = "false".toList then false else default
  | none => default

/-- The name of the attribute that says what a derived element is based on. -/
def baseAttr : String := "base"

/-- The name of the attribute with the version of user data. -/
def versionAttr : String := "version"

/-- What a derived element is based on. -/
def base (e : Element) : Option String := e.attr baseAttr

/-- The values of the attributes `names`, missing ones as `none`. -/
def keyValues (e : Element) (names : List String) : List (Option String) := names.map e.attr

/-! ## Children -/

/-- The element with one more child at the end. -/
def push (e child : Element) : Element := { e with children := e.children ++ [child] }

/-- The children of one name. -/
def childrenNamed (e : Element) (name : String) : List Element :=
  e.children.filter (·.name = name)

/-- The element with its first child changed by `f`. -/
def mapFirstChild (e : Element) (f : Element → Element) : Option Element :=
  match e.children with
  | [] => none
  | c :: cs => some { e with children := f c :: cs }

/-! ## Agreement -/

mutual

/-- Whether two elements are the same up to the order of attributes. -/
def agrees : Element → Element → Bool
  | ⟨n, as, cs, t⟩, ⟨n', as', cs', t'⟩ =>
    n == n' && as.size == as'.size && as.entries.all (fun e => as'.get? e.1 == some e.2) &&
      t == t' && agreesList cs cs'

/-- Whether two lists of elements agree place by place. -/
def agreesList : List Element → List Element → Bool
  | [], [] => true
  | a :: as, b :: bs => agrees a b && agreesList as bs
  | _, _ => false

end

/-! ## What setting an attribute does -/

@[simp] theorem attr_setAttr (e : Element) (n n' v : String) :
    (e.setAttr n v).attr n' = if n = n' then some v else e.attr n' :=
  Table.get?_put e.attributes n n' v

@[simp] theorem name_setAttr (e : Element) (n v : String) : (e.setAttr n v).name = e.name := rfl

@[simp] theorem children_setAttr (e : Element) (n v : String) :
    (e.setAttr n v).children = e.children := rfl

@[simp] theorem text_setAttr (e : Element) (n v : String) : (e.setAttr n v).text = e.text := rfl

/-- A child is smaller than its parent, which recursion on elements uses. -/
theorem sizeOf_child {e c : Element} (h : c ∈ e.children) : sizeOf c < sizeOf e := by
  have h1 := List.sizeOf_lt_of_mem h
  cases e
  simp only [Element.mk.sizeOf_spec] at h1 ⊢
  omega

end Element

end TemplateInventory
