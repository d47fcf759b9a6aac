import TemplateInventory.Element
/-!
# Selections

Which elements of a document belong to an inventory: the children of wrapper
elements that are nested in one fixed way. A selection is written
`/Outer/…/Inner/*`. `Selection.select` lists the elements, and
`Selection.replace` puts others in their place.
-/

namespace TemplateInventory

/-- A chain of wrapper names: the document's own element, and the wrappers
inside it, outermost first. -/
structure Selection where
  outer : String
  inner : List String
  deriving DecidableEq, Repr

/-- An element picked out of a document, with the number of the innermost
wrapper that holds it, in document order. -/
structure Selected where
  wrapper : Nat
  element : Element
  deriving DecidableEq

namespace Selection

/-! ## Written form -/

/-- Whether a wrapper can have this name. -/
def isWrapperName (name : List Char) : Bool := !name.isEmpty && !name.contains '*'

/-- The selection of a list of wrapper names that all are fit for one. -/
def ofNames (names : List (List Char)) : Option Selection :=
  match names with
  | [] => none
  | outer :: inner =>
    if names.all isWrapperName then some ⟨String.ofList outer, inner.map String.ofList⟩ else none

/-- Reads a selection: a slash, wrapper names with slashes between them, and
`/*` at the end. -/
def parse (path : String) : Option Selection :=
  match path.toList with
  | '/' :: rest =>
    match rest.reverse with
    | '*' :: '/' :: names => ofNames (names.reverse.splitOn '/')
    | _ => none
  | _ => none

/-- The wrapper names, outermost first. -/
def wrappers (s : Selection) : List String := s.outer :: s.inner

/-- The written form. -/
def text (s : Selection) : String := "/" ++ String.intercalate "/" s.wrappers ++ "/*"

/-! ## Reading documents -/

/-- The elements reached from `e` by following child names, in document order. -/
def innermostWrappers : List String → Element → List Element
  | [], e => [e]
  | name :: names, e => (e.childrenNamed name).flatMap (innermostWrappers names)

/-- The innermost wrappers of a document. -/
def wrappersOf (s : Selection) (document : Element) : List Element :=
  if document.name = s.outer then innermostWrappers s.inner document else []

/-- The children of every innermost wrapper, in document order. -/
def select (s : Selection) (document : Element) : List Selected :=
  (s.wrappersOf document).zipIdx.flatMap fun (wrapper, i) => wrapper.children.map (⟨i, ·⟩)

/-! ## Changing documents -/

/-- Gives the first nonempty innermost wrapper the children `new` and takes the
children of all others. The flag says whether `new` has found its place. -/
def replaceBelow (new : List Element) : List String → Bool → Element → Bool × Element
  | [], placed, e =>
    if e.children.isEmpty then (placed, e)
    else (true, { e with children := if placed then [] else new })
  | name :: names, placed, e =>
    let r := e.children.foldl
      (fun (acc : Bool × List Element) c =>
        if c.name = name then
          let r := replaceBelow new names acc.1 c
          (r.1, acc.2 ++ [r.2])
        else (acc.1, acc.2 ++ [c]))
      (placed, [])
    (r.1, { e with children := r.2 })

/-- Puts `new` where the first selected elements are and removes the others.
A document without selected elements stays as it is; the flag tells which. -/
def replace (s : Selection) (new : List Element) (document : Element) : Bool × Element :=
  if document.name = s.outer then replaceBelow new s.inner false document
  else (false, document)

/-- Wrappers nested in each other around nothing. -/
def nest (outer : String) : List String → Element
  | [] => .bare outer
  | name :: names => (Element.bare outer).push (nest name names)

/-- The document that holds only the wrappers. -/
def skeleton (s : Selection) : Element := nest s.outer s.inner

/-- Changes by `f` the wrapper at the end of the chain of first children, if
their names are the given ones. -/
def mapInnermostBelow (f : Element → Element) : List String → Element → Option Element
  | [], e => some (f e)
  | name :: names, e =>
    match e.children with
    | [] => none
    | c :: cs =>
      if c.name = name then
        (mapInnermostBelow f names c).map fun c' => { e with children := c' :: cs }
      else none

/-- Changes by `f` the innermost wrapper on the chain of first children; nothing
when the chain has other names. -/
def mapInnermost (s : Selection) (f : Element → Element) (document : Element) : Option Element :=
  if document.name = s.outer then mapInnermostBelow f s.inner document else none

/-- The element at the end of the chain of first children. -/
def innermostBelow : List String → Element → Option Element
  | [], e => some e
  | name :: names, e =>
    match e.children with
    | [] => none
    | c :: _ => if c.name = name then innermostBelow names c else none

/-- The innermost wrapper on the chain of first children, if the chain has the
names of the selection. -/
def innermost (s : Selection) (document : Element) : Option Element :=
  if document.name = s.outer then innermostBelow s.inner document else none

/-- The wrapper chain of a skeleton is its own. -/
theorem innermostBelow_nest (outer : String) (inner : List String) :
    innermostBelow inner (nest outer inner) = some (.bare ((outer :: inner).getLast (by simp))) := by
  induction inner generalizing outer with
  | nil => rfl
  | cons name names ih =>
    have hn : (nest name names).name = name := by cases names <;> rfl
    simp [nest, innermostBelow, Element.push, Element.bare, hn, ih]

theorem innermost_skeleton (s : Selection) : (s.innermost s.skeleton).isSome = true := by
  have hn : (nest s.outer s.inner).name = s.outer := by cases s.inner <;> rfl
  simp [innermost, skeleton, hn, innermostBelow_nest]

end Selection

end TemplateInventory
