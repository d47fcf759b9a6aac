import TemplateInventory.Key
import TemplateInventory.Unify.Pairing
/-!
# Unification

The element that a derived element stands for. `unify alteration base` keeps the
attributes and the text of the alteration, takes over those that it lacks, and
pairs up the children of both sides: two children belong together when they have
the same name and the same key values. A pair is unified in turn; a child
without partner stays as it is.

Children come in the order of the base, followed by what only the alteration
has; an alteration with `reorder="true"` puts its own order first.
-/

namespace TemplateInventory

/-- The attribute by which an alteration asks for its own order of children. -/
def reorderAttr : String := "reorder"

/-- Whether the alteration puts its own order of children first. -/
def Element.reorders (e : Element) : Bool := e.boolAttr reorderAttr false

namespace KeySchema

/-- What children have in common that belong together. -/
def classOf (s : KeySchema) (e : Element) : String × List (Option String) := (e.name, s.valuesOf e)

end KeySchema

/-- The attributes of `own`, followed by those of `base` that it lacks. -/
def inheritAttributes (own base : Table String String) : Table String String :=
  base.entries.foldl (fun t e => if t.contains e.1 then t else t.put e.1 e.2) own

/-- A place in the list of unified children. -/
inductive Joined (α : Type) where
  | both (alteration base : α)
  | single (item : α)

/-- The places of unified children: the pairs of the leading side in its order,
then what is left of the other side. -/
def joinBy {α κ : Type} [DecidableEq κ] (key : α → κ) (reorders : Bool)
    (alteration base : List α) : List (Joined α) :=
  if reorders then
    let r := pairUp key alteration base
    (r.1.map fun (a, b?) => match b? with
      | some b => .both a b
      | none => .single a) ++ r.2.map .single
  else
    let r := pairUp key base alteration
    (r.1.map fun (b, a?) => match a? with
      | some a => .both a b
      | none => .single b) ++ r.2.map .single

/-- A pair has its parts from the two sides. -/
theorem mem_of_both_mem_joinBy {α κ : Type} [DecidableEq κ] {key : α → κ} {reorders : Bool}
    {as bs : List α} {a b : α} (h : .both a b ∈ joinBy key reorders as bs) : a ∈ as ∧ b ∈ bs := by
  cases reorders with
  | true =>
    simp only [joinBy, if_true, List.mem_append, List.mem_map, reduceCtorEq, and_false,
      exists_false, or_false] at h
    obtain ⟨⟨x, y?⟩, hm, he⟩ := h
    obtain ⟨hx, hy⟩ := mem_of_mem_pairUp key hm
    cases y? with
    | none => cases he
    | some y =>
      cases he
      exact ⟨hx, hy _ rfl⟩
  | false =>
    simp only [joinBy, Bool.false_eq_true, if_false, List.mem_append, List.mem_map, reduceCtorEq,
      and_false, exists_false, or_false] at h
    obtain ⟨⟨x, y?⟩, hm, he⟩ := h
    obtain ⟨hx, hy⟩ := mem_of_mem_pairUp key hm
    cases y? with
    | none => cases he
    | some y =>
      cases he
      exact ⟨hy _ rfl, hx⟩

/-- The element that the alteration of a base stands for. -/
def unify (s : KeySchema) (a b : Element) : Element :=
  { name := a.name
    attributes := inheritAttributes a.attributes b.attributes
    children :=
      (joinBy s.classOf a.reorders a.children b.children).attach.map fun
        | ⟨.both x y, _⟩ => unify s x y
        | ⟨.single x, _⟩ => x
    text := a.text <|> b.text }
termination_by sizeOf a
decreasing_by exact Element.sizeOf_child (mem_of_both_mem_joinBy (by assumption)).1

/-- What stands at one place of the unified children. -/
def unifyJoined (s : KeySchema) : Joined Element → Element
  | .both a b => unify s a b
  | .single e => e

/-- The unified children of an alteration and a base. -/
def unifyChildren (s : KeySchema) (a b : Element) : List Element :=
  (joinBy s.classOf a.reorders a.children b.children).map (unifyJoined s)

/-- The base with the unified children in the place of its own. -/
def unifyInto (s : KeySchema) (base alteration : Element) : Element :=
  { base with children := unifyChildren s alteration base }

/-- The unification of two sides that may be missing: a lone side is the result. -/
def unifyOptions (s : KeySchema) (alteration base : Option Element) : Option Element :=
  match alteration, base with
  | some a, some b => some (unify s a b)
  | some a, none => some a
  | none, b? => b?

theorem unify_eq (s : KeySchema) (a b : Element) :
    unify s a b =
      ⟨a.name, inheritAttributes a.attributes b.attributes, unifyChildren s a b,
        a.text <|> b.text⟩ := by
  rw [unify]
  congr 1
  rw [unifyChildren, ← List.attach_map_val (l := joinBy _ _ _ _)]
  refine List.map_congr_left fun p _ => ?_
  match p with
  | ⟨.both x y, _⟩ => simp [unifyJoined]
  | ⟨.single x, _⟩ => simp [unifyJoined]

end TemplateInventory
