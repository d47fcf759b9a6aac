import TemplateInventory.Handle
/-!
# Properties of whole elements

`e.Everywhere P` says that `P` holds of an element and of everything below it. A
property of an element and its children follows the tree by `everywhere_iff`; a
proof about all elements follows it by `Element.induction`.
-/

namespace TemplateInventory

namespace Element

/-- What holds of every element whose children it holds of, holds of all elements. -/
theorem induction {P : Element → Prop} (node : ∀ e, (∀ c ∈ e.children, P c) → P e)
    (e : Element) : P e :=
  node e fun c _ => induction node c
termination_by sizeOf e
decreasing_by exact sizeOf_child (by assumption)

/-- Whether `P` holds of an element and of everything below it. -/
def Everywhere (P : Element → Prop) (e : Element) : Prop :=
  ∀ place x, e.at? place = some x → P x

variable {P Q : Element → Prop} {e : Element}

theorem everywhere_iff : e.Everywhere P ↔ P e ∧ ∀ c ∈ e.children, c.Everywhere P := by
  constructor
  · intro h
    refine ⟨h [] e rfl, fun c hc place x hx => ?_⟩
    obtain ⟨i, hi⟩ := List.mem_iff_getElem?.1 hc
    exact h (i :: place) x (by rw [at?, hi]; exact hx)
  · rintro ⟨he, hcs⟩ place x hx
    cases place with
    | nil =>
      cases hx
      exact he
    | cons i place =>
      rw [at?] at hx
      cases hi : e.children[i]? with
      | none => simp [hi] at hx
      | some c => exact hcs c (List.mem_of_getElem? hi) place x (by simpa [hi] using hx)

@[simp] theorem everywhere_mk {name : String} {attributes : Table String String}
    {children : List Element} {text : Option String} :
    Everywhere P ⟨name, attributes, children, text⟩ ↔
      P ⟨name, attributes, children, text⟩ ∧ ∀ c ∈ children, c.Everywhere P :=
  everywhere_iff

theorem Everywhere.self (h : e.Everywhere P) : P e := (everywhere_iff.1 h).1

theorem Everywhere.child (h : e.Everywhere P) {c : Element} (hc : c ∈ e.children) :
    c.Everywhere P :=
  (everywhere_iff.1 h).2 c hc

theorem Everywhere.mono (h : e.Everywhere P) (hPQ : ∀ x, P x → Q x) : e.Everywhere Q :=
  fun place x hx => hPQ x (h place x hx)

end Element

end TemplateInventory
