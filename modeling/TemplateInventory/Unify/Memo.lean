import TemplateInventory.Handle
/-!
# Remembered unifications

Unifying the same two things again gives the same thing again. What counts is
which things they are, not what is in them.
-/

namespace TemplateInventory

/-- The results of unifications by the identities of base and alteration. -/
structure UnifyMemo where
  entries : Table (NodeId × NodeId) Handle

namespace UnifyMemo

/-- Nothing is remembered. -/
def empty : UnifyMemo := ⟨.empty⟩

/-- How many results are remembered. -/
def size (m : UnifyMemo) : Nat := m.entries.size

/-- The base with the unified children: the remembered result, or a new one made
under the number `serial`. -/
def unifyInto (m : UnifyMemo) (s : KeySchema) (serial : Nat) (base alteration : Handle) :
    Handle × UnifyMemo :=
  match m.entries.get? (base.id, alteration.id) with
  | some h => (h, m)
  | none =>
    let h := Handle.unifyInto s serial base alteration
    (h, ⟨m.entries.put (base.id, alteration.id) h⟩)

/-- What was just unified is remembered. -/
theorem unifyInto_again (m : UnifyMemo) (s : KeySchema) (n n' : Nat) (b a : Handle) :
    ((m.unifyInto s n b a).2.unifyInto s n' b a) = m.unifyInto s n b a := by
  unfold unifyInto
  cases h : m.entries.get? (b.id, a.id) with
  | some r => simp [h]
  | none => simp

end UnifyMemo

end TemplateInventory
