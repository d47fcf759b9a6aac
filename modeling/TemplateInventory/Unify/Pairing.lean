/-!
# Pairing by key

Two lists are paired up by a key: each item of the leading list takes the first
item of the pool that has its key and is still there. `pairUp` gives the leading
items with their partners, and what is left of the pool.
-/

namespace TemplateInventory

section
variable {α κ : Type} [DecidableEq κ] (key : α → κ)

/-- Takes the first item with a key out of a list. -/
def takeFirst (k : κ) : List α → Option (α × List α)
  | [] => none
  | y :: ys =>
    if key y = k then some (y, ys)
    else (takeFirst k ys).map fun r => (r.1, y :: r.2)

/-- The leading items with their partners, and the items without one. -/
def pairUp : List α → List α → List (α × Option α) × List α
  | [], pool => ([], pool)
  | x :: xs, pool =>
    match takeFirst key (key x) pool with
    | none =>
      let r := pairUp xs pool
      ((x, none) :: r.1, r.2)
    | some (y, pool') =>
      let r := pairUp xs pool'
      ((x, some y) :: r.1, r.2)

theorem mem_of_takeFirst {k : κ} {ys rest : List α} {y : α}
    (h : takeFirst key k ys = some (y, rest)) : y ∈ ys ∧ ∀ z ∈ rest, z ∈ ys := by
  induction ys generalizing rest with
  | nil => simp [takeFirst] at h
  | cons z zs ih =>
    rw [takeFirst] at h
    split at h
    · cases h
      exact ⟨List.mem_cons_self, fun _ => List.mem_cons_of_mem _⟩
    · obtain ⟨r, hr, he⟩ := Option.map_eq_some_iff.1 h
      cases he
      obtain ⟨hy, hrest⟩ := ih hr
      refine ⟨List.mem_cons_of_mem _ hy, fun w hw => ?_⟩
      rcases List.mem_cons.1 hw with rfl | hw
      · exact List.mem_cons_self
      · exact List.mem_cons_of_mem _ (hrest w hw)

theorem key_of_takeFirst {k : κ} {ys rest : List α} {y : α}
    (h : takeFirst key k ys = some (y, rest)) : key y = k := by
  induction ys generalizing rest with
  | nil => simp [takeFirst] at h
  | cons z zs ih =>
    rw [takeFirst] at h
    split at h
    · next hk => cases h; exact hk
    · obtain ⟨r, hr, he⟩ := Option.map_eq_some_iff.1 h
      cases he
      exact ih hr

/-- Every pair has its first part from the leading list and its second from the
pool. -/
theorem mem_of_mem_pairUp {xs ys : List α} {x : α} {y? : Option α}
    (h : (x, y?) ∈ (pairUp key xs ys).1) : x ∈ xs ∧ ∀ y ∈ y?, y ∈ ys := by
  induction xs generalizing ys with
  | nil => simp [pairUp] at h
  | cons z zs ih =>
    rw [pairUp] at h
    split at h
    · rcases List.mem_cons.1 h with he | h
      · cases he
        exact ⟨List.mem_cons_self, by simp⟩
      · exact ⟨List.mem_cons_of_mem _ (ih h).1, (ih h).2⟩
    · next y pool ht =>
      obtain ⟨hy, hpool⟩ := mem_of_takeFirst key ht
      rcases List.mem_cons.1 h with he | h
      · cases he
        exact ⟨List.mem_cons_self, by simpa using hy⟩
      · exact ⟨List.mem_cons_of_mem _ (ih h).1, fun w hw => hpool w ((ih h).2 w hw)⟩

end

end TemplateInventory
