/-!
# Distinct items

The items of a list without repetitions. How many distinct items lie outside of
another list is what shrinks when that list grows by one of them,
`length_outside_lt`.
-/

namespace TemplateInventory

section
variable {α : Type} [DecidableEq α]

/-- The items of a list, each once. -/
def distinctItems : List α → List α
  | [] => []
  | a :: as => if a ∈ distinctItems as then distinctItems as else a :: distinctItems as

theorem mem_distinctItems {a : α} {as : List α} : a ∈ distinctItems as ↔ a ∈ as := by
  induction as with
  | nil => simp [distinctItems]
  | cons b bs ih =>
    rw [distinctItems]
    split
    · next hb => rw [ih, List.mem_cons, or_iff_right_of_imp (fun h => h ▸ ih.1 (h ▸ hb))]
    · rw [List.mem_cons, List.mem_cons, ih]

theorem nodup_distinctItems (as : List α) : (distinctItems as).Nodup := by
  induction as with
  | nil => exact List.nodup_nil
  | cons a as ih =>
    rw [distinctItems]
    split
    · exact ih
    · next ha => exact List.nodup_cons.2 ⟨ha, ih⟩

theorem length_le_of_nodup_of_subset {as bs : List α} (hn : as.Nodup) (hs : ∀ x ∈ as, x ∈ bs) :
    as.length ≤ bs.length := by
  induction as generalizing bs with
  | nil => exact Nat.zero_le _
  | cons a as ih =>
    rw [List.nodup_cons] at hn
    have ha : a ∈ bs := hs a List.mem_cons_self
    have hle := @ih (bs.erase a) hn.2 fun x hx =>
      (List.mem_erase_of_ne (a := x) (b := a) (fun he => hn.1 (he ▸ hx))).2
        (hs x (List.mem_cons_of_mem _ hx))
    have hlen := List.length_erase_of_mem ha
    have hpos := List.length_pos_of_mem ha
    simp only [List.length_cons]
    omega

/-- The distinct items of a list that are not in `taken`. -/
def itemsOutside (taken as : List α) : List α := (distinctItems as).filter (· ∉ taken)

theorem mem_itemsOutside {a : α} {taken as : List α} :
    a ∈ itemsOutside taken as ↔ a ∈ as ∧ a ∉ taken := by
  simp [itemsOutside, mem_distinctItems]

/-- Taking one more item leaves fewer outside, even of fewer items. -/
theorem length_outside_lt {taken as bs : List α} {a : α} (hs : ∀ x ∈ bs, x ∈ as) (ha : a ∈ as)
    (hout : a ∉ taken) : (itemsOutside (a :: taken) bs).length < (itemsOutside taken as).length := by
  have hn : (a :: itemsOutside (a :: taken) bs).Nodup := by
    refine List.nodup_cons.2 ⟨?_, (nodup_distinctItems bs).filter _⟩
    simp [mem_itemsOutside]
  refine length_le_of_nodup_of_subset hn fun x hx => ?_
  rw [mem_itemsOutside]
  rcases List.mem_cons.1 hx with rfl | hx
  · exact ⟨ha, hout⟩
  · rw [mem_itemsOutside] at hx
    exact ⟨hs x hx.1, fun h => hx.2 (List.mem_cons_of_mem _ h)⟩

end

end TemplateInventory
