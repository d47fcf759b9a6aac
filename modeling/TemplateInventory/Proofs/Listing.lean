import TemplateInventory.Store
/-!
# Stores as tables

A store holds its elements in a list and finds them by identity. Here it is read
as the entries of a table: `keyed p key l` pairs the items of `l` that meet `p`
with their keys. Replacing and removing an item are then `putEntry` and
`eraseEntry` at its key (`Store.keyed_replace`, `Store.keyed_remove`), provided
that the identity picks out exactly the item with that key. Items that do not
meet `p` leave the entries alone.
-/

namespace TemplateInventory

/-! ## Entries of tables -/

section Entries
variable {κ α : Type} [DecidableEq κ]

theorem findEntry_eq_some_iff {k : κ} {v : α} {es : List (κ × α)} (hn : (es.map Prod.fst).Nodup) :
    findEntry k es = some v ↔ (k, v) ∈ es := by
  induction es with
  | nil => simp [findEntry]
  | cons e es ih =>
    simp only [List.map_cons, List.nodup_cons, List.mem_map, not_exists, not_and] at hn
    rw [findEntry, List.mem_cons]
    split
    · next hk =>
      subst hk
      constructor
      · intro h
        cases h
        exact .inl rfl
      · rintro (h | h)
        · rw [← h]
        · exact absurd rfl (hn.1 (e.1, v) h)
    · next hk =>
      rw [ih hn.2]
      constructor
      · exact .inr
      · rintro (h | h)
        · exact absurd (by rw [← h]) hk
        · exact h

theorem putEntry_append {k : κ} (v : α) {es : List (κ × α)} (h : k ∉ es.map Prod.fst)
    (es' : List (κ × α)) : putEntry k v (es ++ es') = es ++ putEntry k v es' := by
  induction es with
  | nil => rfl
  | cons e es ih =>
    simp only [List.map_cons, List.mem_cons, not_or] at h
    rw [List.cons_append, putEntry, if_neg (Ne.symm h.1), ih h.2, List.cons_append]

theorem putEntry_of_not_mem {k : κ} (v : α) {es : List (κ × α)} (h : k ∉ es.map Prod.fst) :
    putEntry k v es = es ++ [(k, v)] := by
  simpa [putEntry] using putEntry_append v h []

/-- The value of a key is changed where the key is, and all else stays in order. -/
theorem putEntry_of_findEntry {k : κ} {v : α} {es : List (κ × α)}
    (h : findEntry k es = some v) :
    ∃ before after, es = before ++ (k, v) :: after ∧
      ∀ u, putEntry k u es = before ++ (k, u) :: after := by
  induction es with
  | nil => cases h
  | cons e es ih =>
    by_cases he : e.1 = k
    · rw [findEntry, if_pos he] at h
      cases h
      subst he
      exact ⟨[], es, rfl, fun u => by rw [putEntry, if_pos rfl]; rfl⟩
    · rw [findEntry, if_neg he] at h
      obtain ⟨before, after, rfl, hput⟩ := ih h
      exact ⟨e :: before, after, rfl, fun u => by rw [putEntry, if_neg he, hput]; rfl⟩

theorem eraseEntry_append {k : κ} {es : List (κ × α)} (h : k ∉ es.map Prod.fst)
    (es' : List (κ × α)) : eraseEntry k (es ++ es') = es ++ eraseEntry k es' := by
  induction es with
  | nil => rfl
  | cons e es ih =>
    simp only [List.map_cons, List.mem_cons, not_or] at h
    rw [List.cons_append, eraseEntry, if_neg (Ne.symm h.1), ih h.2, List.cons_append]

theorem eraseEntry_of_not_mem {k : κ} {es : List (κ × α)} (h : k ∉ es.map Prod.fst) :
    eraseEntry k es = es := by
  simpa [eraseEntry] using eraseEntry_append h []

namespace Table

theorem mem_entries_iff {t : Table κ α} {k : κ} {v : α} : (k, v) ∈ t.entries ↔ t.get? k = some v :=
  (findEntry_eq_some_iff t.distinct).symm

theorem mem_keys_of_get? {t : Table κ α} {k : κ} {v : α} (h : t.get? k = some v) : k ∈ t.keys :=
  List.mem_map.2 ⟨_, mem_entries_iff.2 h, rfl⟩

theorem entries_putAll {t : Table κ α} {es : List (κ × α)}
    (hn : ((t.entries ++ es).map Prod.fst).Nodup) : (t.putAll es).entries = t.entries ++ es := by
  induction es generalizing t with
  | nil => simp [putAll]
  | cons e es ih =>
    have hk : e.1 ∉ t.entries.map Prod.fst := by
      rw [List.map_append, List.nodup_append] at hn
      exact fun h => hn.2.2 _ h e.1 (by simp) rfl
    have he : (t.put e.1 e.2).entries = t.entries ++ [e] := putEntry_of_not_mem e.2 hk
    change ((t.put e.1 e.2).putAll es).entries = _
    rw [ih (by rwa [he, List.append_assoc]), he, List.append_assoc]
    rfl

/-- The table of entries whose keys are distinct has just these. -/
theorem entries_ofList {es : List (κ × α)} (hn : (es.map Prod.fst).Nodup) :
    (ofList es).entries = es := by
  rw [ofList, entries_putAll (by simpa [empty] using hn)]
  rfl

end Table

end Entries

/-! ## Lists of items with keys -/

/-- The items that meet `p`, with their keys. -/
def keyed {κ α : Type} (p : α → Bool) (key : α → κ) (l : List α) : List (κ × α) :=
  (l.filter p).map fun x => (key x, x)

section Keyed
variable {κ α : Type} {p q : α → Bool} {key : α → κ} {l : List α} {k : κ} {i : Nat} {n : α}

theorem mem_keyed {x : α} : (k, x) ∈ keyed p key l ↔ x ∈ l ∧ p x = true ∧ key x = k := by
  simp only [keyed, List.mem_map, List.mem_filter, Prod.mk.injEq]
  constructor
  · rintro ⟨y, ⟨hy, hp⟩, hk, rfl⟩
    exact ⟨hy, hp, hk⟩
  · rintro ⟨hx, hp, hk⟩
    exact ⟨x, ⟨hx, hp⟩, hk, rfl⟩

theorem mem_keys_keyed : k ∈ (keyed p key l).map Prod.fst ↔ ∃ x ∈ l, p x = true ∧ key x = k := by
  simp only [List.mem_map, Prod.exists, exists_and_right, exists_eq_right, mem_keyed]

theorem keyed_append (l' : List α) :
    keyed p key (l ++ l') = keyed p key l ++ keyed p key l' := by
  simp [keyed, List.filter_append]

theorem keyed_cons (hp : p n = true) (hk : key n = k) :
    keyed p key (n :: l) = (k, n) :: keyed p key l := by
  simp [keyed, hp, hk]

theorem keyed_cons_other (hp : p n = false) : keyed p key (n :: l) = keyed p key l := by
  simp [keyed, hp]

/-- The place that a search finds splits the list. -/
theorem split_of_findIdx? (hi : l.findIdx? q = some i) :
    ∃ l₁ y l₂, l = l₁ ++ y :: l₂ ∧ i = l₁.length ∧ q y = true ∧ ∀ z ∈ l₁, q z = false := by
  induction l generalizing i with
  | nil => simp at hi
  | cons x l ih =>
    rw [List.findIdx?_cons] at hi
    by_cases hx : q x = true
    · rw [if_pos hx] at hi
      cases hi
      exact ⟨[], x, l, rfl, rfl, hx, by simp⟩
    · rw [if_neg hx] at hi
      obtain ⟨j, hj, rfl⟩ := Option.map_eq_some_iff.1 hi
      obtain ⟨l₁, y, l₂, rfl, rfl, hy, hl⟩ := ih hj
      refine ⟨x :: l₁, y, l₂, rfl, rfl, hy, ?_⟩
      simpa [Bool.not_eq_true] using ⟨by simpa using hx, hl⟩

/-- A key that `q` finds nothing for is none of the keys. -/
theorem not_mem_keys_keyed (hq : ∀ y ∈ l, q y = true ↔ p y = true ∧ key y = k)
    (hl : ∀ y ∈ l, q y = false) : k ∉ (keyed p key l).map Prod.fst := by
  intro hm
  obtain ⟨y, hy, hpk⟩ := mem_keys_keyed.1 hm
  have := (hq y hy).2 hpk
  simp [hl y hy] at this

theorem keyed_set_other (hq : ∀ y ∈ l, q y = true → p y = false) (hp : p n = false)
    (hi : l.findIdx? q = some i) : keyed p key (l.set i n) = keyed p key l := by
  obtain ⟨l₁, y, l₂, rfl, rfl, hy, -⟩ := split_of_findIdx? hi
  rw [List.set_append_right _ _ (Nat.le_refl _), Nat.sub_self, List.set_cons_zero, keyed_append,
    keyed_append, keyed_cons_other hp, keyed_cons_other (hq y (by simp) hy)]

theorem keyed_eraseIdx_other (hq : ∀ y ∈ l, q y = true → p y = false)
    (hi : l.findIdx? q = some i) : keyed p key (l.eraseIdx i) = keyed p key l := by
  obtain ⟨l₁, y, l₂, rfl, rfl, hy, -⟩ := split_of_findIdx? hi
  rw [List.eraseIdx_append_of_length_le (Nat.le_refl _), Nat.sub_self, List.eraseIdx_cons_zero,
    keyed_append, keyed_append, keyed_cons_other (hq y (by simp) hy)]

variable [DecidableEq κ]

/-- Setting the item that `q` finds is putting at its key. -/
theorem keyed_set (hq : ∀ y ∈ l, q y = true ↔ p y = true ∧ key y = k) (hp : p n = true)
    (hk : key n = k) (hi : l.findIdx? q = some i) :
    keyed p key (l.set i n) = putEntry k n (keyed p key l) := by
  obtain ⟨l₁, y, l₂, rfl, rfl, hy, hl⟩ := split_of_findIdx? hi
  obtain ⟨hpy, hky⟩ := (hq y (by simp)).1 hy
  have hnot := not_mem_keys_keyed (fun z hz => hq z (by simp [hz])) hl
  rw [List.set_append_right _ _ (Nat.le_refl _), Nat.sub_self, List.set_cons_zero, keyed_append,
    keyed_append, keyed_cons hp hk, keyed_cons hpy hky, putEntry_append n hnot, putEntry, if_pos rfl]

/-- Erasing the item that `q` finds is erasing its key. -/
theorem keyed_eraseIdx (hq : ∀ y ∈ l, q y = true ↔ p y = true ∧ key y = k)
    (hi : l.findIdx? q = some i) : keyed p key (l.eraseIdx i) = eraseEntry k (keyed p key l) := by
  obtain ⟨l₁, y, l₂, rfl, rfl, hy, hl⟩ := split_of_findIdx? hi
  obtain ⟨hpy, hky⟩ := (hq y (by simp)).1 hy
  have hnot := not_mem_keys_keyed (fun z hz => hq z (by simp [hz])) hl
  rw [List.eraseIdx_append_of_length_le (Nat.le_refl _), Nat.sub_self, List.eraseIdx_cons_zero,
    keyed_append, keyed_append, keyed_cons hpy hky, eraseEntry_append hnot, eraseEntry, if_pos rfl]

end Keyed

/-! ## Stores -/

namespace Store

section
variable {κ : Type} {p : Handle → Bool} {key : Handle → κ} {k : κ} {s : Store} {x n : Handle}

theorem mem_replace {extant : Option Handle} {y : Handle}
    (h : y ∈ (s.replace extant n).handles) : y ∈ s.handles ∨ y = n := by
  unfold replace at h
  split at h
  · exact List.mem_or_eq_of_mem_set h
  · simpa using h

theorem mem_replace_self (extant : Option Handle) : n ∈ (s.replace extant n).handles := by
  unfold replace
  split
  · next i hi =>
    obtain ⟨x, -, hi⟩ := Option.bind_eq_some_iff.1 hi
    exact List.mem_set (List.findIdx?_eq_some_iff_findIdx_eq.1 hi).1 n
  · exact List.mem_append_right _ List.mem_cons_self

/-- Nothing goes away but what is the same as the one that is replaced. -/
theorem mem_replace_other {extant : Option Handle} {y : Handle} (hy : y ∈ s.handles)
    (he : ∀ x, extant = some x → y.same x = false) : y ∈ (s.replace extant n).handles := by
  unfold replace
  split
  · next i hi =>
    obtain ⟨x, hx, hi⟩ := Option.bind_eq_some_iff.1 hi
    obtain ⟨l₁, z, l₂, hl, rfl, hz, -⟩ := split_of_findIdx? hi
    rw [hl, List.mem_append, List.mem_cons] at hy
    rw [hl, List.set_append_right _ _ (Nat.le_refl _), Nat.sub_self, List.set_cons_zero,
      List.mem_append, List.mem_cons]
    rcases hy with hy | rfl | hy
    · exact .inl hy
    · rw [he x hx] at hz
      cases hz
    · exact .inr (.inr hy)
  · exact List.mem_append_left _ hy

theorem mem_remove {y : Handle} (h : y ∈ (s.remove x).handles) : y ∈ s.handles := by
  unfold remove at h
  split at h
  · exact List.mem_of_mem_eraseIdx h
  · exact h

theorem mem_remove_other {y : Handle} (hy : y ∈ s.handles) (he : y.same x = false) :
    y ∈ (s.remove x).handles := by
  unfold remove
  split
  · next i hi =>
    obtain ⟨l₁, z, l₂, hl, rfl, hz, -⟩ := split_of_findIdx? hi
    rw [hl, List.mem_append, List.mem_cons] at hy
    rw [hl, List.eraseIdx_append_of_length_le (Nat.le_refl _), Nat.sub_self, List.eraseIdx_zero,
      List.tail_cons, List.mem_append]
    rcases hy with hy | rfl | hy
    · exact .inl hy
    · rw [he] at hz
      cases hz
    · exact .inr hy
  · exact hy

theorem keyed_push (hp : p n = true) (hk : key n = k) :
    keyed p key (s.push n).handles = keyed p key s.handles ++ [(k, n)] := by
  rw [handles_push, keyed_append, keyed_cons hp hk]
  rfl

theorem keyed_push_other (hp : p n = false) :
    keyed p key (s.push n).handles = keyed p key s.handles := by
  rw [handles_push, keyed_append, keyed_cons_other hp]
  exact List.append_nil _

theorem keyed_replace_other {extant : Option Handle}
    (hq : ∀ x ∈ extant, ∀ y ∈ s.handles, y.same x = true → p y = false) (hp : p n = false) :
    keyed p key (s.replace extant n).handles = keyed p key s.handles := by
  unfold replace
  split
  · next i hi =>
    obtain ⟨x, hx, hi⟩ := Option.bind_eq_some_iff.1 hi
    exact keyed_set_other (hq x hx) hp hi
  · exact keyed_push_other hp

theorem keyed_remove_other (hq : ∀ y ∈ s.handles, y.same x = true → p y = false) :
    keyed p key (s.remove x).handles = keyed p key s.handles := by
  unfold remove
  split
  · next i hi => exact keyed_eraseIdx_other hq hi
  · rfl

variable [DecidableEq κ] {t : Table κ Handle} {o : Option Handle}

theorem keyed_replace (hq : ∀ y ∈ s.handles, y.same x = true ↔ p y = true ∧ key y = k)
    (hp : p n = true) (hk : key n = k) :
    keyed p key (s.replace (some x) n).handles = putEntry k n (keyed p key s.handles) := by
  unfold replace
  cases hi : s.position x with
  | some i =>
    simp only [Option.bind_some, hi]
    exact keyed_set hq hp hk hi
  | none =>
    -- Nothing is the same as `x`, so nothing has the key either.
    simp only [Option.bind_some, hi]
    rw [keyed_push hp hk,
      putEntry_of_not_mem n (not_mem_keys_keyed hq (List.findIdx?_eq_none_iff.1 hi))]

theorem keyed_remove (hq : ∀ y ∈ s.handles, y.same x = true ↔ p y = true ∧ key y = k) :
    keyed p key (s.remove x).handles = eraseEntry k (keyed p key s.handles) := by
  unfold remove
  cases hi : s.position x with
  | some i => exact keyed_eraseIdx hq hi
  | none => exact (eraseEntry_of_not_mem (not_mem_keys_keyed hq (List.findIdx?_eq_none_iff.1 hi))).symm

/-- What is the same as the element of a key, by identity, is what has the key. -/
theorem same_iff (hl : keyed p key s.handles = t.entries) (hx : t.get? k = some x)
    (hs : ∀ y ∈ s.handles, y.same x = true → y.element = x.element)
    (hpk : ∀ y, y.element = x.element → p y = p x ∧ key y = key x) :
    ∀ y ∈ s.handles, y.same x = true ↔ p y = true ∧ key y = k := by
  obtain ⟨-, hp, hk⟩ := mem_keyed.1 (hl ▸ Table.mem_entries_iff.2 hx)
  intro y hy
  constructor
  · intro he
    obtain ⟨hpy, hky⟩ := hpk y (hs y hy he)
    exact ⟨hpy.trans hp, hky.trans hk⟩
  · intro h
    have hy' := Table.mem_entries_iff.1 (hl ▸ mem_keyed.2 ⟨hy, h⟩)
    rw [hx] at hy'
    cases hy'
    exact beq_self_eq_true _

/-- Replacing what a table has at a key is putting at the key. -/
theorem keyed_replace_get? (hl : keyed p key s.handles = t.entries) (ho : t.get? k = o)
    (hq : ∀ x, o = some x → ∀ y ∈ s.handles, y.same x = true ↔ p y = true ∧ key y = k)
    (hp : p n = true) (hk : key n = k) :
    keyed p key (s.replace o n).handles = (t.put k n).entries := by
  change _ = putEntry k n t.entries
  cases o with
  | none =>
    rw [replace_none, keyed_push hp hk, putEntry_of_not_mem n ((Table.get?_eq_none_iff _ _).1 ho), hl]
  | some x => rw [keyed_replace (hq x rfl) hp hk, hl]

end

end Store

end TemplateInventory
