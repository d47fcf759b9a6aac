import TemplateInventory.Text.Blank
/-!
# Runs of characters

Reading takes runs of characters of one kind, and trimming drops them at the ends of
a text. A run ends where a character of another kind comes (`takeWhile_append_of_head`),
and trimming leaves alone what has no such character at an end
(`trimWhere_eq_self_iff`).
-/

namespace TemplateInventory

namespace Text

section
variable {p : Char → Bool} {c : Char} {cs rest : List Char}

/-! ## Taking a run -/

theorem dropWhile_of_head (h : cs.head?.all (!p ·) = true) : cs.dropWhile p = cs := by
  cases cs with
  | nil => rfl
  | cons c cs => exact List.dropWhile_cons_of_neg (by simpa using h)

theorem takeWhile_append_of_head (h : ∀ a ∈ cs, p a = true)
    (hr : rest.head?.all (!p ·) = true) : (cs ++ rest).takeWhile p = cs := by
  rw [List.takeWhile_append_of_pos h]
  cases rest with
  | nil => simp
  | cons c rest => rw [List.takeWhile_cons_of_neg (by simpa using hr), List.append_nil]

theorem dropWhile_append_of_head (h : ∀ a ∈ cs, p a = true)
    (hr : rest.head?.all (!p ·) = true) : (cs ++ rest).dropWhile p = rest := by
  rw [List.dropWhile_append_of_pos h, dropWhile_of_head hr]

theorem takeWhile_append_stop (h : ∀ a ∈ cs, p a = true) (hc : p c = false) :
    (cs ++ c :: rest).takeWhile p = cs :=
  takeWhile_append_of_head h (by simp [hc])

theorem dropWhile_append_stop (h : ∀ a ∈ cs, p a = true) (hc : p c = false) :
    (cs ++ c :: rest).dropWhile p = c :: rest :=
  dropWhile_append_of_head h (by simp [hc])

theorem head_dropWhile (p : Char → Bool) (cs : List Char) :
    (cs.dropWhile p).head?.all (!p ·) = true := by
  have hnot := List.head?_dropWhile_not p cs
  cases hd : (cs.dropWhile p).head? with
  | none => rfl
  | some c =>
    rw [hd] at hnot
    simpa using hnot

/-- A run is dropped before or after rewriting each character, if the rewriting keeps
the run and what ends it. -/
theorem dropWhile_flatMap {f : Char → List Char} (hkept : ∀ c, p c = true → f c = [c])
    (hhead : ∀ c, (f c).head?.map p = some (p c)) (cs : List Char) :
    (cs.flatMap f).dropWhile p = (cs.dropWhile p).flatMap f := by
  induction cs with
  | nil => rfl
  | cons c cs ih =>
    cases hc : p c with
    | true =>
      rw [List.flatMap_cons, hkept c hc, List.singleton_append, List.dropWhile_cons_of_pos hc,
        List.dropWhile_cons_of_pos hc, ih]
    | false =>
      obtain ⟨d, hd, hpd⟩ := Option.map_eq_some_iff.1 (hhead c)
      rw [List.dropWhile_cons_of_neg (by simp [hc]), dropWhile_of_head]
      simp [hd, hpd, hc]

/-! ## Trimming -/

theorem dropEndWhile_of_last (h : cs.getLast?.all (!p ·) = true) : dropEndWhile p cs = cs := by
  rw [dropEndWhile, dropWhile_of_head (by rwa [List.head?_reverse]), List.reverse_reverse]

theorem dropEndWhile_cons (hc : p c = false) (cs : List Char) :
    dropEndWhile p (c :: cs) = c :: dropEndWhile p cs := by
  have hstop : [c].dropWhile p = [c] := List.dropWhile_cons_of_neg (by simp [hc])
  rw [dropEndWhile, dropEndWhile, List.reverse_cons, List.dropWhile_append, hstop]
  split
  · next h => simp [List.isEmpty_iff.1 h]
  · simp

theorem trimWhere_eq_self_iff :
    trimWhere p cs = cs ↔
      cs.head?.all (!p ·) = true ∧ cs.getLast?.all (!p ·) = true := by
  constructor
  · intro h
    have hshort : (dropEndWhile p (cs.dropWhile p)).length ≤ (cs.dropWhile p).length := by
      simpa [dropEndWhile] using (List.dropWhile_sublist p (l := (cs.dropWhile p).reverse)).length_le
    have hstart : cs.dropWhile p = cs :=
      (List.dropWhile_sublist p).eq_of_length_le
        (Nat.le_trans (Nat.le_of_eq (congrArg List.length h.symm)) hshort)
    have hend : dropEndWhile p cs = cs := by rwa [trimWhere, hstart] at h
    constructor
    · rw [← hstart]
      exact head_dropWhile p cs
    · rw [← hend, dropEndWhile, List.getLast?_reverse]
      exact head_dropWhile p cs.reverse
  · rintro ⟨hhead, hlast⟩
    rw [trimWhere, dropWhile_of_head hhead, dropEndWhile_of_last hlast]

/-- What is trimmed has nothing left to trim. -/
theorem trimWhere_trimWhere (p : Char → Bool) (cs : List Char) :
    trimWhere p (trimWhere p cs) = trimWhere p cs := by
  refine trimWhere_eq_self_iff.2 ⟨?_, ?_⟩
  · have hhead := head_dropWhile p cs
    unfold trimWhere
    cases hd : cs.dropWhile p with
    | nil => rfl
    | cons c rest =>
      rw [hd] at hhead
      have hc : p c = false := by simpa using hhead
      rw [dropEndWhile_cons hc]
      exact hhead
  · rw [trimWhere, dropEndWhile, List.getLast?_reverse]
    exact head_dropWhile p _

theorem trimWhere_of_all (h : ∀ c ∈ cs, p c = false) : trimWhere p cs = cs :=
  trimWhere_eq_self_iff.2
    ⟨(Option.all_eq_true _ _).2 fun c hc => by simp [h c (List.mem_of_head? hc)],
      (Option.all_eq_true _ _).2 fun c hc => by simp [h c (List.mem_of_getLast? hc)]⟩

end

end Text

end TemplateInventory
