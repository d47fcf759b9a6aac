import TemplateInventory.Proofs.RoundTrip
import TemplateInventory.Selection
/-!
# Selecting from changed documents

Both ways of changing a document act on its innermost wrappers.
`Selection.replace` puts what it is given in the first wrapper that is not empty, and
empties the others, so just that is selected afterwards (`Selection.select_replace`).
`Selection.mapInnermost` changes the first wrapper, so that what is selected in the
others stays (`Selection.select_mapInnermost`). Writing and reading changes texts and no
names, so the same elements are selected then, as they come back
(`Selection.select_tidy`).
-/

namespace TemplateInventory.Selection

section
variable {s : Selection} {d d' : Element} {new : List Element} {f : Element → Element}

/-! ## Wrappers in order -/

/-- The children of wrappers, which are numbered from `n` on. -/
def childrenFrom (n : Nat) : List Element → List Selected
  | [] => []
  | w :: ws => w.children.map (⟨n, ·⟩) ++ childrenFrom (n + 1) ws

theorem select_eq_childrenFrom (s : Selection) (d : Element) :
    s.select d = childrenFrom 0 (s.wrappersOf d) := by
  have hfrom : ∀ ws n, (ws.zipIdx n).flatMap (fun x => x.1.children.map (Selected.mk x.2)) =
      childrenFrom n ws := by
    intro ws
    induction ws with
    | nil => exact fun _ => rfl
    | cons w ws ih =>
      intro n
      rw [List.zipIdx_cons, List.flatMap_cons, ih]
      rfl
  exact hfrom (s.wrappersOf d) 0

theorem le_wrapper_of_mem_childrenFrom {n : Nat} {ws : List Element} {t : Selected}
    (ht : t ∈ childrenFrom n ws) : n ≤ t.wrapper := by
  induction ws generalizing n with
  | nil => cases ht
  | cons w ws ih =>
    rcases List.mem_append.1 ht with ht | ht
    · obtain ⟨c, -, rfl⟩ := List.mem_map.1 ht
      exact Nat.le_refl n
    · exact Nat.le_of_succ_le (ih ht)

theorem childrenFrom_append (n : Nat) (ws ws' : List Element) :
    childrenFrom n (ws ++ ws') = childrenFrom n ws ++ childrenFrom (n + ws.length) ws' := by
  induction ws generalizing n with
  | nil => rfl
  | cons w ws ih =>
    rw [List.cons_append, childrenFrom, childrenFrom, ih, List.append_assoc, List.length_cons,
      Nat.add_right_comm, Nat.add_assoc]

/-- Whether an element has children. -/
def isFilled (w : Element) : Bool := !w.children.isEmpty

/-- Wrappers without children have nothing to select, and others have. -/
theorem childrenFrom_eq_nil_iff {n : Nat} {ws : List Element} :
    childrenFrom n ws = [] ↔ ws.any isFilled = false := by
  induction ws generalizing n with
  | nil => simp [childrenFrom]
  | cons w ws ih => simp [childrenFrom, isFilled, ih]

theorem any_isFilled_eq_false {ws : List Element} :
    ws.any isFilled = false ↔ ∀ w ∈ ws, w.children = [] := by
  simp [isFilled]

/-! ## Replacing -/

/-- Gives the first wrapper that has children the children `new`, unless they are
placed already, and takes the children of all others. -/
def refill (new : List Element) : Bool → List Element → List Element
  | _, [] => []
  | placed, w :: ws =>
    if w.children.isEmpty then w :: refill new placed ws
    else { w with children := if placed then [] else new } :: refill new true ws

/-- An element without its children. -/
def emptied (w : Element) : Element := { w with children := [] }

theorem refill_true (new : List Element) (ws : List Element) :
    refill new true ws = ws.map emptied := by
  induction ws with
  | nil => rfl
  | cons w ws ih =>
    obtain ⟨n, as, cs, t⟩ := w
    cases cs <;> simp [refill, emptied, ih]

/-- Wrappers that are all empty stay. -/
theorem refill_of_empty (new : List Element) {ws : List Element} (h : ws.any isFilled = false) :
    refill new false ws = ws := by
  induction ws with
  | nil => rfl
  | cons w ws ih =>
    simp only [List.any_cons, Bool.or_eq_false_iff, isFilled, Bool.not_eq_false'] at h
    rw [refill, if_pos h.1, ih h.2]

/-- The first wrapper with children takes the new ones, and those after it have none. -/
theorem refill_of_filled (new : List Element) {ws : List Element} (h : ws.any isFilled = true) :
    ∃ before w after, ws = before ++ w :: after ∧ (∀ x ∈ before, x.children = []) ∧
      w.children ≠ [] ∧
      refill new false ws = before ++ { w with children := new } :: after.map emptied := by
  induction ws with
  | nil => cases h
  | cons w ws ih =>
    by_cases hw : w.children.isEmpty
    · obtain ⟨before, w', after, rfl, hbefore, hw', hrefill⟩ := ih (by simpa [isFilled, hw] using h)
      refine ⟨w :: before, w', after, rfl, ?_, hw', ?_⟩
      · exact List.forall_mem_cons.2 ⟨List.isEmpty_iff.1 hw, hbefore⟩
      · rw [refill, if_pos hw, hrefill]
        rfl
    · refine ⟨[], w, ws, rfl, List.forall_mem_nil _, fun hnil => hw (List.isEmpty_iff.2 hnil), ?_⟩
      rw [refill, if_neg hw, refill_true]
      rfl

theorem refill_append (new : List Element) (placed : Bool) (ws ws' : List Element) :
    refill new placed (ws ++ ws') =
      refill new placed ws ++ refill new (placed || ws.any isFilled) ws' := by
  induction ws generalizing placed with
  | nil => simp [refill]
  | cons w ws ih => by_cases hw : w.children.isEmpty <;> simp [refill, isFilled, hw, ih]

/-- What replacing has made of an element: its wrappers are refilled in document
order. -/
structure Refills (new : List Element) (names : List String) (placed : Bool) (e : Element)
    (r : Bool × Element) : Prop where
  flag : r.1 = (placed || (innermostWrappers names e).any isFilled)
  wrappers : innermostWrappers names r.2 = refill new placed (innermostWrappers names e)
  name : r.2.name = e.name

/-- Children are gone through one by one, and those of a name are replaced in. -/
theorem foldl_replaceBelow {names : List String} (name : String)
    (hr : ∀ placed e, Refills new names placed e (replaceBelow new names placed e))
    (cs done : List Element) (placed : Bool) :
    ∃ cs', cs.foldl (fun (acc : Bool × List Element) c =>
        if c.name = name then
          ((replaceBelow new names acc.1 c).1, acc.2 ++ [(replaceBelow new names acc.1 c).2])
        else (acc.1, acc.2 ++ [c])) (placed, done) =
      (placed || ((cs.filter (·.name = name)).flatMap (innermostWrappers names)).any isFilled,
        done ++ cs') ∧
      (cs'.filter (·.name = name)).flatMap (innermostWrappers names) =
        refill new placed ((cs.filter (·.name = name)).flatMap (innermostWrappers names)) := by
  induction cs generalizing done placed with
  | nil => exact ⟨[], by simp, rfl⟩
  | cons c cs ih =>
    by_cases hc : c.name = name
    · have hchild := hr placed c
      obtain ⟨cs', hrest, hwrappers⟩ := ih (done ++ [(replaceBelow new names placed c).2])
        (replaceBelow new names placed c).1
      refine ⟨(replaceBelow new names placed c).2 :: cs', ?_, ?_⟩
      · rw [List.foldl_cons, if_pos hc, hrest, hchild.flag]
        simp [hc, Bool.or_assoc]
      · simp [hc, hchild.name, hchild.wrappers, hwrappers, hchild.flag, refill_append]
    · obtain ⟨cs', hrest, hwrappers⟩ := ih (done ++ [c]) placed
      refine ⟨c :: cs', ?_, ?_⟩
      · rw [List.foldl_cons, if_neg hc, hrest]
        simp [hc]
      · simp [hc, hwrappers]

theorem refills_replaceBelow (new : List Element) (names : List String) (placed : Bool)
    (e : Element) :
    Refills new names placed e (replaceBelow new names placed e) := by
  induction names generalizing placed e with
  | nil =>
    unfold replaceBelow
    by_cases he : e.children.isEmpty
    · exact ⟨by simp [innermostWrappers, isFilled, he], by simp [innermostWrappers, refill, he],
        by simp [he]⟩
    · exact ⟨by simp [innermostWrappers, isFilled, he], by simp [innermostWrappers, refill, he],
        by simp [he]⟩
  | cons name names ih =>
    obtain ⟨cs', hcs', hwrappers⟩ := foldl_replaceBelow name ih e.children [] placed
    unfold replaceBelow
    simp only [hcs', List.nil_append]
    exact ⟨rfl, hwrappers, rfl⟩

/-- Replacing refills the wrappers of a document, if one of them has children. -/
theorem wrappersOf_replace (s : Selection) (new : List Element) (d : Element) :
    (s.replace new d).1 = (s.wrappersOf d).any isFilled ∧
      s.wrappersOf (s.replace new d).2 = refill new false (s.wrappersOf d) := by
  unfold replace wrappersOf
  by_cases hroot : d.name = s.outer
  · obtain ⟨hflag, hwrappers, hname⟩ := refills_replaceBelow new s.inner false d
    rw [Bool.false_or] at hflag
    rw [if_pos hroot, if_pos hroot, if_pos (hname.trans hroot)]
    exact ⟨hflag, hwrappers⟩
  · simp only [if_neg hroot]
    exact ⟨rfl, rfl⟩

/-- The first wrapper with children takes the replacements in a document with something
selected, and the wrappers after it are emptied. -/
theorem wrappersOf_replace_of_select (new : List Element) (h : s.select d ≠ []) :
    ∃ d' before w after, s.replace new d = (true, d') ∧ s.wrappersOf d = before ++ w :: after ∧
      (∀ x ∈ before, x.children = []) ∧ w.children ≠ [] ∧
      s.wrappersOf d' = before ++ { w with children := new } :: after.map emptied ∧
      s.select d' = new.map (⟨before.length, ·⟩) := by
  rw [select_eq_childrenFrom, Ne, childrenFrom_eq_nil_iff, Bool.not_eq_false] at h
  obtain ⟨hflag, hwrappers⟩ := s.wrappersOf_replace new d
  obtain ⟨before, w, after, hsplit, hbefore, hw, hrefill⟩ := refill_of_filled new h
  rw [hrefill] at hwrappers
  have hafter : (after.map emptied).any isFilled = false :=
    any_isFilled_eq_false.2 (List.forall_mem_map.2 fun _ _ => rfl)
  refine ⟨_, before, w, after, Prod.ext (hflag.trans h) rfl, hsplit, hbefore, hw, hwrappers, ?_⟩
  rw [select_eq_childrenFrom, hwrappers, childrenFrom_append, childrenFrom,
    childrenFrom_eq_nil_iff.2 (any_isFilled_eq_false.2 hbefore), childrenFrom_eq_nil_iff.2 hafter,
    List.nil_append, List.append_nil, Nat.zero_add]

/-- What replaces the selected elements of a document is selected afterwards, all of it
in one wrapper. -/
theorem select_replace (new : List Element) (h : s.select d ≠ []) :
    ∃ d' n, s.replace new d = (true, d') ∧ s.select d' = new.map (⟨n, ·⟩) := by
  obtain ⟨d', before, -, -, hreplace, -, -, -, -, hselect⟩ := wrappersOf_replace_of_select new h
  exact ⟨d', before.length, hreplace, hselect⟩

/-! ## Changing the first wrapper -/

/-- The wrapper on the chain of first children is the first one. -/
theorem wrappersOf_mapInnermost (hf : ∀ w, (f w).name = w.name) (h : s.mapInnermost f d = some d') :
    ∃ w ws, s.wrappersOf d = w :: ws ∧ s.wrappersOf d' = f w :: ws := by
  have hbelow : ∀ names e e', mapInnermostBelow f names e = some e' → e'.name = e.name ∧
      ∃ w ws, innermostWrappers names e = w :: ws ∧ innermostWrappers names e' = f w :: ws := by
    intro names
    induction names with
    | nil =>
      intro e e' he
      cases he
      exact ⟨hf e, e, [], rfl, rfl⟩
    | cons name names ih =>
      intro e e' he
      unfold mapInnermostBelow at he
      split at he
      · cases he
      · next c cs hcs =>
        split at he
        · next hc =>
          obtain ⟨c', hc', rfl⟩ := Option.map_eq_some_iff.1 he
          obtain ⟨hname, w, ws, hw, hw'⟩ := ih c c' hc'
          refine ⟨rfl, w, ws ++ (cs.filter (·.name = name)).flatMap (innermostWrappers names), ?_, ?_⟩
          · simp [innermostWrappers, Element.childrenNamed, hcs, hc, hw]
          · simp [innermostWrappers, Element.childrenNamed, hc, hname, hw']
        · cases he
  unfold mapInnermost at h
  split at h
  · next hroot =>
    obtain ⟨hname, w, ws, hw, hw'⟩ := hbelow s.inner d d' h
    exact ⟨w, ws, by rw [wrappersOf, if_pos hroot, hw],
      by rw [wrappersOf, if_pos (hname.trans hroot), hw']⟩
  · cases h

/-- What is selected in the other wrappers stays. -/
theorem select_mapInnermost (hf : ∀ w, (f w).name = w.name) (h : s.mapInnermost f d = some d') :
    ∃ w later, s.select d = w.children.map (⟨0, ·⟩) ++ later ∧
      s.select d' = (f w).children.map (⟨0, ·⟩) ++ later ∧ ∀ t ∈ later, t.wrapper ≠ 0 := by
  obtain ⟨w, ws, hw, hw'⟩ := wrappersOf_mapInnermost hf h
  exact ⟨w, childrenFrom 1 ws, by rw [select_eq_childrenFrom, hw, childrenFrom],
    by rw [select_eq_childrenFrom, hw', childrenFrom],
    fun t ht => Nat.ne_of_gt (le_wrapper_of_mem_childrenFrom ht)⟩

/-! ## Reading again -/

/-- What is everywhere in a document is everywhere in what is selected. -/
theorem everywhere_of_mem_select {P : Element → Prop} {t : Selected} (hd : d.Everywhere P)
    (ht : t ∈ s.select d) : t.element.Everywhere P := by
  have hwrappers : ∀ names e, e.Everywhere P → ∀ w ∈ innermostWrappers names e, w.Everywhere P := by
    intro names
    induction names with
    | nil =>
      intro e he w hw
      obtain rfl := List.mem_singleton.1 hw
      exact he
    | cons name names ih =>
      intro e he w hw
      obtain ⟨c, hc, hw⟩ := List.mem_flatMap.1 hw
      exact ih c (he.child (List.mem_filter.1 hc).1) w hw
  obtain ⟨⟨w, n⟩, hw, ht⟩ := List.mem_flatMap.1 ht
  obtain ⟨c, hc, rfl⟩ := List.mem_map.1 ht
  have hw := List.fst_mem_of_mem_zipIdx hw
  unfold wrappersOf at hw
  split at hw
  · exact (hwrappers s.inner d hd w hw).child hc
  · cases hw

theorem name_tidy (e : Element) : e.tidy.name = e.name := by
  cases e
  rfl

theorem children_tidy (e : Element) : e.tidy.children = e.children.map Element.tidy := by
  cases e
  exact Element.tidyAll_eq_map _

theorem wrappersOf_tidy (s : Selection) (d : Element) :
    s.wrappersOf d.tidy = (s.wrappersOf d).map Element.tidy := by
  have hbelow : ∀ names e, innermostWrappers names e.tidy =
      (innermostWrappers names e).map Element.tidy := by
    intro names
    induction names with
    | nil => exact fun _ => rfl
    | cons name names ih =>
      intro e
      have hnamed : e.tidy.childrenNamed name = (e.childrenNamed name).map Element.tidy := by
        simp [Element.childrenNamed, children_tidy, List.filter_map, Function.comp_def, name_tidy]
      rw [innermostWrappers, innermostWrappers, hnamed, List.flatMap_map, List.map_flatMap]
      exact congrArg (List.flatMap · _) (funext ih)
  unfold wrappersOf
  rw [name_tidy]
  split
  · exact hbelow s.inner d
  · rfl

theorem select_tidy (s : Selection) (d : Element) :
    s.select d.tidy = (s.select d).map fun t => ⟨t.wrapper, t.element.tidy⟩ := by
  have hfrom : ∀ ws n, childrenFrom n (ws.map Element.tidy) =
      (childrenFrom n ws).map fun t => ⟨t.wrapper, t.element.tidy⟩ := by
    intro ws
    induction ws with
    | nil => exact fun _ => rfl
    | cons w ws ih =>
      intro n
      simp [childrenFrom, ih, children_tidy]
  rw [select_eq_childrenFrom, select_eq_childrenFrom, wrappersOf_tidy, hfrom]

end

end TemplateInventory.Selection
