import Mathlib.Data.List.Forall2
import TemplateInventory.Proofs.Selections
/-!
# Replacing what is selected

`Selection.replace` goes down a document depth first and keeps a flag for whether the
replacements have found their place, while the wrappers of a selection are reached level
by level (`Selection.wrappersByLevel`). Both meet the same wrappers in the same order, so
the replacements are what is selected afterwards, in the first wrapper that had children
(`Selection.replace_then_select`).

Everything outside the innermost wrappers stays where it is, which is
`Selection.SameOutside`. A document is determined by that and by its innermost wrappers
(`Selection.SameOutside.eq`), so nothing else can have changed.
-/

namespace TemplateInventory.Selection

section
variable {s : Selection} {d e e' : Element} {new : List Element} {names : List String}

/-! ## Level by level -/

/-- The innermost wrappers of a document, reached one level after the other. -/
def wrappersByLevel (s : Selection) (document : Element) : List Element :=
  if document.name = s.outer then
    s.inner.foldl (fun level name => level.flatMap (·.childrenNamed name)) [document]
  else []

theorem flatMap_innermostWrappers (names : List String) (level : List Element) :
    level.flatMap (innermostWrappers names) =
      names.foldl (fun level name => level.flatMap (·.childrenNamed name)) level := by
  induction names generalizing level with
  | nil => exact List.flatMap_singleton' level
  | cons name names ih =>
    rw [List.foldl_cons, ← ih, List.flatMap_assoc]
    rfl

theorem wrappersByLevel_eq (s : Selection) (d : Element) :
    s.wrappersByLevel d = s.wrappersOf d := by
  unfold wrappersByLevel wrappersOf
  rw [← flatMap_innermostWrappers, List.flatMap_singleton]

/-! ## Outside the innermost wrappers -/

/-- Two elements differ in the children of innermost wrappers only: on the way to these
each has the same name, attributes and text, and the same children in the same places. -/
def SameOutside : List String → Element → Element → Prop
  | [], e, e' => e'.name = e.name ∧ e'.attributes = e.attributes ∧ e'.text = e.text
  | name :: names, e, e' =>
    (e'.name = e.name ∧ e'.attributes = e.attributes ∧ e'.text = e.text) ∧
      e.children.Forall₂ (fun c c' => if c.name = name then SameOutside names c c' else c' = c)
        e'.children

theorem SameOutside.name (h : SameOutside names e e') : e'.name = e.name := by
  cases names with
  | nil => exact h.1
  | cons name names => exact h.1.1

/-- A relation between children that keeps names relates the children of a name. -/
theorem forall₂_childrenNamed {R : Element → Element → Prop} {name : String}
    (hR : ∀ c c', c.name = name → R c c' → c'.name = name) {cs cs' : List Element}
    (h : cs.Forall₂ (fun c c' => if c.name = name then R c c' else c' = c) cs') :
    (cs.filter (·.name = name)).Forall₂ R (cs'.filter (·.name = name)) := by
  induction h with
  | nil => exact .nil
  | @cons c c' cs cs' hc _ ih =>
    by_cases hn : c.name = name
    · rw [if_pos hn] at hc
      simpa [hn, hR c c' hn hc] using ⟨hc, ih⟩
    · rw [if_neg hn] at hc
      simpa [hc, hn] using ih

/-- There are as many innermost wrappers. -/
theorem SameOutside.length_eq (h : SameOutside names e e') :
    (innermostWrappers names e).length = (innermostWrappers names e').length := by
  induction names generalizing e e' with
  | nil => rfl
  | cons name names ih =>
    have hcs := forall₂_childrenNamed (fun c c' hn hc => hc.name.trans hn) h.2
    have hlengths := List.forall₂_map_left_iff.2 (List.forall₂_map_right_iff.2
      (hcs.imp fun _ _ hc => ih hc))
    rw [List.forall₂_eq_eq_eq] at hlengths
    simp only [innermostWrappers, Element.childrenNamed, List.length_flatMap]
    rw [hlengths]

/-- Nothing is left open by what is outside the innermost wrappers and these. -/
theorem SameOutside.eq (h : SameOutside names e e')
    (hw : innermostWrappers names e = innermostWrappers names e') : e' = e := by
  induction names generalizing e e' with
  | nil => exact (List.singleton_inj.1 hw).symm
  | cons name names ih =>
    obtain ⟨⟨hn, ha, ht⟩, hcs⟩ := h
    have hchildren : ∀ {cs cs' : List Element},
        cs.Forall₂ (fun c c' => if c.name = name then SameOutside names c c' else c' = c) cs' →
        (cs.filter (·.name = name)).flatMap (innermostWrappers names) =
          (cs'.filter (·.name = name)).flatMap (innermostWrappers names) → cs' = cs := by
      intro cs cs' hcs
      induction hcs with
      | nil => exact fun _ => rfl
      | @cons c c' cs cs' hc _ ihcs =>
        intro heq
        by_cases hcn : c.name = name
        · rw [if_pos hcn] at hc
          simp only [List.filter_cons, hcn, hc.name, decide_true, if_true, List.flatMap_cons] at heq
          obtain ⟨hfirst, hrest⟩ := List.append_inj heq hc.length_eq
          rw [ih hc hfirst, ihcs hrest]
        · rw [if_neg hcn] at hc
          simp only [List.filter_cons, hc, hcn, decide_false, Bool.false_eq_true, if_false] at heq
          rw [hc, ihcs heq]
    obtain ⟨n, as, cs, t⟩ := e
    obtain ⟨n', as', cs', t'⟩ := e'
    obtain rfl := hchildren hcs hw
    cases hn
    cases ha
    cases ht
    rfl

/-! ## What replacing leaves alone -/

/-- Children are gone through one by one, and those of other names stay. -/
theorem forall₂_foldl_replaceBelow (name : String)
    (hr : ∀ placed e, SameOutside names e (replaceBelow new names placed e).2)
    (cs done : List Element) (placed : Bool) :
    ∃ cs', (cs.foldl (fun (acc : Bool × List Element) c =>
        if c.name = name then
          ((replaceBelow new names acc.1 c).1, acc.2 ++ [(replaceBelow new names acc.1 c).2])
        else (acc.1, acc.2 ++ [c])) (placed, done)).2 = done ++ cs' ∧
      cs.Forall₂ (fun c c' => if c.name = name then SameOutside names c c' else c' = c) cs' := by
  induction cs generalizing done placed with
  | nil => exact ⟨[], (List.append_nil done).symm, .nil⟩
  | cons c cs ih =>
    by_cases hc : c.name = name
    · obtain ⟨cs', hrest, hsame⟩ := ih (done ++ [(replaceBelow new names placed c).2])
        (replaceBelow new names placed c).1
      refine ⟨(replaceBelow new names placed c).2 :: cs', ?_, .cons ?_ hsame⟩
      · rw [List.foldl_cons, if_pos hc, hrest, List.append_assoc]
        rfl
      · rw [if_pos hc]
        exact hr placed c
    · obtain ⟨cs', hrest, hsame⟩ := ih (done ++ [c]) placed
      refine ⟨c :: cs', ?_, .cons ?_ hsame⟩
      · rw [List.foldl_cons, if_neg hc, hrest, List.append_assoc]
        rfl
      · rw [if_neg hc]

theorem sameOutside_replaceBelow (new : List Element) (names : List String) (placed : Bool)
    (e : Element) : SameOutside names e (replaceBelow new names placed e).2 := by
  induction names generalizing placed e with
  | nil =>
    unfold replaceBelow
    split <;> exact ⟨rfl, rfl, rfl⟩
  | cons name names ih =>
    obtain ⟨cs', hcs', hsame⟩ := forall₂_foldl_replaceBelow name ih e.children [] placed
    refine ⟨⟨rfl, rfl, rfl⟩, ?_⟩
    simp only [replaceBelow, hcs', List.nil_append]
    exact hsame

theorem sameOutside_replace (s : Selection) (new : List Element) (d : Element)
    (hroot : d.name = s.outer) : SameOutside s.inner d (s.replace new d).2 := by
  rw [replace, if_pos hroot]
  exact sameOutside_replaceBelow new s.inner false d

theorem name_eq_of_select (h : s.select d ≠ []) : d.name = s.outer := by
  refine Classical.byContradiction fun hroot => h ?_
  rw [select_eq_childrenFrom, wrappersOf, if_neg hroot]
  rfl

/-- A document with nothing selected is not changed. -/
theorem replace_of_select_eq_nil (new : List Element) (h : s.select d = []) :
    s.replace new d = (false, d) := by
  rw [select_eq_childrenFrom, childrenFrom_eq_nil_iff] at h
  obtain ⟨hflag, hwrappers⟩ := s.wrappersOf_replace new d
  by_cases hroot : d.name = s.outer
  · have hsame := s.sameOutside_replace new d hroot
    rw [refill_of_empty new h, wrappersOf, wrappersOf, if_pos hroot,
      if_pos (hsame.name.trans hroot)] at hwrappers
    exact Prod.ext (hflag.trans h) (hsame.eq hwrappers.symm)
  · exact if_neg hroot

/-- A document with nothing selected stays as it is. In any other one the replacements
stand in the first innermost wrapper that had children, in their order, the innermost
wrappers after it have lost theirs, and nothing else has changed. -/
theorem replace_then_select (s : Selection) (new : List Element) (d : Element) :
    (s.select d = [] ∧ s.replace new d = (false, d)) ∨
    (s.select d ≠ [] ∧ ∃ d' before w after, s.replace new d = (true, d') ∧
      s.wrappersByLevel d = before ++ w :: after ∧
      (∀ x ∈ before, x.children = []) ∧ w.children ≠ [] ∧
      s.wrappersByLevel d' = before ++ { w with children := new } :: after.map emptied ∧
      s.select d' = new.map (⟨before.length, ·⟩) ∧
      SameOutside s.inner d d') := by
  by_cases h : s.select d = []
  · exact .inl ⟨h, replace_of_select_eq_nil new h⟩
  · obtain ⟨d', before, w, after, hreplace, hold, hbefore, hw, hnew, hselect⟩ :=
      wrappersOf_replace_of_select new h
    have hsame := s.sameOutside_replace new d (name_eq_of_select h)
    rw [hreplace] at hsame
    exact .inr ⟨h, d', before, w, after, hreplace, (s.wrappersByLevel_eq d).trans hold, hbefore, hw,
      (s.wrappersByLevel_eq d').trans hnew, hselect, hsame⟩

end

end TemplateInventory.Selection
