import TemplateInventory.Proofs.Saved
/-!
# Current elements

An element whose version counts as the expected one stays as it is, and so does a
derived one: `IsCurrent`. A document of nothing else passes through unchanged,
whatever the merger is (`Inventory.reconcile_current`).
-/

namespace TemplateInventory

/-! ## The version that counts -/

/-- The first element of a wrapper that has a version. -/
def firstVersioned (all : List Selected) (wrapper : Nat) : Option Selected :=
  all.find? fun t => t.wrapper == wrapper && t.element.hasAttr Element.versionAttr

section
variable {all : List Selected} {expected v : Int} {s t : Selected} {wrapper : Nat}

/-- An element without a version does not get another one than zero. -/
theorem Element.hasAttr_of_version {e : Element} (hv : e.version 0 = .ok v) (hne : v ≠ 0) :
    e.hasAttr versionAttr = true := by
  cases hattr : e.hasAttr versionAttr with
  | true => rfl
  | false =>
    rw [version_of_not_hasAttr hattr] at hv
    cases hv
    exact absurd rfl hne

theorem firstVersioned_some (h : firstVersioned all wrapper = some t) :
    t ∈ all ∧ t.wrapper = wrapper ∧ t.element.hasAttr Element.versionAttr = true := by
  have hfound := List.find?_some h
  rw [Bool.and_eq_true, beq_iff_eq] at hfound
  exact ⟨List.mem_of_find?_eq_some h, hfound⟩

theorem firstVersioned_none (h : firstVersioned all wrapper = none) (ht : t ∈ all)
    (hw : t.wrapper = wrapper) : t.element.hasAttr Element.versionAttr = false := by
  have hnot := List.find?_eq_none.1 h t ht
  simpa [hw] using hnot

/-- In shipped data an element without a version has the expected one. -/
theorem effectiveVersion_shipped (all : List Selected) (expected : Int) (s : Selected) :
    effectiveVersion all expected false s = s.element.version expected := by
  unfold effectiveVersion
  simp only [Bool.false_eq_true, if_false, and_false]
  split <;> simp [*]

theorem effectiveVersion_own (hv : s.element.version 0 = .ok v) (hne : v ≠ 0) :
    effectiveVersion all expected true s = .ok v := by
  unfold effectiveVersion
  simp only [if_true, hv, hne, false_and, if_false]

/-- In user data an element without a version has that of its wrapper. -/
theorem effectiveVersion_borrowed (hv : s.element.version 0 = .ok 0) :
    effectiveVersion all expected true s = match firstVersioned all s.wrapper with
      | some t => t.element.version 0
      | none => .ok 0 := by
  unfold effectiveVersion
  simp only [if_true, hv, true_and]
  rfl

end

/-! ## Current elements -/

/-- Whether an element of a document stays as it is. -/
def IsCurrent (all : List Selected) (expected : Int) (isUser : Bool) (s : Selected) : Prop :=
  ∃ v, effectiveVersion all expected isUser s = .ok v ∧
    (v = expected ∨ s.element.base.isSome = true)

/-! ## Elements written alike -/

section
variable {seen : List (List Char)} {selected : List Selected} {s : Selected}

/-- What counts is selected, and is not written like what was seen before. -/
theorem mem_firstOfEachForm (h : s ∈ firstOfEachForm seen selected) :
    s ∈ selected ∧ Xml.compact s.element ∉ seen := by
  induction selected generalizing seen with
  | nil => cases h
  | cons t rest ih =>
    simp only [firstOfEachForm] at h
    split at h
    · exact ⟨List.mem_cons_of_mem t (ih h).1, (ih h).2⟩
    · next ht =>
      rcases List.mem_cons.1 h with rfl | h
      · exact ⟨List.mem_cons_self, ht⟩
      · exact ⟨List.mem_cons_of_mem t (ih h).1, fun hs => (ih h).2 (List.mem_cons_of_mem _ hs)⟩

theorem mem_of_mem_firstOfEachForm (h : s ∈ firstOfEachForm seen selected) : s ∈ selected :=
  (mem_firstOfEachForm h).1

/-- Later elements count with those before them seen. -/
theorem firstOfEachForm_append (seen : List (List Char)) (selected later : List Selected) :
    ∃ seen', (∀ form, form ∈ seen' ↔ form ∈ seen ∨ ∃ s ∈ selected, Xml.compact s.element = form) ∧
      firstOfEachForm seen (selected ++ later) =
        firstOfEachForm seen selected ++ firstOfEachForm seen' later := by
  induction selected generalizing seen with
  | nil => exact ⟨seen, by simp, rfl⟩
  | cons s rest ih =>
    by_cases hs : Xml.compact s.element ∈ seen
    · simp only [List.cons_append, firstOfEachForm, if_pos hs]
      obtain ⟨seen', hseen, he⟩ := ih seen
      refine ⟨seen', fun form => (hseen form).trans ?_, he⟩
      simp only [List.mem_cons, exists_eq_or_imp]
      exact ⟨fun h => h.imp_right .inr, fun h => h.elim .inl fun h => h.elim (· ▸ .inl hs) .inr⟩
    · simp only [List.cons_append, firstOfEachForm, if_neg hs]
      obtain ⟨seen', hseen, he⟩ := ih (Xml.compact s.element :: seen)
      refine ⟨seen', fun form => (hseen form).trans ?_, by rw [he]⟩
      simp only [List.mem_cons, exists_eq_or_imp, eq_comm (a := form), or_assoc, or_left_comm]

end

/-! ## One element after the other -/

/-- Whether an element survives other than as it was. -/
def Verdict.changes : Verdict → Bool
  | .restamped _ => true
  | .merged _ => true
  | .kept _ => false
  | .dropped => false

/-- What elements have become with one more. -/
def Reconciled.and (r : Reconciled) (verdict : Verdict) : Reconciled :=
  ⟨r.survivors ++ verdict.handles, r.changed || verdict.changes⟩

namespace Inventory

section
variable {i i' : Inventory} {all selected later : List Selected} {expected : Int} {isUser : Bool}
  {s : Selected} {r r' : Reconciled} {verdict : Verdict}

theorem judgeAll_cons_ok (h : i.judgeAll all expected isUser r (s :: later) = (.ok r', i')) :
    ∃ verdict i₁, i.judge all expected isUser s = (.ok verdict, i₁) ∧
      i₁.judgeAll all expected isUser (r.and verdict) later = (.ok r', i') := by
  rw [judgeAll] at h
  rcases hj : i.judge all expected isUser s with ⟨_ | verdict, i₁⟩
  · rw [hj] at h
    cases h
  · rw [hj] at h
    refine ⟨verdict, i₁, rfl, h ▸ ?_⟩
    cases verdict <;> simp [Reconciled.and, Verdict.handles, Verdict.changes]

theorem judgeAll_append_ok
    (h : i.judgeAll all expected isUser r (selected ++ later) = (.ok r', i')) :
    ∃ r₁ i₁, i.judgeAll all expected isUser r selected = (.ok r₁, i₁) ∧
      i₁.judgeAll all expected isUser r₁ later = (.ok r', i') := by
  induction selected generalizing i r with
  | nil => exact ⟨r, i, rfl, h⟩
  | cons s rest ih =>
    rw [List.cons_append, judgeAll] at h
    rw [judgeAll]
    rcases hj : i.judge all expected isUser s with ⟨_ | verdict, i₁⟩
    · rw [hj] at h
      cases h
    · rw [hj] at h
      exact ih h

/-- What becomes of an element, with what each verdict depends on. -/
inductive Becomes (i : Inventory) (all : List Selected) (expected : Int) (isUser : Bool)
    (s : Selected) : Verdict → Prop
  | kept (hs : IsCurrent all expected isUser s) :
    Becomes i all expected isUser s (.kept (.fresh i.holdings.nextSerial s.element))
  | dropped (hs : ¬ IsCurrent all expected isUser s) : Becomes i all expected isUser s .dropped
  | restamped (hs : ¬ IsCurrent all expected isUser s)
    (hn : s.element.name = i.conventions.groupingElement) : Becomes i all expected isUser s
      (.restamped (.fresh i.holdings.nextSerial
        (s.element.setAttr Element.versionAttr (toString expected))))
  | merged (hs : ¬ IsCurrent all expected isUser s) (upgraded : Element) (x : Handle)
    (hx : x.element = if isUser then upgraded.setAttr Element.versionAttr (toString expected)
      else upgraded)
    (hmerger : i.merger.isSome = true) (hcurrent : (i.counterpart s.element).1.isSome = true) :
    Becomes i all expected isUser s (.merged x)

theorem becomes_judge (h : i.judge all expected isUser s = (.ok verdict, i')) :
    (∃ v, effectiveVersion all expected isUser s = .ok v) ∧
      Becomes i all expected isUser s verdict := by
  unfold judge at h
  cases hv : effectiveVersion all expected isUser s with
  | error e => rw [hv] at h; cases h
  | ok v =>
    rw [hv] at h
    refine ⟨⟨v, rfl⟩, ?_⟩
    by_cases hkept : v = expected ∨ s.element.base.isSome = true
    · simp only [if_pos hkept] at h
      cases h
      exact .kept ⟨v, hv, hkept⟩
    · have hnot : ¬ IsCurrent all expected isUser s := by
        rintro ⟨v', hv', h'⟩
        cases hv.symm.trans hv'
        exact hkept h'
      simp only [if_neg hkept] at h
      cases hm : i.merger with
      | none =>
        rw [hm] at h
        cases h
        exact .dropped hnot
      | some merger =>
        simp only [hm] at h
        split at h
        · next hn =>
          cases h
          exact .restamped hnot hn
        · unfold mergeOutdated at h
          rcases hc : i.counterpart s.element with ⟨_ | ⟨current, suffix⟩, i₁⟩
          · rw [hc] at h
            cases h
            exact .dropped hnot
          · rw [hc] at h
            simp only at h
            cases hu : merger current.element s.element i₁.elements suffix with
            | error e => rw [hu] at h; cases h
            | ok upgraded =>
              rw [hu] at h
              cases h
              exact .merged hnot upgraded _ rfl (by rw [hm]; rfl) (by rw [hc]; rfl)

/-- What elements become is added to the survivors in their order, at most one for
each. `P` is what judging keeps of the inventory. -/
theorem judgeAll_ok {P : Inventory → Prop} (hP : ∀ j s, P j → P (j.judge all expected isUser s).2)
    (hi : P i) (h : i.judgeAll all expected isUser r selected = (.ok r', i')) :
    P i' ∧ (r.changed = true → r'.changed = true) ∧
      (∀ s ∈ selected, ∃ v, effectiveVersion all expected isUser s = .ok v) ∧
      ∃ more, r'.survivors = r.survivors ++ more ∧ more.length ≤ selected.length ∧
        ∀ x ∈ more, ∃ s ∈ selected, ∃ j verdict, P j ∧ Becomes j all expected isUser s verdict ∧
          x ∈ verdict.handles := by
  induction selected generalizing i r with
  | nil =>
    cases h
    exact ⟨hi, id, by simp, [], by simp⟩
  | cons s rest ih =>
    obtain ⟨verdict, i₁, hj, hrest⟩ := judgeAll_cons_ok h
    obtain ⟨hversion, hbecomes⟩ := becomes_judge hj
    have hi₁ := hP i s hi
    rw [hj] at hi₁
    obtain ⟨hlast, hchanged, hversions, more, hmore, hlength, hfrom⟩ := ih hi₁ hrest
    refine ⟨hlast, fun hc => hchanged (by simp [Reconciled.and, hc]),
      List.forall_mem_cons.2 ⟨hversion, hversions⟩, verdict.handles ++ more,
      by rw [hmore, Reconciled.and, List.append_assoc], ?_, fun x hx => ?_⟩
    · have hone : verdict.handles.length ≤ 1 := by cases verdict <;> simp [Verdict.handles]
      rw [List.length_append, List.length_cons]
      omega
    · rcases List.mem_append.1 hx with hx | hx
      · exact ⟨s, List.mem_cons_self, i, verdict, hi, hbecomes, hx⟩
      · obtain ⟨t, ht, hx⟩ := hfrom x hx
        exact ⟨t, List.mem_cons_of_mem s ht, hx⟩

/-- The versions of a document that was reconciled could be read. -/
theorem effectiveVersion_of_reconcile (h : i.reconcile selected expected isUser = (.ok r, i'))
    (hs : s ∈ firstOfEachForm [] selected) :
    ∃ v, effectiveVersion selected expected isUser s = .ok v :=
  (judgeAll_ok (P := fun _ => True) (fun _ _ _ => trivial) trivial h).2.2.1 s hs

/-! ## Documents that pass through -/

theorem judge_current (hs : IsCurrent all expected isUser s) : i.judge all expected isUser s =
    (.ok (.kept (.fresh i.holdings.nextSerial s.element)), (i.mint s.element).2) := by
  obtain ⟨v, hv, hkept⟩ := hs
  unfold judge
  simp only [hv, if_pos hkept]
  rfl

theorem judgeAll_current (h : ∀ s ∈ selected, IsCurrent all expected isUser s) :
    ∃ handles n, i.judgeAll all expected isUser r selected =
        (.ok ⟨r.survivors ++ handles, r.changed⟩,
          { i with holdings := { i.holdings with nextSerial := n } }) ∧
      handles.map Handle.element = selected.map Selected.element := by
  induction selected generalizing i r with
  | nil => exact ⟨[], i.holdings.nextSerial, by rw [judgeAll, List.append_nil], rfl⟩
  | cons s rest ih =>
    obtain ⟨handles, n, hrest, helements⟩ := ih (i := (i.mint s.element).2)
      (r := { r with survivors := r.survivors ++ [.fresh i.holdings.nextSerial s.element] })
      fun t ht => h t (List.mem_cons_of_mem s ht)
    refine ⟨.fresh i.holdings.nextSerial s.element :: handles, n, ?_, ?_⟩
    · rw [judgeAll, judge_current (h s List.mem_cons_self)]
      simp only [hrest, List.append_assoc, List.cons_append, List.nil_append]
      rfl
    · rw [List.map_cons, helements, List.map_cons]
      rfl

/-- Whether elements of a document, without those written like an earlier one, pass
through: they survive as they are, and nothing else happens than that numbers are taken
for them. -/
def PassesThrough (i : Inventory) (selected : List Selected) (expected : Int) (isUser : Bool) :
    Prop :=
  ∃ handles n, i.reconcile selected expected isUser =
      (.ok ⟨handles, false⟩, { i with holdings := { i.holdings with nextSerial := n } }) ∧
    handles.map Handle.element = (firstOfEachForm [] selected).map Selected.element

/-- A document of current elements passes through. -/
theorem reconcile_current
    (h : ∀ s ∈ firstOfEachForm [] selected, IsCurrent selected expected isUser s) :
    i.PassesThrough selected expected isUser :=
  judgeAll_current (r := ⟨[], false⟩) h

/-- And no other one does. -/
theorem isCurrent_of_judgeAll (h : i.judgeAll all expected isUser r selected = (.ok r', i'))
    (hlength : r'.survivors.length = r.survivors.length + selected.length)
    (hchanged : r'.changed = false) : ∀ s ∈ selected, IsCurrent all expected isUser s := by
  induction selected generalizing i r with
  | nil => simp
  | cons s rest ih =>
    obtain ⟨verdict, i₁, hj, hrest⟩ := judgeAll_cons_ok h
    obtain ⟨-, hkeep, -, more, hmore, hle, -⟩ :=
      judgeAll_ok (P := fun _ => True) (fun _ _ _ => trivial) trivial hrest
    have hcount : verdict.handles.length + more.length = 1 + rest.length := by
      have hall := congrArg List.length hmore
      rw [hlength, Reconciled.and, List.length_append, List.length_append, List.length_cons] at hall
      omega
    have hquiet : verdict.changes = false := by
      cases hc : verdict.changes with
      | false => rfl
      | true => rw [hkeep (by simp [Reconciled.and, hc])] at hchanged; cases hchanged
    obtain ⟨-, hbecomes⟩ := becomes_judge hj
    cases hbecomes with
    | dropped => simp [Verdict.handles] at hcount; omega
    | restamped => cases hquiet
    | merged => cases hquiet
    | kept hs =>
      refine List.forall_mem_cons.2 ⟨hs, ih hrest ?_⟩
      rw [hlength]
      simp [Reconciled.and, Verdict.handles]
      omega

theorem passesThrough_iff : i.PassesThrough selected expected isUser ↔
    ∀ s ∈ firstOfEachForm [] selected, IsCurrent selected expected isUser s := by
  refine ⟨fun ⟨handles, n, hr, helements⟩ => ?_, reconcile_current⟩
  refine isCurrent_of_judgeAll (r := ⟨[], false⟩) hr ?_ rfl
  simpa using congrArg List.length helements

end

end Inventory

end TemplateInventory
