import TemplateInventory.Proofs.Edits
/-!
# The latest of each class

Elements that are saved into one wrapper, one after the other, each take the place of the
earlier one of their name and key values. So the wrapper holds of each class just what
was saved last (`HoldsLatest.latest`). Beside these there are only the grouping elements
that were saved along, one for each value of the grouping attribute.

One save takes away the first child of the element's class, and the first grouping
element of its value. What that does to the children of a class is an equation
(`ofClass_savedChildren`), and so is what it does to the values of the grouping elements
(`groupingValues_savedChildren`).
-/

namespace TemplateInventory

/-- An element that was saved, as it was before it got its version, with the name of its
file and the grouping element that was saved along. -/
structure Filing where
  source : Element
  name : String
  grouping : Option Element
  deriving DecidableEq

/-! ## Lists without their first -/

section
variable {α : Type} {p q : α → Bool}

theorem filter_eraseP_of_not (h : ∀ a, p a = true → q a = false) (l : List α) :
    (l.eraseP p).filter q = l.filter q := by
  induction l with
  | nil => rfl
  | cons a l ih =>
    by_cases ha : p a = true
    · rw [List.eraseP_cons_of_pos ha, List.filter_cons_of_neg (by simp [h a ha])]
    · rw [List.eraseP_cons_of_neg ha, List.filter_cons, List.filter_cons, ih]

theorem filter_eraseP_self (p : α → Bool) (l : List α) : (l.eraseP p).filter p = (l.filter p).tail := by
  induction l with
  | nil => rfl
  | cons a l ih =>
    by_cases ha : p a = true
    · rw [List.eraseP_cons_of_pos ha, List.filter_cons_of_pos ha, List.tail_cons]
    · rw [List.eraseP_cons_of_neg ha, List.filter_cons_of_neg ha, List.filter_cons_of_neg ha, ih]

end

namespace Inventory

/-- The element of a filing as it stands in the file. -/
def filed (i : Inventory) (f : Filing) : Element := i.stampVersion f.source

/-- The children of a wrapper that filings went into. -/
def contentOf (i : Inventory) (filings : List Filing) : List Element :=
  filings.foldl (fun children f => i.savedChildren (i.filed f) f.grouping children) []

/-- The children of one class. -/
def ofClass (i : Inventory) (k : String × List (Option String)) (children : List Element) :
    List Element :=
  children.filter fun c => i.schema.classOf c = k

/-- The values of the grouping elements among children. -/
def groupingValues (i : Inventory) (children : List Element) : List (Option String) :=
  (children.filter fun c => c.name = i.conventions.groupingElement).map
    (·.attr i.conventions.groupingAttr)

section
variable {i : Inventory} {e : Element} {grouping : Option Element} {children : List Element}
  {k : String × List (Option String)} {filings : List Filing} {f : Filing}

theorem ofClass_append (i : Inventory) (k : String × List (Option String)) (cs cs' : List Element) :
    i.ofClass k (cs ++ cs') = i.ofClass k cs ++ i.ofClass k cs' := List.filter_append ..

theorem ofClass_eq_nil {cs : List Element} (h : ∀ c ∈ cs, i.schema.classOf c ≠ k) :
    i.ofClass k cs = [] := List.filter_eq_nil_iff.2 (by simpa using h)

theorem ofClass_singleton (i : Inventory) (c : Element) : i.ofClass (i.schema.classOf c) [c] = [c] := by
  simp [ofClass]

/-- Of the class of an element that is saved, the first is taken away; it is the last
then. The other classes stay as they are. -/
theorem ofClass_savedChildren (hk : k.1 ≠ i.conventions.groupingElement)
    (hg : ∀ g ∈ grouping, g.name = i.conventions.groupingElement) :
    i.ofClass k (i.savedChildren e grouping children) =
      if i.schema.classOf e = k then (i.ofClass k children).tail ++ [e]
      else i.ofClass k children := by
  have hgroup : ∀ c : Element, c.name = i.conventions.groupingElement → i.schema.classOf c ≠ k := by
    rintro c hc rfl
    exact hk hc
  have hself : i.ofClass k
      (withoutFirst (fun c => i.schema.classOf c = i.schema.classOf e) children ++ [e]) =
        if i.schema.classOf e = k then (i.ofClass k children).tail ++ [e]
        else i.ofClass k children := by
    rw [ofClass_append]
    by_cases he : i.schema.classOf e = k
    · subst he
      rw [if_pos rfl, ofClass_singleton, ofClass, withoutFirst, filter_eraseP_self]
      rfl
    · have hnone : i.ofClass k [e] = [] := ofClass_eq_nil (by simpa using he)
      rw [if_neg he, hnone, List.append_nil, ofClass, withoutFirst,
        filter_eraseP_of_not fun c hc => by rw [of_decide_eq_true hc]; simpa using he]
      rfl
  rw [← hself]
  cases grouping with
  | none => rfl
  | some g =>
    have hnone : i.ofClass k [g] = [] := ofClass_eq_nil (by simpa using hgroup g (hg g rfl))
    rw [savedChildren, ← List.singleton_append, ← List.append_assoc, ofClass_append, ofClass_append,
      hnone, List.append_nil, ofClass_append]
    congr 1
    exact filter_eraseP_of_not (fun c hc => by
      simpa using hgroup c (of_decide_eq_true (Bool.and_eq_true_iff.1 hc).1)) _

/-- The value of a grouping element that is saved along moves to the end, so that it
stays the only one. -/
theorem nodup_groupingValues_savedChildren (he : e.name ≠ i.conventions.groupingElement)
    (hg : ∀ g ∈ grouping, g.name = i.conventions.groupingElement)
    (hnodup : (i.groupingValues children).Nodup) :
    (i.groupingValues (i.savedChildren e grouping children)).Nodup := by
  have hothers : i.groupingValues
      (withoutFirst (fun c => i.schema.classOf c = i.schema.classOf e) children) =
        i.groupingValues children := by
    rw [groupingValues, withoutFirst, filter_eraseP_of_not fun c hc => ?_]
    · rfl
    · have hname : c.name = e.name := congrArg Prod.fst (of_decide_eq_true hc)
      simpa [hname] using he
  cases grouping with
  | none =>
    have hvalues : i.groupingValues (i.savedChildren e none children) = i.groupingValues children := by
      rw [← hothers]
      simp [savedChildren, groupingValues, he]
    rwa [hvalues]
  | some g =>
    let value := g.attr i.conventions.groupingAttr
    have hvalues : i.groupingValues (i.savedChildren e (some g) children) =
        (i.groupingValues children).erase value ++ [value] := by
      rw [← hothers, List.erase_eq_eraseP', groupingValues, groupingValues, List.eraseP_map,
        List.eraseP_filter]
      simp [savedChildren, he, hg g rfl, withoutFirst, Bool.and_comm, value]
    rw [hvalues, List.nodup_append]
    refine ⟨hnodup.erase value, by simp, fun a ha b hb => ?_⟩
    rintro rfl
    obtain rfl := List.mem_singleton.1 hb
    exact hnodup.not_mem_erase ha

/-! ## One wrapper -/

/-- Whether the children of a wrapper are those that filings lead to: of each class the
last, as it was filed, and beside these only grouping elements that were saved along, no
two with one value of the grouping attribute. -/
structure HoldsLatest (i : Inventory) (filings : List Filing) (children : List Element) : Prop where
  latest : ∀ k : String × List (Option String), k.1 ≠ i.conventions.groupingElement →
    i.ofClass k children =
      ((filings.filter fun f => i.schema.classOf (i.filed f) = k).getLast?.map i.filed).toList
  along : ∀ c ∈ children, c.name = i.conventions.groupingElement →
    ∃ f ∈ filings, f.grouping = some c
  distinct : (i.groupingValues children).Nodup

/-- Whether a filing is of an ordinary element, and of a grouping element beside it. -/
structure IsOrdinary (i : Inventory) (f : Filing) : Prop where
  source : f.source.name ≠ i.conventions.groupingElement
  grouping : ∀ g ∈ f.grouping, g.name = i.conventions.groupingElement

theorem IsOrdinary.filed (hf : i.IsOrdinary f) :
    (i.filed f).name ≠ i.conventions.groupingElement :=
  (name_stampVersion i f.source).symm ▸ hf.source

/-- One more filing is the last of its class. -/
theorem HoldsLatest.save (h : i.HoldsLatest filings children) (hf : i.IsOrdinary f) :
    i.HoldsLatest (filings ++ [f]) (i.savedChildren (i.filed f) f.grouping children) where
  latest k hk := by
    rw [ofClass_savedChildren hk hf.grouping, List.filter_append, h.latest k hk]
    by_cases he : i.schema.classOf (i.filed f) = k
    · rw [if_pos he, List.filter_cons_of_pos (by simpa using he), List.filter_nil,
        List.getLast?_concat]
      cases (filings.filter fun f => i.schema.classOf (i.filed f) = k).getLast? <;> rfl
    · rw [if_neg he, List.filter_cons_of_neg (by simpa using he), List.filter_nil, List.append_nil]
  along c hc hname := by
    obtain ⟨kept, hsaved, hkept⟩ := savedChildren_eq i (i.filed f) f.grouping children
    rw [hsaved, savedTogether, List.mem_append, List.mem_cons, Option.mem_toList] at hc
    rcases hc with hc | rfl | hc
    · obtain ⟨g, hg, hgrouping⟩ := h.along c (List.mem_of_mem_eraseP (hkept c hc)) hname
      exact ⟨g, List.mem_append_left _ hg, hgrouping⟩
    · exact absurd hname hf.filed
    · exact ⟨f, List.mem_append_right _ List.mem_cons_self, hc⟩
  distinct := nodup_groupingValues_savedChildren hf.filed hf.grouping h.distinct

/-- So it is after any number of filings. -/
theorem HoldsLatest.saveAll {more : List Filing} (h : i.HoldsLatest filings children)
    (hf : ∀ f ∈ more, i.IsOrdinary f) :
    i.HoldsLatest (filings ++ more)
      (more.foldl (fun children f => i.savedChildren (i.filed f) f.grouping children) children) := by
  induction more generalizing filings children with
  | nil => rwa [List.append_nil]
  | cons f more ih =>
    obtain ⟨hf, hmore⟩ := List.forall_mem_cons.1 hf
    rw [List.append_cons]
    exact ih (h.save hf) hmore

/-- What filings that go into one wrapper lead to. -/
theorem holdsLatest_contentOf (hf : ∀ f ∈ filings, i.IsOrdinary f) :
    i.HoldsLatest filings (i.contentOf filings) := by
  have hnone : i.HoldsLatest [] [] := ⟨fun _ _ => rfl, by simp, List.nodup_nil⟩
  exact hnone.saveAll hf

/-- Every child is the latest of its class, or a grouping element that was saved along. -/
theorem HoldsLatest.mem (h : i.HoldsLatest filings children) {c : Element} (hc : c ∈ children) :
    (∃ f ∈ filings, i.filed f = c) ∨ ∃ f ∈ filings, f.grouping = some c := by
  by_cases hname : c.name = i.conventions.groupingElement
  · exact .inr (h.along c hc hname)
  · have hmem : c ∈ i.ofClass (i.schema.classOf c) children := List.mem_filter.2 ⟨hc, by simp⟩
    rw [h.latest (i.schema.classOf c) hname, Option.mem_toList] at hmem
    obtain ⟨f, hf, rfl⟩ := Option.map_eq_some_iff.1 hmem
    exact .inl ⟨f, (List.mem_filter.1 (List.mem_of_getLast? hf)).1, rfl⟩

end

end Inventory

end TemplateInventory
