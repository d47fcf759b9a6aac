import TemplateInventory.Proofs.Agreement
/-!
# What happens to holdings

Every operation of an inventory comes down to a few events: an element is made,
added or put as a grouping element, a key is looked up, or everything is cleared.
`Leads g P h h'` says that events that meet `P` lead from `h` to `h'`, where `g`
is the name of grouping elements.

Coherence is kept by every event (`Leads.coherent`), and for the names other than
`g` the holdings keep agreeing with a catalog (`Leads.agrees`), which follows the
events by steps of its own (`Catalog.Follows`).
-/

namespace TemplateInventory

/-- Something that happens to holdings. -/
inductive Event where
  | made
  | cleared
  | added (node : Handle)
  /-- A grouping element is put, in the place of another one or at the end. -/
  | grouped (extant : Option Handle) (node : Handle)
  | found (store : StoreId) (name : String) (values : List (Option String))
  | resolved (name : String) (values : List (Option String))

namespace Holdings

/-- The holdings after an event. -/
def apply (h : Holdings) : Event → Holdings
  | .made => { h with nextSerial := h.nextSerial + 1 }
  | .cleared => h.clear
  | .added node => (h.add node).2
  | .grouped extant node => { h with main := h.main.replace extant node }
  | .found s name values => (h.findIn s name values).2
  | .resolved name values => (h.resolve [] name values).2

/-- Whether a handle is one that was made, and the thing that is seen under its
identity. -/
def Admits (h : Holdings) (node : Handle) : Prop :=
  node.id.serial < h.nextSerial ∧ ∀ x, h.Sees x → x.id = node.id → x.element = node.element

/-- Whether an event can happen, when grouping elements have the name `g`. -/
def Takes (g : String) (h : Holdings) : Event → Prop
  | .made => True
  | .cleared => True
  | .added node => h.Admits node
  | .grouped extant node => h.Admits node ∧ node.element.name = g ∧
      ∀ x, extant = some x → x ∈ h.main.handles ∧ x.element.name = g
  | .found _ name values => values.length = (h.schema.attrsFor name).length
  | .resolved name values => values.length = (h.schema.attrsFor name).length

section
variable {g : String} {p : String → Bool} {h h' h₁ h₂ h₃ : Holdings} {c : Catalog} {e : Event}
  {outside : List Handle} {node x : Handle}

theorem Coherent.admits (hc : Coherent outside h) (hx : node ∈ outside ∨ h.Sees node) :
    h.Admits node :=
  ⟨hc.made node hx, fun _ hy he => hc.agree _ _ (.inr hy) hx he⟩

theorem Admits.coherent (hn : h.Admits node) (hc : Coherent [] h) : Coherent [node] h := by
  have hcase : ∀ y, y ∈ [node] ∨ h.Sees y → y = node ∨ h.Sees y := fun y hy =>
    hy.imp_left List.mem_singleton.1
  refine ⟨fun y hy => ?_, fun y z hy hz he => ?_, hc.named, hc.identified⟩
  · rcases hcase y hy with rfl | hy
    · exact hn.1
    · exact hc.made y (.inr hy)
  · rcases hcase y hy with rfl | hy' <;> rcases hcase z hz with rfl | hz'
    · rfl
    · exact (hn.2 z hz' he.symm).symm
    · exact hn.2 y hy' he
    · exact hc.agree y z (.inr hy') (.inr hz') he

@[simp] theorem schema_apply (h : Holdings) (e : Event) : (h.apply e).schema = h.schema := by
  cases e with
  | added node => exact schema_add h node
  | found s name values => exact schema_findIn h s name values
  | resolved name values => exact schema_resolve h [] name values
  | _ => rfl

/-! ## Invariants -/

theorem Coherent.grouped (hc : Coherent (node :: outside) h) (extant : Option Handle) :
    Coherent (node :: outside) (h.apply (.grouped extant node)) :=
  hc.replace .main _ (.inl List.mem_cons_self) nofun

theorem Coherent.apply (hc : Coherent [] h) (ht : h.Takes g e) : Coherent [] (h.apply e) := by
  cases e with
  | made => exact (hc.make (x := .fresh h.nextSerial default) rfl).leave
  | cleared => exact hc.clear
  | added node => exact (ht.coherent hc).add.leave
  | grouped extant node => exact ((ht.1.coherent hc).grouped extant).leave
  | found s name values => exact hc.findIn
  | resolved name values => exact hc.resolve

theorem Beside.grouped {extant : Option Handle} (hc : Coherent [] h)
    (ht : h.Takes g (.grouped extant node)) (hg : p g = false) :
    Beside p h (h.apply (.grouped extant node)) := by
  refine Beside.replace .main _ (fun x hx y hy he => ?_) (ht.2.1 ▸ hg)
  obtain ⟨hmem, hname⟩ := ht.2.2 x hx
  rw [hc.element_eq (.inr (.inl ⟨.main, hmem⟩)) (.inr (.inl ⟨.main, hy⟩)) he, hname, hg]

theorem Backed.apply (hb : Backed h) (hc : Coherent [] h) (ht : h.Takes g e) :
    Backed (h.apply e) := by
  cases e with
  | made => exact hb
  | cleared => exact backed_clear h
  | added node => exact hb.add (ht.coherent hc)
  | grouped extant node =>
    exact hb.of_beside (.grouped hc ht (by simp)) ⟨.main, node, Store.mem_replace_self _, ht.2.1⟩
  | found s name values => exact hb.findIn
  | resolved name values => exact hb.resolve hc

end

end Holdings

/-! ## How a catalog follows -/

/-- What an event can do to a catalog; at names that the catalog does not have it
only takes numbers. -/
inductive Catalog.Follows (c : Catalog) : Event → Catalog → Prop
  | aside (e : Event) (n : Nat) : c.Follows e { c with nextSerial := n }
  | cleared : c.Follows .cleared { Catalog.empty c.schema with nextSerial := c.nextSerial }
  | added (node : Handle) : c.Follows (.added node) (c.add node).2
  | resolved (name : String) (values : List (Option String)) :
      c.Follows (.resolved name values) (c.resolve [] (.of name values .main)).2

namespace Holdings

section
variable {g : String} {p : String → Bool} {h h' h₁ h₂ h₃ : Holdings} {c : Catalog} {e : Event}
  {outside : List Handle} {node x : Handle}

theorem Agrees.clear (ha : Agrees p h c) :
    Agrees p h.clear { Catalog.empty c.schema with nextSerial := c.nextSerial } :=
  ⟨ha.schema, ha.serial, fun s => by cases s <;> rfl, fun k _ => by cases hk : k.store <;> rfl⟩

/-- A catalog that agrees can follow, and agrees again. -/
theorem Agrees.apply (ha : Agrees p h c) (hc : Coherent [] h) (ht : h.Takes g e)
    (hg : p g = false) : ∃ c', c.Follows e c' ∧ Agrees p (h.apply e) c' := by
  -- What happens to other names passes the catalog by, except that numbers are taken.
  have haside : Beside p h (h.apply e) → ∃ c', c.Follows e c' ∧ Agrees p (h.apply e) c' :=
    fun hb => ⟨_, .aside e _, ha.beside hb⟩
  cases e with
  | made => exact haside (Beside.serial _)
  | cleared => exact ⟨_, .cleared, ha.clear⟩
  | added node =>
    cases hp : p node.element.name with
    | false => exact haside (.add (ht.coherent hc) hp)
    | true => exact ⟨_, .added node, (ha.add (ht.coherent hc) hp).2⟩
  | grouped extant node => exact haside (.grouped hc ht hg)
  | found s name values =>
    cases hp : p name with
    | false => exact haside (.findIn hp)
    | true => exact ⟨_, .aside _ c.nextSerial, (ha.findIn hp ht).2⟩
  | resolved name values =>
    cases hp : p name with
    | false => exact haside (.resolve hc hp)
    | true => exact ⟨_, .resolved name values, (ha.resolve hc hp ht).2⟩

/-! ## Runs of events -/

/-- Events that meet `P` lead from `h` to the holdings. -/
inductive Leads (g : String) (P : Holdings → Event → Prop) (h : Holdings) : Holdings → Prop
  | refl : Leads g P h h
  | step {h' : Holdings} {e : Event} (hl : Leads g P h h') (he : P h' e) (ht : h'.Takes g e) :
      Leads g P h (h'.apply e)

namespace Leads
variable {P Q : Holdings → Event → Prop}

theorem one (he : P h e) (ht : h.Takes g e) : Leads g P h (h.apply e) := .step .refl he ht

theorem trans (hl : Leads g P h₁ h₂) (hl' : Leads g P h₂ h₃) : Leads g P h₁ h₃ := by
  induction hl' with
  | refl => exact hl
  | step _ he ht ih => exact ih.step he ht

theorem mono (hl : Leads g P h h') (hPQ : ∀ h e, P h e → Q h e) : Leads g Q h h' := by
  induction hl with
  | refl => exact .refl
  | step _ he ht ih => exact ih.step (hPQ _ _ he) ht

theorem schema (hl : Leads g P h h') : h'.schema = h.schema := by
  induction hl with
  | refl => rfl
  | step _ _ _ ih => rw [schema_apply, ih]

theorem coherent (hl : Leads g P h h') (hc : Coherent [] h) : Coherent [] h' := by
  induction hl with
  | refl => exact hc
  | step _ _ ht ih => exact ih.apply ht

theorem backed (hl : Leads g P h h') (hc : Coherent [] h) (hb : Backed h) : Backed h' := by
  induction hl with
  | refl => exact hb
  | step hl _ ht ih => exact ih.apply (hl.coherent hc) ht

/-- What the steps of a catalog keep, it has after the run. -/
theorem agrees {I : Catalog → Prop} (hl : Leads g P h h') (hc : Coherent [] h)
    (hg : p g = false) (ha : Agrees p h c) (hi : I c)
    (hstep : ∀ h' c e c', P h' e → c.schema = h'.schema → c.Follows e c' → I c → I c') :
    ∃ c', Agrees p h' c' ∧ I c' := by
  induction hl with
  | refl => exact ⟨c, ha, hi⟩
  | step hl he ht ih =>
    obtain ⟨c', ha', hi'⟩ := ih
    obtain ⟨c'', hf, ha''⟩ := ha'.apply (hl.coherent hc) ht hg
    exact ⟨c'', ha'', hstep _ c' _ c'' he ha'.schema hf hi'⟩

theorem exists_agrees (hl : Leads g P h h') (hc : Coherent [] h) (hg : p g = false)
    (ha : Agrees p h c) : ∃ c', Agrees p h' c' := by
  obtain ⟨c', ha', -⟩ := hl.agrees (I := fun _ => True) hc hg ha trivial
    fun _ _ _ _ _ _ _ _ => trivial
  exact ⟨c', ha'⟩

end Leads

end

end Holdings

end TemplateInventory
