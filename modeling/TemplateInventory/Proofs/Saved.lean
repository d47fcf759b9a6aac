import TemplateInventory.Proofs.Contents
import TemplateInventory.Proofs.Loading
import TemplateInventory.Proofs.RoundTrip
import TemplateInventory.Proofs.Saving
/-!
# Reading a saved document

In a file that was not there an element is saved alone or with its grouping
element, inside the wrappers of the selection: `Selection.enclosing`. Such a
document is printable if its elements and the wrapper names are, and its elements
are selected as they were saved (`select_enclosing`).

Its version brings a saved element back (`effectiveVersion_saved`): the version is
read as it was written (`Text.read32_toString`), and an element without one is
current unless the grouping element saved with it has another. So reconciling
drops at most the grouping element (`reconcile_saved`).

What comes back is added with the answers that the element alone has
(`addRead_saved`): the grouping element takes the place of itself.
-/

namespace TemplateInventory

open Holdings

/-! ## Written numbers -/

namespace Text

theorem digitsFrom_eq_ofDigitChars (cs : List Char) (n : Nat) :
    digitsFrom n cs = Nat.ofDigitChars 10 cs n := by
  induction cs generalizing n with
  | nil => exact Nat.ofDigitChars_nil.symm
  | cons c cs ih =>
    rw [Nat.ofDigitChars_cons, Nat.mul_comm]
    exact ih (n * 10 + digitValue c)

theorem readDigits_toDigits (n : Nat) : readDigits (Nat.toDigits 10 n) = some n := by
  have hall : (Nat.toDigits 10 n).all Char.isDigit = true :=
    List.all_eq_true.2 fun c hc => Nat.isDigit_of_mem_toDigits (by decide) (by decide) hc
  simp [readDigits, Nat.toDigits_ne_nil, hall, digitsFrom_eq_ofDigitChars]

theorem toList_toString (v : Int) : (toString v).toList =
    if 0 ≤ v then Nat.toDigits 10 v.toNat else '-' :: Nat.toDigits 10 (-v).toNat := by
  rw [Int.toString_eq_repr, Int.repr_eq_if]
  split
  · rw [Nat.toList_repr]
  · rw [String.toList_append, Nat.toList_repr]
    rfl

theorem isDigit_of_mem_toString {v : Int} {c : Char} (hc : c ∈ (toString v).toList) :
    c = '-' ∨ c.isDigit = true := by
  have hdigit : ∀ {n : Nat}, c ∈ Nat.toDigits 10 n → c.isDigit = true :=
    Nat.isDigit_of_mem_toDigits (by decide) (by decide)
  rw [toList_toString] at hc
  split at hc
  · exact .inr (hdigit hc)
  · exact (List.mem_cons.1 hc).imp_right hdigit

theorem isBlank_of_isDigit {c : Char} (hc : c.isDigit = true) : isBlank c = false := by
  have hrange : 48 ≤ c.toNat ∧ c.toNat ≤ 57 := by
    simp only [Char.isDigit, Bool.and_eq_true, decide_eq_true_eq] at hc
    exact ⟨hc.1, hc.2⟩
  have hall : ∀ n < 58, 48 ≤ n → inRanges blankRanges n = false := by decide
  exact hall c.toNat (by omega) hrange.1

theorem trim_toString (v : Int) : trim (toString v) = toString v := by
  rw [trim, trimWhere_of_all, String.ofList_toList]
  intro c hc
  rcases isDigit_of_mem_toString hc with rfl | hd
  · decide
  · exact isBlank_of_isDigit hd

theorem readSigned_toString (v : Int) : readSigned (toString v).toList = some v := by
  rw [toList_toString]
  split
  · next hv =>
    obtain ⟨c, cs, hc⟩ := List.exists_cons_of_ne_nil (Nat.toDigits_ne_nil (n := v.toNat) (b := 10))
    have hdigit : c.isDigit = true :=
      Nat.isDigit_of_mem_toDigits (by decide) (by decide) (hc ▸ List.mem_cons_self)
    have hplus : c ≠ '+' := by rintro rfl; cases hdigit
    have hminus : c ≠ '-' := by rintro rfl; cases hdigit
    have hread := readDigits_toDigits v.toNat
    rw [hc] at hread ⊢
    simp [readSigned, hplus, hminus, hread]
    omega
  · simp [readSigned, readDigits_toDigits]
    omega

/-- A number of 32 bits is read as it was written. -/
theorem read32_toString {v : Int} (hv : least32 ≤ v ∧ v ≤ greatest32) :
    read32 (trim (toString v)) = some v := by
  rw [trim_toString, read32, readBetween, readSigned_toString]
  exact if_pos hv

end Text

/-! ## Documents of wrappers -/

namespace Selection

/-- Wrappers nested in each other around elements. -/
def nestAround (cs : List Element) (outer : String) : List String → Element
  | [] => ⟨outer, .empty, cs, none⟩
  | name :: names => ⟨outer, .empty, [nestAround cs name names], none⟩

/-- The document that holds elements in its wrappers. -/
def enclosing (s : Selection) (cs : List Element) : Element := nestAround cs s.outer s.inner

section
variable {cs : List Element} {s : Selection}

theorem name_nestAround (cs : List Element) (outer : String) (inner : List String) :
    (nestAround cs outer inner).name = outer := by
  cases inner <;> rfl

theorem nest_eq_nestAround (outer : String) (inner : List String) :
    nest outer inner = nestAround [] outer inner := by
  induction inner generalizing outer with
  | nil => rfl
  | cons name names ih =>
    rw [nest, ih]
    rfl

theorem skeleton_eq (s : Selection) : s.skeleton = s.enclosing [] := nest_eq_nestAround _ _

/-- What is enclosed is what is changed. -/
theorem mapInnermost_enclosing (s : Selection) (f : List Element → List Element) (cs : List Element) :
    s.mapInnermost (fun wrapper => { wrapper with children := f wrapper.children }) (s.enclosing cs) =
      some (s.enclosing (f cs)) := by
  have hbelow : ∀ inner outer, mapInnermostBelow
      (fun wrapper => { wrapper with children := f wrapper.children }) inner
      (nestAround cs outer inner) = some (nestAround (f cs) outer inner) := by
    intro inner
    induction inner with
    | nil => exact fun _ => rfl
    | cons name names ih =>
      intro outer
      rw [nestAround, mapInnermostBelow]
      simp only [name_nestAround, if_true, ih]
      rfl
  rw [mapInnermost, enclosing, if_pos (name_nestAround _ _ _), hbelow]
  rfl

/-- The wrappers alone enclose nothing; what is put there is enclosed. -/
theorem mapInnermost_skeleton (s : Selection) (f : List Element → List Element) :
    s.mapInnermost (fun wrapper => { wrapper with children := f wrapper.children }) s.skeleton =
      some (s.enclosing (f [])) := by
  rw [skeleton_eq, mapInnermost_enclosing]

theorem innermostWrappers_nestAround (cs : List Element) (outer : String) (inner : List String) :
    ∃ name, innermostWrappers inner (nestAround cs outer inner) = [⟨name, .empty, cs, none⟩] := by
  induction inner generalizing outer with
  | nil => exact ⟨outer, rfl⟩
  | cons name names ih =>
    obtain ⟨last, hlast⟩ := ih name
    exact ⟨last, by
      simp [nestAround, innermostWrappers, Element.childrenNamed, name_nestAround, hlast]⟩

/-- The elements in the wrappers are selected. -/
theorem select_enclosing (s : Selection) (cs : List Element) :
    s.select (s.enclosing cs) = cs.map (⟨0, ·⟩) := by
  obtain ⟨name, hname⟩ := innermostWrappers_nestAround cs s.outer s.inner
  have hwrappers : s.wrappersOf (s.enclosing cs) = [⟨name, .empty, cs, none⟩] := by
    rw [wrappersOf, enclosing, if_pos (name_nestAround _ _ _), hname]
  simp [select, hwrappers]

theorem isPrintable_enclosing (hs : ∀ name ∈ s.wrappers, Xml.isName name = true)
    (hcs : Element.arePrintable cs = true) : (s.enclosing cs).isPrintable = true := by
  have hbelow : ∀ inner outer, (∀ name ∈ outer :: inner, Xml.isName name = true) →
      (nestAround cs outer inner).isPrintable = true := by
    intro inner
    induction inner with
    | nil =>
      intro outer hn
      simp [nestAround, Element.isPrintable, hn, hcs, Xml.isText, Table.keys, Table.empty]
    | cons name names ih =>
      intro outer hn
      have hin := ih name fun n h => hn n (List.mem_cons_of_mem outer h)
      simp [nestAround, Element.isPrintable, Element.arePrintable, hn, hin, Xml.isText, Table.keys,
        Table.empty]
  exact hbelow s.inner s.outer hs

end

end Selection

/-! ## Forms of elements -/

namespace Xml

section
variable {e e' : Element}

theorem takeWhile_opening {name : String} {c : Char} (hn : isName name = true)
    (hc : isNameChar c = false) (attributes : Table String String) (rest : List Char) :
    (printOpening name attributes ++ c :: rest).tail.takeWhile isNameChar = name.toList := by
  have hchars : ∀ c ∈ name.toList, isNameChar c = true := fun c => isNameChar_of_mem hn
  unfold printOpening
  cases attributes.entries with
  | nil => simpa using Text.takeWhile_append_stop hchars hc
  | cons entry entries =>
    simpa [printAttribute] using Text.takeWhile_append_stop hchars (c := ' ') (by decide)

/-- The compact form starts with the name. -/
theorem takeWhile_compact (hn : isName e.name = true) :
    (compact e).tail.takeWhile isNameChar = e.name.toList := by
  obtain ⟨name, attributes, children, text⟩ := e
  rw [compact, compactThen]
  split
  · exact takeWhile_opening hn (by decide) attributes _
  · simpa using takeWhile_opening hn (c := '>') (by decide) attributes _

theorem compact_ne (hn : isName e.name = true) (hn' : isName e'.name = true) (h : e.name ≠ e'.name) :
    compact e ≠ compact e' := by
  intro he
  have hname := takeWhile_compact hn
  rw [he, takeWhile_compact hn'] at hname
  exact h (String.toList_injective hname).symm

end

end Xml

/-! ## Versions of saved elements -/

/-- The elements that are saved together. -/
def savedTogether (e : Element) (grouping : Option Element) : List Element := e :: grouping.toList

theorem Element.version_of_hasAttr {e : Element} (h : e.hasAttr versionAttr = true)
    (default default' : Int) : e.version default = e.version default' := by
  obtain ⟨raw, hraw⟩ := Option.isSome_iff_exists.1 h
  rw [version, version, attr, hraw]

theorem Element.version_of_not_hasAttr {e : Element} (h : e.hasAttr versionAttr = false)
    (default : Int) : e.version default = .ok default := by
  rw [version, attr, Option.isNone_iff_eq_none.1 (Option.isSome_eq_false_iff.1 h)]

/-- A version is read as it was set. -/
theorem Element.version_setAttr {v : Int} (hv : Text.least32 ≤ v ∧ v ≤ Text.greatest32)
    (e : Element) (default : Int) :
    (e.setAttr versionAttr (toString v)).version default = .ok v := by
  rw [version, attr_setAttr, if_pos rfl]
  simp only [Text.read32_toString hv]

/-- User data with versions that can be read has versions that count. -/
theorem exists_effectiveVersion {all : List Selected} {s : Selected} (expected : Int)
    (hall : ∀ t ∈ all, t.element.IsVersioned) (hs : s ∈ all) :
    ∃ v, effectiveVersion all expected true s = .ok v := by
  obtain ⟨v, hv⟩ := hall s hs
  unfold effectiveVersion
  simp only [if_true, hv]
  split
  · split
    · next sibling hsibling => exact hall sibling (List.mem_of_find?_eq_some hsibling)
    · exact ⟨v, rfl⟩
  · exact ⟨v, rfl⟩

namespace Inventory

section
variable {i : Inventory} {e g source : Element} {grouping : Option Element}

theorem name_stampVersion (i : Inventory) (e : Element) : (i.stampVersion e).name = e.name := by
  unfold stampVersion
  split <;> rfl

/-- The version of what is saved is that of the inventory. -/
theorem version_stampVersion (hbounds : Text.least32 ≤ i.version ∧ i.version ≤ Text.greatest32)
    (hv : source.version i.version = .ok i.version) :
    (i.stampVersion source).version 0 = .ok i.version := by
  unfold stampVersion
  split
  · exact Element.version_setAttr hbounds source 0
  · next hstays =>
    cases hattr : source.hasAttr Element.versionAttr with
    | true => rw [Element.version_of_hasAttr hattr 0 i.version, hv]
    | false =>
      have hzero : i.version = 0 := by simpa [hattr] using hstays
      rw [Element.version_of_not_hasAttr hattr, hzero]

/-- Whether an element would be taken for outdated by the grouping element that is
saved with it: it has no version and no base, and the inventory's version is zero. -/
def Undated (i : Inventory) (e : Element) : Prop :=
  i.version = 0 ∧ e.hasAttr Element.versionAttr = false ∧ e.base = none

/-- A saved element is brought back by its version, or by its base. -/
theorem effectiveVersion_saved (hbounds : Text.least32 ≤ i.version ∧ i.version ≤ Text.greatest32)
    (hv : source.version i.version = .ok i.version) (hg : ∀ g ∈ grouping, g.IsVersioned)
    (hu : i.Undated source → ∀ g ∈ grouping, g.version 0 = .ok 0) :
    ∃ v, effectiveVersion ((savedTogether (i.stampVersion source) grouping).map (⟨0, ·⟩)) i.version
        true ⟨0, i.stampVersion source⟩ = .ok v ∧
      (v = i.version ∨ (i.stampVersion source).base.isSome = true) := by
  have hversion := version_stampVersion hbounds hv
  unfold effectiveVersion
  simp only [if_true, hversion]
  by_cases hzero : i.version = 0
  · have hsame : i.stampVersion source = source := if_neg fun h => h.1 hzero
    rw [hsame] at hversion ⊢
    rw [if_pos ⟨hzero, trivial⟩, savedTogether, List.map_cons]
    cases hattr : source.hasAttr Element.versionAttr with
    | true =>
      rw [List.find?_cons_of_pos (by simp [hattr])]
      exact ⟨i.version, hversion, .inl rfl⟩
    | false =>
      rw [List.find?_cons_of_neg (by simp [hattr])]
      cases grouping with
      | none => exact ⟨i.version, rfl, .inl rfl⟩
      | some g =>
        simp only [Option.toList_some, List.map_cons, List.map_nil]
        cases hgroup : g.hasAttr Element.versionAttr with
        | false =>
          rw [List.find?_cons_of_neg (by simp [hgroup])]
          exact ⟨i.version, rfl, .inl rfl⟩
        | true =>
          rw [List.find?_cons_of_pos (by simp [hgroup])]
          cases hbase : source.base with
          | some base =>
            obtain ⟨v, hv⟩ := hg g rfl
            exact ⟨v, hv, .inr rfl⟩
          | none => exact ⟨0, hu ⟨hzero, hattr, hbase⟩ g rfl, .inl hzero.symm⟩
  · rw [if_neg fun h => hzero h.1]
    exact ⟨i.version, rfl, .inl rfl⟩

/-- Without a merger the elements saved together come back, but for a grouping
element of another version. -/
theorem reconcile_saved (source : Element) (grouping : Option Element) (hm : i.merger = none)
    (hbounds : Text.least32 ≤ i.version ∧ i.version ≤ Text.greatest32)
    (hv : source.version i.version = .ok i.version) (hname : Xml.isName source.name = true)
    (hg : ∀ g ∈ grouping, g.IsVersioned ∧ Xml.isName g.name = true ∧ g.name ≠ source.name)
    (hu : i.Undated source → ∀ g ∈ grouping, g.version 0 = .ok 0) :
    ∃ rest n, i.reconcile ((savedTogether (i.stampVersion source) grouping).map (⟨0, ·⟩)) i.version
        true = (.ok ⟨.fresh i.holdings.nextSerial (i.stampVersion source) :: rest, false⟩,
          { i with holdings := { i.holdings with nextSerial := n } }) ∧
      ∀ x ∈ rest, some x.element = grouping := by
  obtain ⟨v, heffective, hkept⟩ := effectiveVersion_saved hbounds hv (fun g h => (hg g h).1) hu
  have hversion := version_stampVersion hbounds hv
  have hstamp := i.name_stampVersion source
  generalize i.stampVersion source = e at *
  unfold reconcile
  cases grouping with
  | none =>
    refine ⟨[], i.holdings.nextSerial + 1, ?_, nofun⟩
    simp only [savedTogether, Option.toList_none, List.map_cons, List.map_nil] at heffective ⊢
    simp only [firstOfEachForm, List.not_mem_nil, if_false, judgeAll, judge_of_no_merger hm,
      heffective, if_pos hkept]
    rfl
  | some g =>
    obtain ⟨hversioned, hgname, hne⟩ := hg g rfl
    have hforms : Xml.compact g ≠ Xml.compact e :=
      Xml.compact_ne hgname (hstamp ▸ hname) (hstamp ▸ hne)
    have hall : ∀ t ∈ (savedTogether e (some g)).map (Selected.mk 0), t.element.IsVersioned := by
      intro t ht
      obtain ⟨x, hx, rfl⟩ := List.mem_map.1 ht
      rcases List.mem_cons.1 hx with rfl | hx
      · exact ⟨i.version, hversion⟩
      · rw [List.mem_singleton.1 hx]
        exact hversioned
    obtain ⟨v', hother⟩ :=
      exists_effectiveVersion (s := ⟨0, g⟩) i.version hall (by simp [savedTogether])
    simp only [savedTogether, Option.toList_some, List.map_cons, List.map_nil] at heffective hother ⊢
    simp only [firstOfEachForm, List.not_mem_nil, List.mem_singleton, hforms, if_false, judgeAll,
      judge_of_no_merger hm, judge_of_no_merger (i := (i.mint e).2) hm, heffective, hother,
      if_pos hkept]
    by_cases hkept' : v' = i.version ∨ g.base.isSome = true
    · simp only [if_pos hkept']
      refine ⟨[_], _, rfl, fun x hx => ?_⟩
      rw [List.mem_singleton.1 hx]
      rfl
    · simp only [if_neg hkept']
      exact ⟨[], _, rfl, nofun⟩

end

end Inventory

/-! ## Adding again -/

/-- Replacing an element by an equal one changes no content. -/
theorem Store.elements_replace {s : Store} {x n : Handle} (hx : x ∈ s.handles)
    (hsame : ∀ y ∈ s.handles, y.same x = true → y.element = n.element) :
    (s.replace (some x) n).elements = s.elements := by
  unfold replace elements
  cases hi : s.position x with
  | none =>
    have hself := List.findIdx?_eq_none_iff.1 hi x hx
    rw [Handle.same, beq_self_eq_true] at hself
    cases hself
  | some j =>
    obtain ⟨l₁, y, l₂, hl, rfl, hy, -⟩ := split_of_findIdx? hi
    have he := hsame y (by simp [hl]) hy
    simp only [Option.bind_some, hi]
    simp [hl, he]

namespace Holdings

section
variable {h : Holdings} {outside outside' : List Handle} {first second : Handle} {g : String}
  {c : Catalog}

/-- An add has the same result under another number, and leads to the same answers. -/
theorem add_renumbered {h₁ h₂ : Holdings} {m₁ m₂ : Nat} (ha : Agrees (· ≠ g) h c)
    (h₁_eq : h₁ = { h with nextSerial := m₁ }) (h₂_eq : h₂ = { h with nextSerial := m₂ })
    (hc₁ : Coherent (first :: outside) h₁) (hc₂ : Coherent (second :: outside') h₂)
    (he : second.element = first.element) (hn : first.element.name ≠ g) :
    (h₂.add second).1 = (h₁.add first).1 ∧ SameAnswers (h₁.add first).2 (h₂.add second).2 := by
  have hp : decide (first.element.name ≠ g) = true := by simpa using hn
  have hbeside₁ : Beside (· ≠ g) h h₁ := h₁_eq ▸ Beside.serial m₁
  have hbeside₂ : Beside (· ≠ g) h h₂ := h₂_eq ▸ Beside.serial m₂
  obtain ⟨hres₁, hagree₁⟩ := (ha.beside hbeside₁).add hc₁ hp
  obtain ⟨hres₂, hagree₂⟩ := (ha.beside hbeside₂).add hc₂ (he ▸ hp)
  have hsame := ((Catalog.SameContents.refl c).renumber h₁.nextSerial h₂.nextSerial).add he
  refine ⟨hres₂.trans (hsame.1.trans hres₁.symm), fun name values => ?_⟩
  by_cases hname : name = g
  · subst hname
    have hbefore : SameAt name h₁ h₂ := by
      rw [h₁_eq, h₂_eq]
      exact (SameAt.refl name h).recount
    have hafter := (sameAt_add hc₁ hn).symm.trans (hbefore.trans (sameAt_add hc₂ (he ▸ hn)))
    exact hafter.answers values
  · exact hsame.2.answers hagree₁ hagree₂ hc₁.add hc₂.add (by simpa using hname) values

end

end Holdings

namespace Inventory

section
variable {i : Inventory} {node : Handle} {nodes outside : List Handle} {g : Element} {value : String}
  {p : Element → Bool}

/-- Whether a grouping element is the first with its value of the grouping
attribute. -/
def Foremost (i : Inventory) (g : Element) : Prop :=
  (i.holdings.elementsOf i.conventions.groupingElement .main).find?
    (·.attr i.conventions.groupingAttr == g.attr i.conventions.groupingAttr) = some g

theorem map_element_groupings (i : Inventory) :
    i.groupings.map Handle.element = i.holdings.elementsOf i.conventions.groupingElement .main := by
  simp only [groupings, Store.named, elementsOf, List.filter_map]
  rfl

/-- The grouping element of a named view is the first with its value, and has one. -/
theorem foremost_of_groupingOf {identity : String} (h : i.groupingOf identity = some g) :
    i.Foremost g ∧ (∃ value, g.attr i.conventions.groupingAttr = some value) ∧
      g.name = i.conventions.groupingElement ∧ ∃ x ∈ i.holdings.main.handles, x.element = g := by
  obtain ⟨tag, -, hfind⟩ := Option.bind_eq_some_iff.1 h
  rw [map_element_groupings] at hfind
  have hmem := List.mem_filter.1 (List.mem_of_find?_eq_some hfind)
  obtain ⟨hg, before, after, hl, hbefore⟩ := List.find?_eq_some_iff_append.1 hfind
  refine ⟨?_, ?_, by simpa using hmem.2, List.mem_map.1 hmem.1⟩
  · rw [Foremost, hl]
    refine List.find?_eq_some_iff_append.2 ⟨beq_self_eq_true _, before, after, rfl, fun x hx => ?_⟩
    -- What has the value of `g` has its tag too.
    have hx := hbefore x hx
    unfold hasTag at hx hg
    simp only [Bool.not_eq_true', beq_eq_false_iff_ne]
    intro he
    rw [he, hg] at hx
    cases hx
  · unfold hasTag at hg
    split at hg
    · next layout hlayout => exact ⟨layout, hlayout⟩
    · cases hg

theorem Foremost.sameAt {i' : Inventory} (hf : i.Foremost g) (hv : i'.conventions = i.conventions)
    (hs : SameAt i.conventions.groupingElement i.holdings i'.holdings) : i'.Foremost g := by
  rw [Foremost, hv, hs.held]
  exact hf

/-- A grouping element that takes the place of an equal one changes no content. -/
theorem sameAt_addGrouping (hc : Coherent outside i.holdings) (hf : i.Foremost node.element)
    (hv : node.element.attr i.conventions.groupingAttr = some value) :
    (i.addGrouping node).1 = .ok () ∧ ∀ n, SameAt n i.holdings (i.addGrouping node).2.holdings := by
  rw [Foremost, ← map_element_groupings, List.find?_map] at hf
  obtain ⟨x, hx, he⟩ := Option.map_eq_some_iff.1 hf
  have hmem : x ∈ i.holdings.main.handles := (List.mem_filter.1 (List.mem_of_find?_eq_some hx)).1
  have helements : (i.holdings.main.replace (some x) node).elements = i.holdings.main.elements :=
    Store.elements_replace hmem fun y hy hsame =>
      (hc.alike (s := .main) (.inl ⟨.main, hmem⟩) y hy hsame).trans he
  unfold addGrouping
  simp only [Element.requiredAttr, hv]
  rw [hv] at hx
  have hx' : i.groupings.find? (·.element.attr i.conventions.groupingAttr == some value) = some x :=
    hx
  rw [hx']
  refine ⟨trivial, fun n => ⟨rfl, fun _ _ => rfl, fun s => ?_⟩⟩
  cases s with
  | main => exact congrArg (List.filter _) helements
  | alterations => rfl
  | bases => rfl

/-- So do several of them that are read. -/
theorem sameAt_addRead (hc : Coherent nodes i.holdings) (hf : i.Foremost g)
    (hv : g.attr i.conventions.groupingAttr = some value)
    (hg : g.name = i.conventions.groupingElement) (hnodes : ∀ x ∈ nodes, x.element = g) :
    (i.addRead nodes).1 = .ok () ∧ ∀ n, SameAt n i.holdings (i.addRead nodes).2.holdings := by
  induction nodes generalizing i with
  | nil => exact ⟨rfl, fun n => .refl n _⟩
  | cons node nodes ih =>
    have he := hnodes node List.mem_cons_self
    have hnote := holdings_noteTagged i node
    have hconv := conventions_noteTagged i node
    have hc' : Coherent (node :: nodes) (i.noteTagged node).holdings := hnote ▸ hc
    have hf' : (i.noteTagged node).Foremost g := hf.sameAt hconv (hnote ▸ .refl _ _)
    have hmoves := moves_addAny hc'
    have hgroup : ((i.noteTagged node).addGrouping node).1 = .ok () ∧ ∀ n,
        SameAt n (i.noteTagged node).holdings ((i.noteTagged node).addGrouping node).2.holdings :=
      sameAt_addGrouping hc' (he ▸ hf') (he ▸ hconv ▸ hv)
    rw [addRead]
    rw [addAny, if_pos (by rw [he, hg, hconv])] at hmoves ⊢
    rcases hr : (i.noteTagged node).addGrouping node with ⟨_ | _, i'⟩
    all_goals
      rw [hr] at hgroup hmoves
      rw [hnote] at hgroup
    · cases hgroup.1
    · have hconv' : i'.conventions = i.conventions := hmoves.conventions.trans hconv
      obtain ⟨hok, hsame⟩ := ih hmoves.leave.coherent (hf.sameAt hconv' (hgroup.2 _))
        (hconv' ▸ hv) (hconv' ▸ hg) fun x hx => hnodes x (List.mem_cons_of_mem node hx)
      exact ⟨hok, fun n => (hgroup.2 n).trans (hsame n)⟩

/-- What was saved together is added as the element alone was. -/
theorem addRead_saved {j : Inventory} {h : Holdings} {c : Catalog} {m m' : Nat}
    {first second : Handle} {grouping : Option Element}
    (ha : Agrees (· ≠ i.conventions.groupingElement) i.holdings c)
    (hh : h = { i.holdings with nextSerial := m })
    (hj : j.holdings = { i.holdings with nextSerial := m' })
    (hv : j.conventions = i.conventions) (hc : Coherent (first :: outside) h)
    (hc' : Coherent (second :: nodes) j.holdings) (he : second.element = first.element)
    (hn : first.element.name ≠ i.conventions.groupingElement)
    (hg : ∀ g ∈ grouping, ∃ identity, i.groupingOf identity = some g)
    (hnodes : ∀ x ∈ nodes, some x.element = grouping) (hok : (h.add first).1 = .ok ()) :
    (j.addRead (second :: nodes)).1 = .ok () ∧
      (h.add first).2.SameAnswers (j.addRead (second :: nodes)).2.holdings := by
  have hnote := holdings_noteTagged j second
  have hconv := (conventions_noteTagged j second).trans hv
  obtain ⟨hres, hans⟩ := add_renumbered ha hh hj hc hc' he hn
  have hsame : SameAt i.conventions.groupingElement i.holdings (j.holdings.add second).2 := by
    have hbefore : SameAt i.conventions.groupingElement i.holdings j.holdings := by
      rw [hj]
      exact (SameAt.refl _ i.holdings).recount
    exact hbefore.trans (sameAt_add hc' (he ▸ hn))
  have hadd : (j.noteTagged second).addAny second =
      (.ok (), { j.noteTagged second with holdings := (j.holdings.add second).2 }) := by
    have hresult : j.holdings.add second = (.ok (), (j.holdings.add second).2) :=
      Prod.ext (hres.trans hok) rfl
    rw [addAny, if_neg (by rw [he, hconv]; exact hn), add, onHoldings, hnote, hresult]
  rw [addRead, hadd]
  cases grouping with
  | none =>
    obtain rfl : nodes = [] := List.eq_nil_iff_forall_not_mem.2 fun x hx => by
      cases hnodes x hx
    exact ⟨rfl, hans⟩
  | some g =>
    obtain ⟨identity, hidentity⟩ := hg g rfl
    obtain ⟨hforemost, ⟨value, hvalue⟩, hname, -⟩ := foremost_of_groupingOf hidentity
    obtain ⟨hrest, hall⟩ := sameAt_addRead
      (i := { j.noteTagged second with holdings := (j.holdings.add second).2 })
      hc'.add.leave (hforemost.sameAt hconv hsame) (hconv ▸ hvalue) (hconv ▸ hname)
      fun x hx => Option.some.inj (hnodes x hx)
    exact ⟨hrest, hans.trans fun name values => (hall name).answers values⟩

end

end Inventory

end TemplateInventory
