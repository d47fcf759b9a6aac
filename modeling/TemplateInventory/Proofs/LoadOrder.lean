import TemplateInventory.Proofs.Groupings
import TemplateInventory.Proofs.Places
import TemplateInventory.Proofs.Reload
import TemplateInventory.Proofs.Versions
/-!
# What a load serves

A load of elements that are neither derived nor outdated serves the last one of each
key, and the last grouping element of each value of the grouping attribute, in the
order in which the keys and values first come up (`load_serves_last`). The files come
up as `Inventory.InLoadOrder` says: directory by directory, those of each by their paths.

While such elements are added, the stores and the memory have what a table from slots
to elements has: `Tabulates`. A slot is what an element competes for.
-/

namespace TemplateInventory

open Holdings

/-- What elements take from each other: a key, or a value of the grouping
attribute. -/
inductive Slot where
  | key (k : ElementKey)
  | grouping (value : Option String)
  deriving DecidableEq

/-! ## The order of a load -/

namespace Inventory

/-- The directories with their kinds, in loading order. -/
def known (i : Inventory) : List Source := i.sources.entries.map (·.2)

/-- Whether some paths are those of the files in directories, in the order of a load:
one directory after the other, and the files of each in ascending order. -/
inductive InLoadOrder (i : Inventory) (files : FileTree) : List Source → List Path → Prop
  | nil : InLoadOrder i files [] []
  | cons {s : Source} {sources : List Source} {pattern : FilePattern} {names : List String}
      {paths : List Path} (hp : i.patternFor s.kind = .ok pattern)
      (hn : pattern.InOrder files s.path names) (hr : InLoadOrder i files sources paths) :
      InLoadOrder i files (s :: sources) (names.map s.path.child ++ paths)

/-- The slot of an element. -/
def slotOf (i : Inventory) (e : Element) : Slot :=
  if e.name = i.conventions.groupingElement then .grouping (e.attr i.conventions.groupingAttr)
  else .key (i.schema.keyOf e)

/-- The last of some elements that has a slot. -/
def lastIn (i : Inventory) (nodes : List Element) (s : Slot) : Option Element :=
  nodes.reverse.find? (i.slotOf · = s)

/-- The elements of a document that count, in order. -/
def nodesOf (i : Inventory) (document : Element) : List Element :=
  (firstOfEachForm [] (i.selection.select document)).map Selected.element

end Inventory

/-- Whether every document that a load may read meets a condition, which may ask for the
kind of the directory. -/
def Workspace.AllRead (w : Workspace) (p : SourceKind → Element → Prop) : Prop :=
  ∀ s ∈ w.inventory.known, ∀ pattern, w.inventory.patternFor s.kind = .ok pattern →
    ∀ name, pattern.Finds w.files s.path name →
      ∀ d, w.files.readDocument (s.path.child name) = .ok d → p s.kind d

/-! ## Adding plain elements -/

section
variable {i j : Inventory} {h : Holdings} {nodes : List Element} {t : Table Slot Handle}
  {node x : Handle} {outside : List Handle} {s : Slot}

theorem lastIn_append (i : Inventory) (nodes : List Element) (e : Element) (s : Slot) :
    i.lastIn (nodes ++ [e]) s = if i.slotOf e = s then some e else i.lastIn nodes s := by
  rw [Inventory.lastIn, List.reverse_append, List.reverse_singleton, List.singleton_append,
    List.find?_cons]
  by_cases hs : i.slotOf e = s
  · simp [hs]
  · simp [hs, Inventory.lastIn]

theorem slotOf_eq_grouping {e : Element} {value : Option String} : i.slotOf e = .grouping value ↔
    e.name = i.conventions.groupingElement ∧ e.attr i.conventions.groupingAttr = value := by
  unfold Inventory.slotOf
  split <;> simp [*]

theorem slotOf_eq_key {e : Element} {k : ElementKey} : i.slotOf e = .key k ↔
    e.name ≠ i.conventions.groupingElement ∧ i.schema.keyOf e = k := by
  unfold Inventory.slotOf
  split <;> simp [*]

theorem eraseDups_append_singleton {α : Type} [DecidableEq α] (l : List α) (a : α) :
    (l ++ [a]).eraseDups = if a ∈ l.eraseDups then l.eraseDups else l.eraseDups ++ [a] := by
  rw [List.eraseDups_append]
  by_cases h : a ∈ l
  · simp [h, List.removeAll]
  · simp [h, List.removeAll, List.eraseDups_cons]

/-- The holdings have what a table has: the last of some elements in each slot, in
the order of the first ones. They have no derived elements, and nobody asked for a
grouping element. -/
structure Tabulates (i : Inventory) (h : Holdings) (nodes : List Element) (t : Table Slot Handle) :
    Prop where
  schema : h.schema = i.schema
  held : keyed (fun _ => true) (fun x => i.slotOf x.element) h.main.handles = t.entries
  keys : t.keys = (nodes.map i.slotOf).eraseDups
  last : ∀ s, (t.get? s).map Handle.element = i.lastIn nodes s
  remembered : ∀ k, k.element ≠ i.conventions.groupingElement → k.store = .main →
    h.remembered k = t.get? (.key k)
  unasked : ∀ k, k.element = i.conventions.groupingElement → h.cache.get k = .notQueried
  unaltered : h.alterations.handles = []
  unknown : ∀ k, k.store = .alterations → h.remembered k = none

namespace Tabulates

theorem empty (i : Inventory) (hs : h.schema = i.schema) : Tabulates i h.clear [] .empty where
  schema := hs
  held := rfl
  keys := rfl
  last _ := rfl
  remembered _ _ _ := rfl
  unasked _ _ := rfl
  unaltered := rfl
  unknown _ _ := rfl

theorem serial (ht : Tabulates i h nodes t) (n : Nat) :
    Tabulates i { h with nextSerial := n } nodes t :=
  ⟨ht.schema, ht.held, ht.keys, ht.last, ht.remembered, ht.unasked, ht.unaltered, ht.unknown⟩

theorem get?_iff (ht : Tabulates i h nodes t) :
    t.get? s = some x ↔ x ∈ h.main.handles ∧ i.slotOf x.element = s := by
  rw [← Table.mem_entries_iff, ← ht.held, mem_keyed]
  simp

/-- The element of a slot is replaced by the next one. -/
theorem held_replace (ht : Tabulates i h nodes t) (hc : Coherent outside h) (node : Handle) :
    keyed (fun _ => true) (fun x => i.slotOf x.element)
        (h.main.replace (t.get? (i.slotOf node.element)) node).handles =
      (t.put (i.slotOf node.element) node).entries := by
  refine Store.keyed_replace_get? ht.held rfl (fun x hx => ?_) rfl rfl
  refine Store.same_iff ht.held hx (fun y hy he => ?_) fun y he => ⟨rfl, by rw [he]⟩
  exact hc.element_eq (.inr (.inl ⟨.main, (ht.get?_iff.1 hx).1⟩)) (.inr (.inl ⟨.main, hy⟩)) he

/-- The next element takes its slot. -/
theorem put {h' : Holdings} (ht : Tabulates i h nodes t) (hc : Coherent outside h)
    (hs : h'.schema = h.schema)
    (hm : h'.main = h.main.replace (t.get? (i.slotOf node.element)) node)
    (hr : ∀ k, k.element ≠ i.conventions.groupingElement → k.store = .main →
      h'.remembered k = if i.slotOf node.element = .key k then some node else h.remembered k)
    (hu : ∀ k, k.element = i.conventions.groupingElement → h'.cache.get k = h.cache.get k)
    (ha : h'.alterations = h.alterations)
    (hx : ∀ k, k.store = .alterations → h'.remembered k = h.remembered k) :
    Tabulates i h' (nodes ++ [node.element]) (t.put (i.slotOf node.element) node) where
  schema := hs.trans ht.schema
  held := by rw [hm, ht.held_replace hc]
  keys := by
    rw [Table.keys_put, ht.keys, List.map_append, List.map_cons, List.map_nil,
      eraseDups_append_singleton]
  last s := by
    rw [Table.get?_put, lastIn_append, ← ht.last s]
    split <;> rfl
  remembered k hk hst := by rw [hr k hk hst, Table.get?_put, ht.remembered k hk hst]
  unasked k hk := (hu k hk).trans (ht.unasked k hk)
  unaltered := by rw [ha, ht.unaltered]
  unknown k hk := (hx k hk).trans (ht.unknown k hk)

theorem find_groupings (ht : Tabulates i j.holdings nodes t) (hv : j.conventions = i.conventions)
    (value : String) : j.groupings.find? (·.element.attr j.conventions.groupingAttr == some value) =
      t.get? (.grouping (some value)) := by
  cases hf : j.groupings.find? (·.element.attr j.conventions.groupingAttr == some value) with
  | some y =>
    obtain ⟨hy, hname⟩ := mem_groupings.1 (List.mem_of_find?_eq_some hf)
    have hvalue := List.find?_some hf
    rw [hv] at hname hvalue
    exact (ht.get?_iff.2 ⟨hy, slotOf_eq_grouping.2 ⟨hname, by simpa using hvalue⟩⟩).symm
  | none =>
    refine (Option.eq_none_iff_forall_ne_some.2 fun x hx => ?_).symm
    obtain ⟨hmem, hslot⟩ := ht.get?_iff.1 hx
    obtain ⟨hname, hvalue⟩ := slotOf_eq_grouping.1 hslot
    rw [← hv] at hname hvalue
    exact absurd (List.find?_eq_none.1 hf x (mem_groupings.2 ⟨hmem, hname⟩)) (by simp [hvalue])

theorem addGrouping (ht : Tabulates i j.holdings nodes t) (hv : j.conventions = i.conventions)
    (hc : Coherent outside j.holdings) (hn : node.element.name = i.conventions.groupingElement)
    (hok : (j.addGrouping node).1 = .ok ()) :
    Tabulates i (j.addGrouping node).2.holdings (nodes ++ [node.element])
      (t.put (i.slotOf node.element) node) := by
  unfold Inventory.addGrouping at hok ⊢
  cases ha : node.element.requiredAttr j.conventions.groupingAttr with
  | error e => rw [ha] at hok; cases hok
  | ok value =>
    have hslot : i.slotOf node.element = .grouping (some value) := by
      refine slotOf_eq_grouping.2 ⟨hn, ?_⟩
      rw [hv] at ha
      unfold Element.requiredAttr at ha
      split at ha
      · next value' hvalue => cases ha; exact hvalue
      · cases ha
    refine ht.put hc rfl ?_ (fun k _ _ => ?_) (fun _ _ => rfl) rfl fun _ _ => rfl
    · simp only [ht.find_groupings hv value, hslot]
    · rw [hslot, if_neg nofun]
      rfl

theorem add (ht : Tabulates i h nodes t) (hc : Coherent outside h)
    (hn : node.element.name ≠ i.conventions.groupingElement) (hb : node.element.base = none) :
    Tabulates i (h.add node).2 (nodes ++ [node.element]) (t.put (i.slotOf node.element) node) := by
  have hslot : i.slotOf node.element = .key (h.schema.keyOf node.element) :=
    slotOf_eq_key.2 ⟨hn, by rw [ht.schema]⟩
  rw [add_plain hb]
  unfold addPlain
  refine ht.put hc rfl ?_ (fun k _ _ => ?_) (fun k hk => ?_) rfl fun k hk => ?_
  · rw [ht.remembered _ hn rfl, hslot]
    rfl
  · rw [hslot, remembered_remember]
    simp only [Slot.key.injEq]
    rfl
  · refine get_remember_apart (k := h.schema.keyOf node.element) { h with main := _ } _ (.of_name ?_)
    rw [hk]
    exact hn
  · rw [remembered_remember, if_neg]
    · rfl
    · rintro rfl
      exact absurd hk (store_keyOf_ne h.schema node.element)

theorem addAny (ht : Tabulates i j.holdings nodes t) (hv : j.conventions = i.conventions)
    (hc : Coherent outside j.holdings) (hb : node.element.base = none)
    (hok : (j.addAny node).1 = .ok ()) :
    Tabulates i (j.addAny node).2.holdings (nodes ++ [node.element])
      (t.put (i.slotOf node.element) node) := by
  unfold Inventory.addAny at hok ⊢
  rw [hv] at hok ⊢
  split
  · next hn =>
    rw [if_pos hn] at hok
    exact ht.addGrouping hv hc hn hok
  · next hn => exact ht.add hc hn hb

/-! ### Answers -/

theorem slots (ht : Tabulates i h nodes t) :
    h.main.elements.map i.slotOf = (nodes.map i.slotOf).eraseDups := by
  rw [← ht.keys, Table.keys, ← ht.held, keyed, List.filter_eq_self.2 fun _ _ => rfl, List.map_map,
    Store.elements, List.map_map]
  rfl

theorem last_of_mem (ht : Tabulates i h nodes t) {e : Element} (he : e ∈ h.main.elements) :
    i.lastIn nodes (i.slotOf e) = some e := by
  obtain ⟨x, hx, rfl⟩ := List.mem_map.1 he
  rw [← ht.last, ht.get?_iff.2 ⟨hx, rfl⟩]
  rfl

/-- A key has what is in its slot. -/
theorem getElement (ht : Tabulates i h nodes t) {name : String}
    (hn : name ≠ i.conventions.groupingElement) (values : List (Option String)) :
    (h.getElement name values).1 = t.get? (.key (.of name (h.schema.fit name values) .main)) := by
  have hv := h.schema.length_fit name values
  unfold Holdings.getElement
  generalize h.schema.fit name values = vs at hv ⊢
  have hr := ht.remembered (.of name vs .main) hn rfl
  cases hx : t.get? (.key (.of name vs .main)) with
  | some x => rw [resolve_found (findIn_remembered (hr.trans hx))]
  | none =>
    have hmain : (h.findIn .main name vs).1 = none := by
      refine Option.eq_none_iff_forall_ne_some.2 fun y hy => ?_
      rcases remembered_or_search hy with hy | hy
      · rw [hr, hx] at hy
        cases hy
      · have hslot : i.slotOf y.element = .key (.of name vs .main) := by
          refine slotOf_eq_key.2 ⟨name_of_search hy ▸ hn, ?_⟩
          rw [KeySchema.keyOf, ← ht.schema, valuesOf_of_search hv hy, name_of_search hy]
        rw [ht.get?_iff.2 ⟨mem_of_search hy, hslot⟩] at hx
        cases hx
    have halt : ((h.findIn .main name vs).2.findIn .alterations name vs).1 = none := by
      refine Option.eq_none_iff_forall_ne_some.2 fun y hy => ?_
      rcases remembered_or_search hy with hy | hy
      · rw [remembered_findIn, if_neg (by simp [ElementKey.of]), ht.unknown _ rfl] at hy
        cases hy
      · have hmem := mem_of_search hy
        rw [store_findIn] at hmem
        exact absurd (ht.unaltered ▸ hmem) List.not_mem_nil
    rw [resolve_missing hmain List.not_mem_nil halt]

/-- So has a grouping element whose key tells its value of the grouping attribute. -/
theorem getElement_grouping (ht : Tabulates i h nodes t) {e : Element} {value : Option String}
    (he : i.lastIn nodes (.grouping value) = some e)
    (ha : i.conventions.groupingAttr ∈ i.schema.attrsFor e.name) :
    (h.getElement e.name (i.schema.valuesOf e)).1.map Handle.element = some e := by
  rw [← ht.last] at he
  obtain ⟨x, hx, rfl⟩ := Option.map_eq_some_iff.1 he
  obtain ⟨hmem, hslot⟩ := ht.get?_iff.1 hx
  obtain ⟨hname, hvalue⟩ := slotOf_eq_grouping.1 hslot
  rw [← ht.schema] at ha ⊢
  obtain ⟨y, hy, hyname, hyvalues, hans⟩ := getElement_of_notQueried hmem (ht.unasked _ hname)
  have hsame : y.element.attr i.conventions.groupingAttr = value := by
    rw [KeySchema.valuesOf, KeySchema.valuesOf, hyname] at hyvalues
    exact (List.map_inj_left.1 hyvalues _ ha).trans hvalue
  have hy' := ht.get?_iff.2 ⟨hy, slotOf_eq_grouping.2 ⟨hyname.trans hname, hsame⟩⟩
  rw [hx] at hy'
  cases hy'
  rw [hans]
  rfl

end Tabulates

end

/-! ## Loading plain documents -/

namespace Inventory

/-- Whether a document has elements only that are neither derived nor of another
version than the inventory. -/
def IsUniform (i : Inventory) (document : Element) : Prop :=
  ∀ s ∈ i.selection.select document, s.element.base = none ∧
    ∀ v ∈ (s.element.version i.version).toOption, v = i.version

/-- Whether every wrapper of a document with an element has one with a version. -/
def IsDated (i : Inventory) (document : Element) : Prop :=
  ∀ s ∈ i.selection.select document, ∃ t ∈ i.selection.select document,
    t.wrapper = s.wrapper ∧ t.element.hasAttr Element.versionAttr = true

/-- Whether a document in a directory of some kind is uniform, and dated if it is user
data of an inventory that has a version. -/
def IsPlain (i : Inventory) (kind : SourceKind) (document : Element) : Prop :=
  i.IsUniform document ∧ (kind = .userOverrides → i.version = 0 ∨ i.IsDated document)

instance (i : Inventory) (document : Element) : Decidable (i.IsUniform document) :=
  inferInstanceAs (Decidable (∀ s ∈ i.selection.select document, s.element.base = none ∧
    ∀ v ∈ (s.element.version i.version).toOption, v = i.version))

instance (i : Inventory) (document : Element) : Decidable (i.IsDated document) :=
  inferInstanceAs (Decidable (∀ s ∈ i.selection.select document,
    ∃ t ∈ i.selection.select document,
      t.wrapper = s.wrapper ∧ t.element.hasAttr Element.versionAttr = true))

instance (i : Inventory) (kind : SourceKind) (document : Element) :
    Decidable (i.IsPlain kind document) :=
  inferInstanceAs (Decidable (i.IsUniform document ∧
    (kind = .userOverrides → i.version = 0 ∨ i.IsDated document)))

end Inventory

/-- What counts for an element of a plain document is the version of the inventory. -/
theorem Inventory.IsPlain.version_eq {i : Inventory} {kind : SourceKind} {document : Element}
    (hp : i.IsPlain kind document) {s : Selected} (hs : s ∈ i.selection.select document) {v : Int}
    (hv : effectiveVersion (i.selection.select document) i.version (kind == .userOverrides) s =
      .ok v) : v = i.version := by
  obtain ⟨huniform, huser⟩ := hp
  have hversion : ∀ v, s.element.version i.version = .ok v → v = i.version := fun v hv =>
    (huniform s hs).2 v (by rw [hv]; rfl)
  have hversioned : ∀ t ∈ i.selection.select document, t.element.hasAttr Element.versionAttr = true →
      ∀ v, t.element.version 0 = .ok v → v = i.version := fun t ht hattr v hv =>
    (huniform t ht).2 v (by rw [Element.version_of_hasAttr hattr i.version 0, hv]; rfl)
  cases kind with
  | shipped => exact hversion v (effectiveVersion_shipped _ _ s ▸ hv)
  | userOverrides =>
    obtain ⟨own, hown⟩ := isVersioned_of_effectiveVersion hv
    by_cases hzero : own = 0
    · subst hzero
      rw [show (SourceKind.userOverrides == .userOverrides) = true from rfl,
        effectiveVersion_borrowed hown] at hv
      cases hfirst : firstVersioned (i.selection.select document) s.wrapper with
      | some t =>
        obtain ⟨ht, -, hattr⟩ := firstVersioned_some hfirst
        rw [hfirst] at hv
        exact hversioned t ht hattr v hv
      | none =>
        rw [hfirst] at hv
        cases hv
        rcases huser rfl with hzero | hdated
        · exact hzero.symm
        · obtain ⟨t, ht, hw, hattr⟩ := hdated s hs
          rw [firstVersioned_none hfirst ht hw] at hattr
          cases hattr
    · rw [show (SourceKind.userOverrides == .userOverrides) = true from rfl,
        effectiveVersion_own hown hzero] at hv
      cases hv
      exact hversioned s hs (Element.hasAttr_of_version hown hzero) v hown

namespace Work

section
variable {i : Inventory} {files : FileTree} {s : Source} {sources : List Source}
  {pattern : FilePattern} {names : List String}

/-- The files of the first directory are added by their paths. -/
theorem runOn_addSources (hp : i.patternFor s.kind = .ok pattern)
    (hn : pattern.InOrder files s.path names) : (addSources (s :: sources)).runOn ⟨i, files⟩ =
      (addFiles i.version (s.kind == .userOverrides) (names.map s.path.child) >>=
        fun _ => addSources sources).runOn ⟨i, files⟩ := by
  have hfound : i.filesOf files s.kind s.path = .ok (pattern.scan files s.path) := by
    rw [Inventory.filesOf, hp]
    rfl
  rw [addSources]
  simp only [runOn_bind, runOn_inventory]
  rw [runOn_addDirectory hfound, hn.map_path_scan]

/-- A directory whose pattern cannot be read is not added. -/
theorem patternFor_of_addSources {w' : Workspace}
    (hok : (addSources (s :: sources)).runOn ⟨i, files⟩ = (.ok (), w')) :
    ∃ pattern, i.patternFor s.kind = .ok pattern := by
  cases hp : i.patternFor s.kind with
  | ok pattern => exact ⟨pattern, rfl⟩
  | error e =>
    have hfound : i.filesOf files s.kind s.path = .error e := by
      rw [Inventory.filesOf, hp]
      rfl
    unfold addSources addDirectory at hok
    simp only [runOn_bind, runOn_inventory, runOn_ask, hfound] at hok
    cases hok

end

theorem runOn_load (w : Workspace) :
    load.runOn w = (addSources w.inventory.known).runOn ⟨w.inventory.clear, w.files⟩ := by
  unfold load
  simp only [runOn_bind, runOn_modifyInventory, runOn_inventory]
  rfl

end Work

/-- What a load has come to once it has gone through some elements. -/
structure Loaded (i₀ i : Inventory) (nodes : List Element) : Prop where
  settings : i.unloaded = i₀.unloaded
  coherent : Coherent [] i.holdings
  tabulated : ∃ t, Tabulates i₀ i.holdings nodes t

namespace Loaded

section
variable {i₀ i i' : Inventory} {nodes : List Element} {survivors : List Handle} {files : FileTree}
  {kind : SourceKind} {document : Element} {p : Path} {w' : Workspace}

theorem addRead (hl : Loaded i₀ i nodes) (hc : Coherent survivors i.holdings)
    (hb : ∀ x ∈ survivors, x.element.base = none) (hok : (i.addRead survivors).1 = .ok ()) :
    Loaded i₀ (i.addRead survivors).2 (nodes ++ survivors.map Handle.element) := by
  induction survivors generalizing i nodes with
  | nil =>
    rw [List.map_nil, List.append_nil]
    exact hl
  | cons x rest ih =>
    have hnote : Coherent (x :: rest) (i.noteTagged x).holdings := by
      rwa [Inventory.holdings_noteTagged]
    have hsettings : ((i.noteTagged x).addAny x).2.unloaded = i₀.unloaded :=
      ((i.noteTagged x).unloaded_addAny x).trans ((i.unloaded_noteTagged x).trans hl.settings)
    have hmoves := Inventory.moves_addAny hnote
    rw [Inventory.addRead] at hok ⊢
    obtain ⟨t, ht⟩ := hl.tabulated
    rw [← Inventory.holdings_noteTagged i x] at ht
    have hadd := ht.addAny ((i.conventions_noteTagged x).trans
      (Inventory.eq_of_unloaded _ (fun _ => rfl) hl.settings)) hnote (hb x List.mem_cons_self)
    rcases hr : (i.noteTagged x).addAny x with ⟨_ | _, i₁⟩
    · rw [hr] at hok
      cases hok
    · rw [hr] at hok hsettings hadd hmoves
      have hnext : Loaded i₀ i₁ (nodes ++ [x.element]) :=
        ⟨hsettings, hmoves.coherent.subset (fun _ h => absurd h List.not_mem_nil), _, hadd rfl⟩
      have hall := ih hnext hmoves.leave.coherent (fun y hy => hb y (List.mem_cons_of_mem x hy)) hok
      rwa [List.append_assoc] at hall

/-- The elements of a plain document pass through. -/
theorem reconcile {r : Reconciled} (hl : Loaded i₀ i nodes) (hp : i₀.IsPlain kind document)
    (hr : i.reconcile (i₀.selection.select document) i₀.version (kind == .userOverrides) =
      (.ok r, i')) :
    Loaded i₀ i' nodes ∧ Coherent r.survivors i'.holdings ∧ r.changed = false ∧
      r.survivors.map Handle.element = i₀.nodesOf document := by
  obtain ⟨survivors, n, hreconcile, helements⟩ := Inventory.reconcile_current (i := i) fun s hs => by
    obtain ⟨v, hv⟩ := Inventory.effectiveVersion_of_reconcile hr hs
    exact ⟨v, hv, .inl (hp.version_eq (mem_of_mem_firstOfEachForm hs) hv)⟩
  have hmoves := Inventory.moves_reconcile hl.coherent (i₀.selection.select document) i₀.version
    (kind == .userOverrides)
  rw [hreconcile] at hr hmoves
  cases hr
  obtain ⟨t, ht⟩ := hl.tabulated
  refine ⟨⟨hl.settings, ?_, t, ht.serial n⟩, hmoves.coherent, rfl, helements⟩
  exact hmoves.coherent.subset fun _ h => nomatch h

/-- The elements of a file pass through and are added. -/
theorem addFile (hl : Loaded i₀ i nodes)
    (hp : ∀ d, files.readDocument p = .ok d → i₀.IsPlain kind d)
    (hok : (Work.addFile i₀.version (kind == .userOverrides) p).runOn ⟨i, files⟩ = (.ok (), w')) :
    ∃ document, files.readDocument p = .ok document ∧ w'.files = files ∧
      Loaded i₀ w'.inventory (nodes ++ i₀.nodesOf document) := by
  obtain ⟨time, document, r, i₁, -, hdocument, hr, hadd⟩ := Work.addFile_ok hok
  have hselection : i.selection.select document = i₀.selection.select document := by
    rw [Inventory.eq_of_unloaded Inventory.selection (fun _ => rfl) hl.settings]
  rw [hselection] at hr
  have hplain := hp document hdocument
  have hread : Loaded i₀ { i with stamps := i.stamps ++ [⟨p, time⟩] } nodes :=
    ⟨hl.settings, hl.coherent, hl.tabulated⟩
  obtain ⟨hl₁, hc₁, hchanged, helements⟩ := hread.reconcile hplain hr
  obtain ⟨hok', rfl⟩ := hadd hchanged
  refine ⟨document, hdocument, rfl, ?_⟩
  rw [← helements]
  refine hl₁.addRead hc₁ (fun x hx => ?_) hok'
  obtain ⟨s, hs, he⟩ := List.mem_map.1 (helements ▸ List.mem_map_of_mem (f := Handle.element) hx)
  rw [← he]
  exact (hplain.1 s (mem_of_mem_firstOfEachForm hs)).1

theorem addFiles {paths : List Path} (hl : Loaded i₀ i nodes)
    (hp : ∀ p ∈ paths, ∀ d, files.readDocument p = .ok d → i₀.IsPlain kind d)
    (hok : (Work.addFiles i₀.version (kind == .userOverrides) paths).runOn ⟨i, files⟩ =
      (.ok (), w')) :
    ∃ documents : List Element, paths.map files.readDocument = documents.map .ok ∧
      w'.files = files ∧ Loaded i₀ w'.inventory (nodes ++ documents.flatMap i₀.nodesOf) := by
  induction paths generalizing i nodes with
  | nil =>
    cases hok
    exact ⟨[], rfl, rfl, by simpa using hl⟩
  | cons p rest ih =>
    rw [Work.addFiles, Work.runOn_bind] at hok
    rcases hfirst : (Work.addFile i₀.version (kind == .userOverrides) p).runOn ⟨i, files⟩ with
      ⟨_ | u, i₁, files₁⟩
    · rw [hfirst] at hok
      cases hok
    · rw [hfirst] at hok
      obtain ⟨document, hdocument, hfiles, hl₁⟩ := hl.addFile (hp p List.mem_cons_self) hfirst
      obtain rfl : files₁ = files := hfiles
      obtain ⟨documents, hread, hfiles', hall⟩ :=
        ih hl₁ (fun q hq => hp q (List.mem_cons_of_mem p hq)) hok
      refine ⟨document :: documents, ?_, hfiles', ?_⟩
      · rw [List.map_cons, hdocument, hread, List.map_cons]
      · rwa [List.flatMap_cons, ← List.append_assoc]

theorem addSources {sources : List Source} (hl : Loaded i₀ i nodes)
    (hp : ∀ s ∈ sources, ∀ pattern, i₀.patternFor s.kind = .ok pattern →
      ∀ name, pattern.Finds files s.path name →
        ∀ d, files.readDocument (s.path.child name) = .ok d → i₀.IsPlain s.kind d)
    (hok : (Work.addSources sources).runOn ⟨i, files⟩ = (.ok (), w')) :
    ∃ (paths : List Path) (documents : List Element), i₀.InLoadOrder files sources paths ∧
      paths.map files.readDocument = documents.map .ok ∧
      Loaded i₀ w'.inventory (nodes ++ documents.flatMap i₀.nodesOf) := by
  induction sources generalizing i nodes with
  | nil =>
    cases hok
    exact ⟨[], [], .nil, rfl, by simpa using hl⟩
  | cons s rest ih =>
    have hversion : i.version = i₀.version := Inventory.eq_of_unloaded _ (fun _ => rfl) hl.settings
    have hfor : i.patternFor s.kind = i₀.patternFor s.kind :=
      Inventory.eq_of_unloaded (·.patternFor s.kind) (fun _ => rfl) hl.settings
    obtain ⟨pattern, hpattern⟩ := Work.patternFor_of_addSources hok
    have horder := pattern.inOrder_names files s.path
    rw [Work.runOn_addSources hpattern horder, hversion, Work.runOn_bind] at hok
    rcases hfirst : (Work.addFiles i₀.version (s.kind == .userOverrides)
      ((pattern.names files s.path).map s.path.child)).runOn ⟨i, files⟩ with ⟨_ | u, i₁, files₁⟩
    · rw [hfirst] at hok
      cases hok
    · rw [hfirst] at hok
      obtain ⟨found, hread, hfiles, hl₁⟩ := hl.addFiles (fun p hmem => by
        obtain ⟨name, hname, rfl⟩ := List.mem_map.1 hmem
        exact hp s List.mem_cons_self pattern (hfor ▸ hpattern) name ((horder.mem_iff name).1 hname))
        hfirst
      obtain rfl : files₁ = files := hfiles
      obtain ⟨paths, documents, hrest, hread', hall⟩ :=
        ih hl₁ (fun s' hs => hp s' (List.mem_cons_of_mem s hs)) hok
      refine ⟨_, found ++ documents, .cons (hfor ▸ hpattern) horder hrest, ?_, ?_⟩
      · rw [List.map_append, hread, hread', List.map_append]
      · rwa [List.flatMap_append, ← List.append_assoc]

end

end Loaded

theorem loaded_load {w w' : Workspace} (hp : w.AllRead w.inventory.IsPlain)
    (hok : Work.load.runOn w = (.ok (), w')) :
    ∃ (paths : List Path) (documents : List Element),
      w.inventory.InLoadOrder w.files w.inventory.known paths ∧
        paths.map w.files.readDocument = documents.map .ok ∧
        Loaded w.inventory w'.inventory (documents.flatMap w.inventory.nodesOf) := by
  have hclear : Loaded w.inventory w.inventory.clear [] :=
    ⟨rfl, coherent_clear _, .empty, .empty w.inventory rfl⟩
  rw [Work.runOn_load] at hok
  exact hclear.addSources hp hok

/-- A load of elements that are neither derived nor outdated serves one element for
each key that comes up, and one grouping element for each value of the grouping
attribute, in the order in which these first come up. It is the last element that
comes up with the key or value, and lookups give that. What comes up are the elements
of the documents in the files, which are read in the order of their directories and, in
each directory, of their paths. -/
theorem load_serves_last {w w' : Workspace} (hp : w.AllRead w.inventory.IsPlain)
    (hok : Work.load.runOn w = (.ok (), w')) :
    let i := w.inventory
    ∃ (paths : List Path) (documents : List Element), i.InLoadOrder w.files i.known paths ∧
      paths.map w.files.readDocument = documents.map .ok ∧
      let nodes := documents.flatMap i.nodesOf
      w'.inventory.elements.map i.slotOf = (nodes.map i.slotOf).eraseDups ∧
        (∀ e ∈ w'.inventory.elements, i.lastIn nodes (i.slotOf e) = some e) ∧
        (∀ (name : String) (values : List (Option String)), name ≠ i.conventions.groupingElement →
          (w'.inventory.getElement name values).1.map Handle.element =
            i.lastIn nodes (.key (.of name (i.schema.fit name values) .main))) ∧
        ∀ (value : Option String) (e : Element), i.lastIn nodes (.grouping value) = some e →
          i.conventions.groupingAttr ∈ i.schema.attrsFor e.name →
          (w'.inventory.getElement e.name (i.schema.valuesOf e)).1.map Handle.element = some e := by
  obtain ⟨paths, documents, horder, hread, -, -, t, ht⟩ := loaded_load hp hok
  refine ⟨paths, documents, horder, hread, ht.slots, fun e he => ht.last_of_mem he,
    fun name values hn => ?_, fun value e he ha => ht.getElement_grouping he ha⟩
  rw [← ht.last, ← ht.schema]
  exact congrArg (Option.map Handle.element) (ht.getElement hn values)

/-! ## Working out what is read -/

section
variable {w : Workspace} {i : Inventory} {files : FileTree} {s : Source} {sources : List Source}
  {names : List String} {paths paths' : List Path}

theorem Inventory.InLoadOrder.unique (h : i.InLoadOrder files sources paths)
    (h' : i.InLoadOrder files sources paths') : paths = paths' := by
  induction h generalizing paths' with
  | nil =>
    cases h'
    rfl
  | cons hp hn _ ih =>
    cases h' with
    | cons hp' hn' hr' =>
      cases hp.symm.trans hp'
      rw [hn.unique hn', ih hr']

/-- A directory with files of known names comes first. -/
theorem Inventory.InLoadOrder.of_names
    (h : ∃ pattern ∈ (i.patternFor s.kind).toOption, pattern.InOrder files s.path names)
    (hr : i.InLoadOrder files sources paths) :
    i.InLoadOrder files (s :: sources) (names.map s.path.child ++ paths) := by
  obtain ⟨pattern, hp, hn⟩ := h
  exact .cons (ok_of_toOption hp) hn hr

/-- Whether everything that is read meets a condition is found out file by file. -/
theorem Workspace.allRead_iff {p : SourceKind → Element → Prop} : w.AllRead p ↔
    ∀ s ∈ w.inventory.known, ∀ pattern ∈ (w.inventory.patternFor s.kind).toOption,
      ∀ f ∈ w.files.filesIn s.path, pattern.matchesName f.1 = true →
        ∀ d ∈ (w.files.readDocument (s.path.child f.1)).toOption, p s.kind d := by
  have hok : ∀ {α : Type} {r : Except InventoryError α} {a : α}, a ∈ r.toOption ↔ r = .ok a :=
    fun {_ _ _} => ⟨ok_of_toOption, fun h => h ▸ rfl⟩
  simp only [AllRead, FilePattern.finds_iff, hok]
  constructor
  · intro hall s hs pattern hp f hf hmatch d hd
    exact hall s hs pattern hp f.1 ⟨⟨f.2, hf⟩, hmatch⟩ d hd
  · rintro hall s hs pattern hp name ⟨⟨time, hf⟩, hmatch⟩ d hd
    exact hall s hs pattern hp (name, time) hf hmatch d hd

instance (p : SourceKind → Element → Prop) [∀ kind d, Decidable (p kind d)] :
    Decidable (w.AllRead p) :=
  decidable_of_iff' _ Workspace.allRead_iff

/-- The elements of the documents in some files, of those that can be read. -/
def Workspace.nodesAt (w : Workspace) (paths : List Path) : List Element :=
  (paths.filterMap fun p => (w.files.readDocument p).toOption).flatMap w.inventory.nodesOf

/-- What comes up is what the files have that come up. -/
theorem Workspace.nodesAt_eq {documents : List Element}
    (h : w.inventory.InLoadOrder w.files sources paths)
    (h' : w.inventory.InLoadOrder w.files sources paths')
    (hr : paths'.map w.files.readDocument = documents.map .ok) :
    w.nodesAt paths = documents.flatMap w.inventory.nodesOf := by
  have hall : (paths'.map w.files.readDocument).filterMap Except.toOption = documents := by
    rw [hr, List.filterMap_map]
    exact List.filterMap_some
  rw [List.filterMap_map] at hall
  rw [h.unique h', nodesAt, ← hall]
  rfl

end

/-! ## Parts and pages of two directories -/

/-- A workspace of version 25 with a directory of shipped files and one of user files,
each with one file, in which pages are looked up by an attribute. -/
def Workspace.ofTwoFiles (pageKey shipped user : String) : Workspace where
  inventory :=
    { (Workspace.ofUser (.ofList [("part", ["id"]), ("layoutType", [pageKey])])).inventory with
      version := 25
      sources := Inventory.addSource (Inventory.addSource .empty ⟨"shipped"⟩ .shipped) ⟨"user"⟩
        .userOverrides }
  files :=
    { entries := .ofList [(["shipped"], .directory),
        (["shipped", "a"], .file shipped.toUTF8 (.given 0)), (["user"], .directory),
        (["user", "default$$a"], .file user.toUTF8 (.given 1))]
      workDir := []
      writes := 0 }

/-- One more shipped file, which the tree has before the others. -/
def Workspace.withShipped (w : Workspace) (name text : String) : Workspace :=
  { w with files := { w.files with
      entries := .ofList
        ((["shipped", name], .file text.toUTF8 (.given 2)) :: w.files.entries.entries) } }

/-- A part of which the next shipped file has another edition, with its key in capitals,
and a page of which the user has another edition. -/
def Workspace.ofEditions : Workspace :=
  (Workspace.ofTwoFiles "layout"
    "<Inventory><layoutType layout=\"page\"/><part id=\"a\"/></Inventory>"
    ("<Inventory><part id=\"c\" version=\"25\"/>" ++
      "<layoutType layout=\"page\" label=\"new\"/></Inventory>")).withShipped "b"
    "<Inventory><part id=\"A\" version=\"25\"/></Inventory>"

def capitalEdition : Element := .part [("id", "A"), ("version", "25")]

/-- A user file with a part that has no version. -/
def Workspace.ofUndated : Workspace :=
  .ofTwoFiles "layout" "<Inventory/>" "<Inventory><part id=\"a\"/></Inventory>"

/-- Two pages that are looked up by their labels, and have none. -/
def Workspace.ofUnlabelled : Workspace :=
  .ofTwoFiles "label"
    "<Inventory><layoutType layout=\"page\"/><layoutType layout=\"sheet\"/></Inventory>"
    "<Inventory/>"

/-- The paths of the files of two directories, by their names. -/
def pathsOf (shipped user : List String) : List Path :=
  shipped.map (Path.child ⟨"shipped"⟩) ++ user.map (Path.child ⟨"user"⟩)

/-- Whether a workspace has the two directories, with files of just these names that
ascend. -/
def Workspace.HasFiles (w : Workspace) (shipped user : List String) : Prop :=
  w.inventory.known = [⟨⟨"shipped"⟩, .shipped⟩, ⟨⟨"user"⟩, .userOverrides⟩] ∧
    (∃ pattern ∈ (w.inventory.patternFor .shipped).toOption,
      pattern.InOrder w.files ⟨"shipped"⟩ shipped) ∧
    ∃ pattern ∈ (w.inventory.patternFor .userOverrides).toOption,
      pattern.InOrder w.files ⟨"user"⟩ user

instance (w : Workspace) (shipped user : List String) : Decidable (w.HasFiles shipped user) :=
  instDecidableAnd

theorem Workspace.HasFiles.inLoadOrder {w : Workspace} {shipped user : List String}
    (h : w.HasFiles shipped user) :
    w.inventory.InLoadOrder w.files w.inventory.known (pathsOf shipped user) := by
  obtain ⟨hknown, hshipped, huser⟩ := h
  rw [hknown, pathsOf, ← List.append_nil (user.map _)]
  exact .of_names hshipped (.of_names huser .nil)

/-- What the key of a part comes to in some files. -/
def Workspace.partAt (w : Workspace) (paths : List Path) : Option Element :=
  w.inventory.lastIn (w.nodesAt paths)
    (.key (.of "part" (w.inventory.schema.fit "part" [some "a"]) .main))

theorem ofEditions_loads : (Work.load.runOn .ofEditions).1.toBool = true := by
  have hknown : Workspace.ofEditions.inventory.known =
      [⟨⟨"shipped"⟩, .shipped⟩, ⟨⟨"user"⟩, .userOverrides⟩] := by decide +kernel
  have hshipped : Workspace.ofEditions.inventory.clear.pattern.InOrder Workspace.ofEditions.files
      ⟨"shipped"⟩ ["a", "b"] := by decide +kernel
  -- A sort of two files does not reduce, so the first directory is opened by hand.
  have hfirst : (Work.addSources [⟨⟨"shipped"⟩, .shipped⟩, ⟨⟨"user"⟩, .userOverrides⟩]).runOn
      ⟨Workspace.ofEditions.inventory.clear, Workspace.ofEditions.files⟩ = _ :=
    Work.runOn_addSources rfl hshipped
  rw [Work.runOn_load, hknown, hfirst]
  decide +kernel

theorem editions_in_order :
    let i := Workspace.ofEditions.inventory
    let nodes := Workspace.ofEditions.nodesAt (pathsOf ["a", "b"] ["default$$a"])
    Workspace.ofEditions.HasFiles ["a", "b"] ["default$$a"] ∧
      pathsOf ["a", "b"] ["default$$a"] =
        [⟨"shipped/a"⟩, ⟨"shipped/b"⟩, ⟨"user/default$$a"⟩] ∧
      Workspace.ofEditions.AllRead i.IsPlain ∧
      (nodes.map i.slotOf).eraseDups = [.grouping (some "page"),
        .key (.of "part" [some "a"] .main), .key (.of "part" [some "c"] .main)] ∧
      Workspace.ofEditions.partAt (pathsOf ["a", "b"] ["default$$a"]) = some capitalEdition ∧
      i.lastIn nodes (.grouping (some "page")) = some newPage := by
  decide +kernel

theorem load_serves_last_editions :
    let i := Workspace.ofEditions.inventory
    let i' := (Work.load.runOn .ofEditions).2.inventory
    i.InLoadOrder Workspace.ofEditions.files i.known
        [⟨"shipped/a"⟩, ⟨"shipped/b"⟩, ⟨"user/default$$a"⟩] ∧
      i'.elements.map i.slotOf = [.grouping (some "page"), .key (.of "part" [some "a"] .main),
        .key (.of "part" [some "c"] .main)] ∧
      (i'.getElement "part" [some "a"]).1.map Handle.element = some capitalEdition ∧
      (i'.getElement "layoutType" [some "page"]).1.map Handle.element = some newPage := by
  obtain ⟨hfiles, hpaths, hplain, hslots, hpart, hpage⟩ := editions_in_order
  obtain ⟨paths, documents, horder, hread, hall, -, hkeys, hgroupings⟩ :=
    load_serves_last (w := .ofEditions) hplain (Prod.ext (ok_of_toBool ofEditions_loads) rfl)
  have hnodes := Workspace.nodesAt_eq hfiles.inLoadOrder horder hread
  rw [hnodes] at hslots hpage
  rw [Workspace.partAt, hnodes] at hpart
  refine ⟨hpaths ▸ hfiles.inLoadOrder, hall.trans hslots,
    (hkeys "part" [some "a"] (by decide)).trans hpart, ?_⟩
  exact hgroupings (some "page") newPage hpage (by decide)

/-- Whether a load of elements that are neither derived nor of another version than the
inventory would serve the last element of each key, and the last grouping element of
each value, with no word about user data and about what grouping elements are looked up
by. -/
def Workspace.ServesLast (w : Workspace) : Prop :=
  let i := w.inventory
  w.AllRead (fun _ => i.IsUniform) → ∀ w', Work.load.runOn w = (.ok (), w') →
    ∃ (paths : List Path) (documents : List Element), i.InLoadOrder w.files i.known paths ∧
      paths.map w.files.readDocument = documents.map .ok ∧
      let nodes := documents.flatMap i.nodesOf
      (∀ (name : String) (values : List (Option String)), name ≠ i.conventions.groupingElement →
        (w'.inventory.getElement name values).1.map Handle.element =
          i.lastIn nodes (.key (.of name (i.schema.fit name values) .main))) ∧
      ∀ (value : Option String) (e : Element), i.lastIn nodes (.grouping value) = some e →
        (w'.inventory.getElement e.name (i.schema.valuesOf e)).1.map Handle.element = some e

theorem editions_not_served :
    (∀ w ∈ [Workspace.ofUndated, .ofUnlabelled], w.HasFiles ["a"] ["default$$a"] ∧
        w.AllRead (fun _ => w.inventory.IsUniform) ∧ (Work.load.runOn w).1.toBool = true) ∧
      ((Workspace.ofUndated.partAt (pathsOf ["a"] ["default$$a"])).isSome = true ∧
        ((Work.load.runOn .ofUndated).2.inventory.getElement "part" [some "a"]).1.isSome = false) ∧
      Workspace.ofUnlabelled.inventory.lastIn
          (Workspace.ofUnlabelled.nodesAt (pathsOf ["a"] ["default$$a"]))
          (.grouping (some "sheet")) = some sheetPage ∧
      ((Work.load.runOn .ofUnlabelled).2.inventory.getElement "layoutType" [none]).1.map
        Handle.element ≠ some sheetPage := by
  decide +kernel

/-- A user element without a version has version zero, so the load drops it. And pages
that are looked up by another attribute than they are grouped by are not told apart. -/
theorem last_not_served :
    (Reachable .ofUndated ∧ ¬ Workspace.ofUndated.ServesLast) ∧
      Reachable .ofUnlabelled ∧ ¬ Workspace.ofUnlabelled.ServesLast := by
  obtain ⟨hall, ⟨hsome, hnone⟩, hlast, hother⟩ := editions_not_served
  obtain ⟨⟨hfiles, hundated, hok⟩, ⟨hfiles', hunlabelled, hok'⟩, -⟩ :=
    List.forall_mem_cons.1 hall |>.imp_right List.forall_mem_cons.1
  refine ⟨⟨.start _ rfl rfl rfl rfl, fun hserves => ?_⟩,
    .start _ rfl rfl rfl rfl, fun hserves => ?_⟩
  · obtain ⟨paths, documents, horder, hread, hkeys, -⟩ :=
      hserves hundated _ (Prod.ext (ok_of_toBool hok) rfl)
    have hserved := hkeys "part" [some "a"] (by decide)
    rw [Workspace.partAt, Workspace.nodesAt_eq hfiles.inLoadOrder horder hread, ← hserved,
      Option.isSome_map, hnone] at hsome
    cases hsome
  · obtain ⟨paths, documents, horder, hread, -, hgroupings⟩ :=
      hserves hunlabelled _ (Prod.ext (ok_of_toBool hok') rfl)
    rw [Workspace.nodesAt_eq hfiles'.inLoadOrder horder hread] at hlast
    have hserved := hgroupings (some "sheet") sheetPage hlast
    rw [show Workspace.ofUnlabelled.inventory.schema.valuesOf sheetPage = [none] by decide] at hserved
    exact hother hserved

end TemplateInventory
