import TemplateInventory.Inventory.UserFiles
import TemplateInventory.Proofs.Moves
/-!
# Operations on workspaces

`Work.Yields` says what an operation that may fail leads to, with one rule for
each way in which operations are made. By these, loading keeps whatever its single
steps keep (`Inventory.KeptByLoading`), whether it fails or not: the lookups, the
elements that are made, and those that are read and then added.

What events do to the holdings is of that kind (`Inventory.keptByLoading_moves`), and
saving an element acts by events as well (`Work.moves_persist`).
-/

namespace TemplateInventory

open Holdings Inventory

namespace Work

section
variable {α β : Type} {work : Work α} {w : Workspace} {post : α → Workspace → Prop}
  {fail : Workspace → Prop}

/-- Whether a success leads to `post`, and a failure to `fail`. -/
def Yields (work : Work α) (w : Workspace) (post : α → Workspace → Prop)
    (fail : Workspace → Prop) : Prop :=
  match work.runOn w with
  | (.ok a, w') => post a w'
  | (.error _, w') => fail w'

theorem runOn_bind (work : Work α) (f : α → Work β) (w : Workspace) :
    (work >>= f).runOn w = match work.runOn w with
      | (.ok a, w') => (f a).runOn w'
      | (.error e, w') => (.error e, w') := by
  change (ExceptT.bindCont f (work.run w).1) (work.run w).2 = _
  rcases hr : work.runOn w with ⟨_ | a, w'⟩
  all_goals
    have hr' : work.run w = _ := hr
    rw [hr']
    rfl

theorem Yields.bind {f : α → Work β} {post : β → Workspace → Prop}
    (h : work.Yields w (fun a w' => (f a).Yields w' post fail) fail) :
    (work >>= f).Yields w post fail := by
  unfold Yields at h ⊢
  rw [runOn_bind]
  rcases hr : work.runOn w with ⟨_ | a, w'⟩
  all_goals
    rw [hr] at h
    exact h

theorem Yields.mono {post' : α → Workspace → Prop} {fail' : Workspace → Prop}
    (h : work.Yields w post fail) (hp : ∀ a w', post a w' → post' a w')
    (hf : ∀ w', fail w' → fail' w') : work.Yields w post' fail' := by
  unfold Yields at h ⊢
  split at h
  · exact hp _ _ h
  · exact hf _ h

/-- What both lead to holds of the workspace that comes back. -/
theorem Yields.runOn (h : work.Yields w (fun _ => fail) fail) : fail (work.runOn w).2 := by
  unfold Yields at h
  split at h
  · next he => rw [he]; exact h
  · next he => rw [he]; exact h

theorem yields_of {f : Workspace → Except InventoryError α × Workspace} :
    (of f).Yields w post fail ↔ match f w with
      | (.ok a, w') => post a w'
      | (.error _, w') => fail w' := Iff.rfl

theorem yields_ask {f : Workspace → Except InventoryError α} (hp : ∀ a, f w = .ok a → post a w)
    (hf : fail w) : (ask f).Yields w post fail := by
  rw [ask, yields_of]
  cases h : f w with
  | ok a => exact hp a h
  | error e => exact hf

theorem yields_onFiles {f : FileTree → Except FileError Unit × FileTree}
    {post : Unit → Workspace → Prop} (hp : ∀ files, post () { w with files := files })
    (hf : ∀ files, fail { w with files := files }) : (onFiles f).Yields w post fail := by
  rw [onFiles, yields_of]
  rcases f w.files with ⟨_ | _, files⟩
  · exact hf files
  · exact hp files

theorem yields_onInventory {f : Inventory → Except InventoryError α × Inventory}
    (hp : ∀ a i, f w.inventory = (.ok a, i) → post a { w with inventory := i })
    (hf : ∀ e i, f w.inventory = (.error e, i) → fail { w with inventory := i }) :
    (onInventory f).Yields w post fail := by
  rw [onInventory, yields_of]
  rcases h : f w.inventory with ⟨_ | a, i⟩
  · exact hf _ i h
  · exact hp a i h

theorem yields_inventory {post : Inventory → Workspace → Prop} (h : post w.inventory w) :
    inventory.Yields w post fail := h

theorem yields_files {post : FileTree → Workspace → Prop} (h : post w.files w) :
    files.Yields w post fail := h

theorem yields_modifyInventory {f : Inventory → Inventory} {post : Unit → Workspace → Prop}
    (h : post () { w with inventory := f w.inventory }) : (modifyInventory f).Yields w post fail := h

/-- Whether an operation leaves a property of the workspace, whether it fails or not. -/
def Leaves (R : Workspace → Prop) (work : Work α) : Prop :=
  ∀ w, R w → work.Yields w (fun _ => R) R

theorem Leaves.bind {R : Workspace → Prop} {f : α → Work β} (h : work.Leaves R)
    (hf : ∀ a, (f a).Leaves R) : (work >>= f).Leaves R := fun w hr =>
  Yields.bind ((h w hr).mono (fun a w' hr' => hf a w' hr') fun _ hr' => hr')

theorem leaves_ask {R : Workspace → Prop} (f : Workspace → Except InventoryError α) :
    (ask f).Leaves R := fun _ hr => yields_ask (fun _ _ => hr) hr

/-- Whether an operation keeps a property of the inventory, whether it fails or not. -/
def Keeps (Q : Inventory → Prop) (work : Work α) : Prop :=
  ∀ w, Q w.inventory → work.Yields w (fun _ w' => Q w'.inventory) fun w' => Q w'.inventory

variable {Q : Inventory → Prop}

theorem Keeps.bind {f : α → Work β} (h : work.Keeps Q) (hf : ∀ a, (f a).Keeps Q) :
    (work >>= f).Keeps Q :=
  Leaves.bind (R := fun w => Q w.inventory) h hf

theorem Keeps.runOn (h : work.Keeps Q) (hq : Q w.inventory) : Q (work.runOn w).2.inventory :=
  (h w hq).runOn

theorem keeps_pure (a : α) : (pure a : Work α).Keeps Q := fun _ hq => hq

theorem keeps_ask (f : Workspace → Except InventoryError α) : (ask f).Keeps Q :=
  leaves_ask (R := fun w => Q w.inventory) f

theorem keeps_inventory : inventory.Keeps Q := fun _ hq => hq

theorem keeps_onFiles (f : FileTree → Except FileError Unit × FileTree) : (onFiles f).Keeps Q :=
  fun _ hq => yields_onFiles (fun _ => hq) fun _ => hq

theorem keeps_modifyInventory {f : Inventory → Inventory} (h : ∀ i, Q i → Q (f i)) :
    (modifyInventory f).Keeps Q := fun w hq => h w.inventory hq

/-- Writing a file back does nothing to the inventory but for a stamp. -/
theorem refreshFile_yields {p : Path} {document : Element} {survivors : List Handle}
    (hq : Q w.inventory) (hs : ∀ i stamps, Q i → Q { i with stamps := stamps }) :
    (refreshFile p document survivors).Yields w (fun _ w' => Q w'.inventory)
      fun w' => Q w'.inventory := by
  refine Yields.bind (yields_inventory ?_)
  split
  · exact hq
  · refine Yields.bind (yields_onFiles (fun files => ?_) fun files => hq)
    refine Yields.bind (yields_files ?_)
    split
    · exact hq
    · exact hs _ _ hq

end

end Work

/-! ## Loading -/

namespace Inventory

/-- Whether the steps of loading keep a property: lookups, making elements, clearing, and
adding an element that was read. It is about what is loaded alone. -/
structure KeptByLoading (Q : Inventory → Prop) : Prop where
  coherent : ∀ {i : Inventory}, Q i → Coherent [] i.holdings
  found : ∀ {i : Inventory} {s : StoreId} {name : String} {values : List (Option String)},
    values.length = (i.schema.attrsFor name).length → Q i →
      Q (i.onHoldings (·.findIn s name values)).2
  resolved : ∀ {i : Inventory} {name : String} {values : List (Option String)},
    values.length = (i.schema.attrsFor name).length → Q i →
      Q (i.onHoldings (·.resolve [] name values)).2
  made : ∀ {i : Inventory} (e : Element), Q i → Q (i.mint e).2
  settings : ∀ {i : Inventory} {sources : Table (List String) Source} {scope : Option String}
    {version : Int} {memo : UnifyMemo} {stamps : List FileStamp} {merges : Nat}, Q i →
      Q { i with
          sources := sources, scope := scope, version := version, memo := memo, stamps := stamps,
          merges := merges }
  cleared : ∀ {i : Inventory}, Q i → Q i.clear
  taken : ∀ {i : Inventory} {node : Handle}, Coherent [node] i.holdings → Q i →
    Q ((i.noteTagged node).addAny node).2

section
variable {Q : Inventory → Prop} {i : Inventory} {nodes : List Handle}

theorem moves_clear (hc : Coherent [] i.holdings) : Moves [] i i.clear :=
  ⟨rfl, .one (e := .cleared) trivial trivial, hc.clear⟩

theorem moves_noteTagged {outside : List Handle} (hc : Coherent outside i.holdings) (node : Handle) :
    Moves outside i (i.noteTagged node) :=
  .stay hc (holdings_noteTagged i node) (conventions_noteTagged i node)

theorem keptByLoading_moves (i₀ : Inventory) : KeptByLoading (Moves [] i₀) where
  coherent hm := hm.coherent
  found hv hm := hm.trans (moves_findIn hm.coherent _ hv)
  resolved hv hm := hm.trans (moves_resolve hm.coherent hv)
  made {i} e hm := hm.trans (moves_mint (x := .fresh i.holdings.nextSerial e) hm.coherent rfl e).leave
  settings hm := hm.keep rfl rfl
  cleared hm := hm.trans (moves_clear hm.coherent)
  taken {i node} hc hm := by
    have hnote := moves_noteTagged hc node
    exact hm.trans (hnote.trans (moves_addAny hnote.coherent)).leave

namespace KeptByLoading

theorem reconcile (hk : KeptByLoading Q) (hq : Q i) (selected : List Selected) (expected : Int)
    (isUser : Bool) : Q (i.reconcile selected expected isUser).2 :=
  KeptByReconciling.reconcile
    ⟨hk.found, hk.made, fun _ hq => hk.settings hq⟩ hq selected expected isUser

/-- Elements that were read are added one after the other. -/
theorem addRead (hk : KeptByLoading Q) (hc : Coherent nodes i.holdings) (hq : Q i) :
    Q (i.addRead nodes).2 := by
  induction nodes generalizing i with
  | nil => exact hq
  | cons node nodes ih =>
    have hnote := moves_noteTagged hc node
    have hadd := hnote.trans (moves_addAny hnote.coherent)
    have hstep := hk.taken (hc.subset fun x hx => by
      rw [List.mem_singleton.1 hx]
      exact .inl List.mem_cons_self) hq
    rw [Inventory.addRead]
    rcases hr : (i.noteTagged node).addAny node with ⟨_ | _, i'⟩
    all_goals rw [hr] at hstep hadd
    · exact hstep
    · exact ih hadd.leave.coherent hstep

theorem addText (hk : KeptByLoading Q) (hq : Q i) (text : String) (expected : Int) :
    Q (i.addText text expected).2 := by
  unfold Inventory.addText
  split
  · exact hq
  · next document _ =>
    have hkept := hk.reconcile hq (i.selection.select document) expected false
    have hmade := moves_reconcile (hk.coherent hq) (i.selection.select document) expected false
    unfold addDocument
    rcases hr : i.reconcile (i.selection.select document) expected false with ⟨_ | r, i'⟩
    all_goals rw [hr] at hkept hmade
    · exact hkept
    · exact hk.addRead hmade.coherent hkept

/-! ### Files -/

open Work

theorem readFile (hk : KeptByLoading Q) (p : Path) : (readFile p).Keeps Q := by
  refine (keeps_ask _).bind fun time => .bind (keeps_modifyInventory fun i hq => ?_) fun _ =>
    keeps_ask _
  exact hk.settings hq

theorem addFile (hk : KeptByLoading Q) (expected : Int) (isUser : Bool) (p : Path) :
    (addFile expected isUser p).Keeps Q := by
  refine (hk.readFile p).bind fun document w hq => ?_
  have hkept := hk.reconcile hq (w.inventory.selection.select document) expected isUser
  have hmade := moves_reconcile (hk.coherent hq) (w.inventory.selection.select document) expected
    isUser
  refine Yields.bind (yields_onInventory (fun r i he => ?_) fun e i he => ?_)
  · rw [he] at hkept hmade
    -- The survivors are added to the inventory that they were made for, so they are followed
    -- from there.
    have hadd : ∀ w' : Workspace, Q w'.inventory ∧ Coherent r.survivors w'.inventory.holdings →
        (onInventory (·.addRead r.survivors)).Yields w' (fun _ w'' => Q w''.inventory)
          fun w'' => Q w''.inventory := by
      rintro w' ⟨hq', hc'⟩
      have hr := hk.addRead hc' hq'
      exact yields_onInventory (fun a i he => by rw [he] at hr; exact hr) fun e i he => by
        rw [he] at hr
        exact hr
    simp only
    split
    · refine Yields.bind ((refreshFile_yields (w := { w with inventory := i })
        (Q := fun i => Q i ∧ Coherent r.survivors i.holdings) ⟨hkept, hmade.coherent⟩
        fun i stamps h => ⟨?_, h.2⟩).mono (fun _ w' => hadd w') fun w' h => h.1)
      exact hk.settings h.1
    · exact hadd _ ⟨hkept, hmade.coherent⟩
  · rw [he] at hkept
    exact hkept

end KeptByLoading

/-! ### Directories and user files -/

open Work

/-- Whether reading files keeps a property of the workspace, and so do the settings that are
made on the way. -/
structure KeptByReading (R : Workspace → Prop) : Prop where
  file : ∀ expected isUser p, (addFile expected isUser p).Leaves R
  cleared : ∀ {w : Workspace}, R w → R { w with inventory := w.inventory.clear }
  settings : ∀ {w : Workspace} {sources : Table (List String) Source} {scope : Option String}
    {version : Int}, R w → R { w with
      inventory := { w.inventory with sources := sources, scope := scope, version := version } }

namespace KeptByReading
variable {R : Workspace → Prop}

theorem addFiles (hk : KeptByReading R) (expected : Int) (isUser : Bool) (paths : List Path) :
    (addFiles expected isUser paths).Leaves R := by
  induction paths with
  | nil => exact fun _ hr => hr
  | cons p rest ih => exact (hk.file expected isUser p).bind fun _ => ih

theorem addDirectory (hk : KeptByReading R) (kind : SourceKind) (expected : Int)
    (directory : Path) : (addDirectory kind expected directory).Leaves R :=
  (leaves_ask _).bind fun _ => hk.addFiles _ _ _

theorem addSources (hk : KeptByReading R) (sources : List Source) :
    (addSources sources).Leaves R := by
  induction sources with
  | nil => exact fun _ hr => hr
  | cons s rest ih =>
    have hself : inventory.Leaves R := fun _ hr => hr
    exact hself.bind fun i => (hk.addDirectory s.kind i.version s.path).bind fun _ => ih

theorem load (hk : KeptByReading R) : load.Leaves R := by
  have hclear : (modifyInventory (·.clear)).Leaves R := fun _ hr => hk.cleared hr
  have hself : inventory.Leaves R := fun _ hr => hr
  exact hclear.bind fun _ => hself.bind fun _ => hk.addSources _

theorem setScope (hk : KeptByReading R) (scope : Option String) : (setScope scope).Leaves R := by
  cases scope with
  | none => exact fun _ hr => hr
  | some scope => exact fun _ hr => hk.settings hr

theorem loadUserFiles (hk : KeptByReading R) (expected : Int) (scope : Option String) :
    (loadUserFiles expected scope).Leaves R := by
  have hversion : (modifyInventory fun i => { i with version := expected }).Leaves R :=
    fun _ hr => hk.settings hr
  have hsource : ∀ directory, (modifyInventory fun i =>
      { i with sources := addSource i.sources directory .userOverrides }).Leaves R :=
    fun _ _ hr => hk.settings hr
  exact hversion.bind fun _ => (hk.setScope scope).bind fun _ => (leaves_ask _).bind fun directory =>
    (hsource directory).bind fun _ => hk.addDirectory _ _ _

end KeptByReading

namespace KeptByLoading

theorem reading (hk : KeptByLoading Q) : KeptByReading fun w => Q w.inventory where
  file := hk.addFile
  cleared hq := hk.cleared hq
  settings hq := hk.settings hq

theorem addFiles (hk : KeptByLoading Q) (expected : Int) (isUser : Bool) (paths : List Path) :
    (addFiles expected isUser paths).Keeps Q :=
  hk.reading.addFiles expected isUser paths

theorem load (hk : KeptByLoading Q) : load.Keeps Q := hk.reading.load

theorem loadUserFiles (hk : KeptByLoading Q) (expected : Int) (scope : Option String) :
    (loadUserFiles expected scope).Keeps Q :=
  hk.reading.loadUserFiles expected scope

theorem reloadIfChanged (hk : KeptByLoading Q) : reloadIfChanged.Keeps Q := by
  refine (keeps_ask _).bind fun same => ?_
  split
  · exact keeps_pure false
  · exact hk.load.bind fun _ => keeps_pure true

theorem addDirectories (hk : KeptByLoading Q) (directories : List Path) :
    (addDirectories directories).Keeps Q := by
  induction directories with
  | nil => exact keeps_pure ()
  | cons d rest ih =>
    refine (keeps_ask _).bind fun isNew => ?_
    simp only
    split
    · have hdirectory : ∀ version, (addDirectory .shipped version d).Keeps Q := fun version =>
        hk.reading.addDirectory .shipped version d
      refine (keeps_modifyInventory fun i hq => ?_).bind fun _ =>
        keeps_inventory.bind fun i => (hdirectory i.version).bind fun _ => ih
      exact hk.settings hq
    · exact ih

theorem deleteAll (deleted : Nat) (paths : List Path) :
    (Work.deleteAll deleted paths).Keeps Q := by
  induction paths generalizing deleted with
  | nil => exact keeps_pure deleted
  | cons p rest ih => exact (keeps_onFiles _).bind fun _ => ih (deleted + 1)

theorem deleteUserFiles (hk : KeptByLoading Q) (scope : Option String) :
    (deleteUserFiles scope).Keeps Q := by
  have hscope : (setScope scope).Keeps Q := hk.reading.setScope scope
  exact hscope.bind fun _ => (keeps_ask _).bind fun _ => (keeps_ask _).bind fun _ => deleteAll _ _

end KeptByLoading

end

end Inventory

/-! ## Saving -/

/-- The saved element is made and added at the end, after its file was written. -/
theorem Work.moves_persist {w : Workspace} (hc : Coherent [] w.inventory.holdings) (source : Handle) :
    (persist source).Yields w (fun _ w' => Inventory.Moves [] w.inventory w'.inventory)
      fun w' => Inventory.Moves [] w.inventory w'.inventory := by
  have hstay : ∀ files, Inventory.Moves [] w.inventory ({ w with files := files } : Workspace).inventory :=
    fun _ => .stay hc rfl rfl
  refine Yields.bind (yields_inventory ?_)
  refine Yields.bind (yields_ask (fun found _ => ?_) (hstay w.files))
  obtain ⟨name, grouping⟩ := found
  refine Yields.bind (yields_ask (fun directory _ => ?_) (hstay w.files))
  refine Yields.bind (yields_onFiles (fun files => ?_) hstay)
  refine Yields.bind (yields_ask (fun document _ => ?_) (hstay files))
  refine Yields.bind (yields_ask (fun document' _ => ?_) (hstay files))
  refine Yields.bind (yields_onFiles (fun files' => ?_) hstay)
  have hm := moves_revise hc source (w.inventory.stampVersion source.element)
  have hadd := hm.trans (moves_add hm.coherent)
  refine Yields.bind (yields_modifyInventory ?_)
  refine Yields.bind (yields_onInventory (fun a i he => ?_) fun e i he => ?_)
  · rw [he] at hadd
    exact hadd.leave
  · rw [he] at hadd
    exact hadd.leave

end TemplateInventory
