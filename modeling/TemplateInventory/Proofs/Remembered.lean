import Mathlib.Data.List.DropRight
import TemplateInventory.Distinct
import TemplateInventory.Unify.Memo
/-!
# Which unifications are remembered

Requests follow each other, and every result that is made gets a number of its own. Whatever was
asked before, a result is the base with the unified children; it is the thing that an earlier
request got just if that one asked for the same pair and nothing was cleared in between; and as
many results are remembered as pairs were asked for since then (`results_by_identity`).

The memory keeps a result for every pair that was asked for since it was cleared, made for one of
the requests for that pair (`Remembers`).
-/

namespace TemplateInventory

namespace UnifyMemo

/-! ## Requests -/

/-- What is asked of the remembered unifications. -/
inductive Request where
  /-- The base with the unified children. If it has to be made, its number is `serial`. -/
  | unified (serial : Nat) (base alteration : Handle)
  /-- To forget everything. -/
  | clear

namespace Request

/-- The number that a result would get. -/
def serial? : Request → Option Nat
  | .unified n _ _ => some n
  | .clear => none

/-- The pair that is asked for. -/
def pair? : Request → Option (NodeId × NodeId)
  | .unified _ b a => some (b.id, a.id)
  | .clear => none

/-- The things that are given. -/
def handles : Request → List Handle
  | .unified _ b a => [b, a]
  | .clear => []

def isUnified : Request → Bool
  | .unified _ _ _ => true
  | .clear => false

end Request

/-- What is remembered after a request. -/
def after (s : KeySchema) (m : UnifyMemo) : Request → UnifyMemo
  | .unified n b a => (m.unifyInto s n b a).2
  | .clear => .empty

/-- What is remembered after requests. -/
def run (s : KeySchema) (rs : List Request) : UnifyMemo := rs.foldl (after s) .empty

/-- The result of a request after others. -/
def result (s : KeySchema) (before : List Request) (n : Nat) (b a : Handle) : Handle :=
  ((run s before).unifyInto s n b a).1

/-- The requests after the last one to forget. -/
def sinceClear (rs : List Request) : List Request := rs.rtakeWhile Request.isUnified

/-- Whether every making has a number of its own. -/
def Numbered (rs : List Request) : Prop := (rs.filterMap Request.serial?).Nodup

/-- Whether handles of one thing hold one element, as bases and as alterations. -/
def OneEach (rs : List Request) : Prop :=
  ∀ h ∈ rs.flatMap Request.handles, ∀ h' ∈ rs.flatMap Request.handles,
    h.id = h'.id → h.element = h'.element

instance (rs : List Request) : Decidable (Numbered rs) :=
  inferInstanceAs (Decidable (List.Nodup _))

instance (rs : List Request) : Decidable (OneEach rs) :=
  inferInstanceAs (Decidable (∀ h ∈ rs.flatMap Request.handles,
    ∀ h' ∈ rs.flatMap Request.handles, h.id = h'.id → h.element = h'.element))

section
variable {s : KeySchema} {m : UnifyMemo} {rs before between later : List Request} {r r' : Request}
  {n n' : Nat} {b b' a a' h : Handle} {p : NodeId × NodeId}

theorem run_concat (s : KeySchema) (rs : List Request) (r : Request) :
    run s (rs ++ [r]) = after s (run s rs) r :=
  List.foldl_append

@[simp] theorem sinceClear_unified (rs : List Request) (n : Nat) (b a : Handle) :
    sinceClear (rs ++ [.unified n b a]) = sinceClear rs ++ [.unified n b a] :=
  List.rtakeWhile_concat_pos _ _ _ rfl

@[simp] theorem sinceClear_clear (rs : List Request) : sinceClear (rs ++ [.clear]) = [] :=
  List.rtakeWhile_concat_neg _ _ _ Bool.false_ne_true

theorem mem_of_mem_sinceClear (hr : r ∈ sinceClear rs) : r ∈ rs :=
  (List.rtakeWhile_suffix _ _).subset hr

/-- Nothing before a request to forget counts. -/
theorem mem_of_mem_sinceClear_append (hr : r ∈ sinceClear (rs ++ .clear :: later)) : r ∈ later := by
  induction later using List.reverseRecOn with
  | nil => simp at hr
  | append_singleton later q ih =>
    rw [← List.cons_append, ← List.append_assoc] at hr
    cases q with
    | unified n b a =>
      rw [sinceClear_unified] at hr
      exact List.mem_append.2 ((List.mem_append.1 hr).imp_left ih)
    | clear =>
      rw [sinceClear_clear] at hr
      cases hr

/-- A number of an earlier request is not that of a later one. -/
theorem Numbered.serial_ne (hrs : Numbered (before ++ later)) (hr : r ∈ before) (hr' : r' ∈ later)
    (hn : r.serial? = some n) : r'.serial? ≠ some n := by
  rw [Numbered, List.filterMap_append, List.nodup_append] at hrs
  exact fun hn' => hrs.2.2 n (List.mem_filterMap.2 ⟨r, hr, hn⟩) n
    (List.mem_filterMap.2 ⟨r', hr', hn'⟩) rfl

/-- Requests with one number are one request. -/
theorem Numbered.eq (hrs : Numbered rs) (hr : r ∈ rs) (hr' : r' ∈ rs)
    (hn : r.serial? = some n) (hn' : r'.serial? = some n) : r' = r := by
  obtain ⟨before, later, rfl⟩ := List.append_of_mem hr
  rcases List.mem_append.1 hr' with hbefore | hlater
  · exact absurd hn (hrs.serial_ne hbefore List.mem_cons_self hn')
  · rcases List.mem_cons.1 hlater with rfl | hlater
    · rfl
    · rw [List.append_cons] at hrs
      exact absurd hn' (hrs.serial_ne (List.mem_append_right _ List.mem_cons_self) hlater hn)

theorem Numbered.of_append (hrs : Numbered (before ++ later)) : Numbered before := by
  rw [Numbered, List.filterMap_append] at hrs
  exact (List.nodup_append.1 hrs).1

/-- An earlier request that still counts was not followed by one to forget. -/
theorem Numbered.clear_not_mem (hrs : Numbered (before ++ (between ++ later))) (hr : r ∈ before)
    (hn : r.serial? = some n) (hsince : r ∈ sinceClear (before ++ (between ++ later))) :
    Request.clear ∉ between := by
  intro hclear
  obtain ⟨old, new, rfl⟩ := List.append_of_mem hclear
  have hsplit : before ++ ((old ++ .clear :: new) ++ later) =
      (before ++ old) ++ .clear :: (new ++ later) := by simp
  rw [hsplit] at hsince
  have hlater : r ∈ (old ++ .clear :: new) ++ later := by
    rw [List.append_assoc]
    exact List.mem_append_right _ (List.mem_cons_of_mem _ (mem_of_mem_sinceClear_append hsince))
  exact hrs.serial_ne hr hlater hn hn

/-! ## What is kept -/

theorem get?_unifyInto (m : UnifyMemo) (s : KeySchema) (n : Nat) (b a : Handle) :
    (m.unifyInto s n b a).2.entries.get? (b.id, a.id) = some (m.unifyInto s n b a).1 := by
  unfold unifyInto
  split
  · next h hget => exact hget
  · simp

/-- A result that is there stays. -/
theorem get?_unifyInto_of_some (hget : m.entries.get? p = some h) :
    (m.unifyInto s n b a).2.entries.get? p = some h := by
  unfold unifyInto
  split
  · exact hget
  · next hnone =>
    rw [Table.get?_put, if_neg, hget]
    rintro rfl
    rw [hnone] at hget
    cases hget

theorem get?_run_append (hget : (run s before).entries.get? p = some h)
    (hbetween : Request.clear ∉ between) :
    (run s (before ++ between)).entries.get? p = some h := by
  induction between using List.reverseRecOn with
  | nil => rwa [List.append_nil]
  | append_singleton between r ih =>
    rw [List.mem_append, not_or, List.mem_singleton] at hbetween
    rw [← List.append_assoc, run_concat]
    cases r with
    | unified n b a => exact get?_unifyInto_of_some (ih hbetween.1)
    | clear => exact absurd rfl hbetween.2

/-- What is remembered, by the requests since everything was forgotten. -/
structure Remembers (s : KeySchema) (m : UnifyMemo) (rs : List Request) : Prop where
  /-- Every pair that was asked for has a result, and no other. -/
  asked (p : NodeId × NodeId) : p ∈ m.entries.keys ↔ p ∈ rs.filterMap Request.pair?
  /-- Every result was made for a request for its pair. -/
  made (p : NodeId × NodeId) (h : Handle) (hget : m.entries.get? p = some h) :
    ∃ n b a, .unified n b a ∈ rs ∧ p = (b.id, a.id) ∧ h = Handle.unifyInto s n b a

theorem remembers_empty (s : KeySchema) : Remembers s .empty [] :=
  ⟨fun _ => Iff.rfl, fun _ _ hget => by cases hget⟩

theorem Remembers.unified (hm : Remembers s m rs) (n : Nat) (b a : Handle) :
    Remembers s (m.unifyInto s n b a).2 (rs ++ [.unified n b a]) := by
  have hpairs (p : NodeId × NodeId) : p ∈ (rs ++ [Request.unified n b a]).filterMap Request.pair? ↔
      p ∈ m.entries.keys ∨ p = (b.id, a.id) := by
    rw [List.filterMap_append, List.mem_append, ← hm.asked]
    exact or_congr_right List.mem_singleton
  unfold unifyInto
  split
  · -- The pair was asked for before.
    next h hget =>
    have hpair : (b.id, a.id) ∈ m.entries.keys := by
      rw [← Table.contains_iff, Table.contains, hget]
      rfl
    refine ⟨fun p => ?_, fun p h hget => ?_⟩
    · rw [hpairs, or_iff_left_of_imp]
      rintro rfl
      exact hpair
    · obtain ⟨n', b', a', hr, hrest⟩ := hm.made p h hget
      exact ⟨n', b', a', List.mem_append_left _ hr, hrest⟩
  · next hnone =>
    refine ⟨fun p => ?_, fun p h hget => ?_⟩
    · rw [hpairs, Table.keys_put, if_neg ((Table.get?_eq_none_iff _ _).1 hnone), List.mem_append,
        List.mem_singleton]
    · rw [Table.get?_put] at hget
      split at hget
      · next hp =>
        exact ⟨n, b, a, List.mem_append_right _ List.mem_cons_self, hp.symm,
          (Option.some.inj hget).symm⟩
      · obtain ⟨n', b', a', hr, hrest⟩ := hm.made p h hget
        exact ⟨n', b', a', List.mem_append_left _ hr, hrest⟩

theorem remembers_run (s : KeySchema) (rs : List Request) :
    Remembers s (run s rs) (sinceClear rs) := by
  induction rs using List.reverseRecOn with
  | nil => exact remembers_empty s
  | append_singleton rs r ih =>
    rw [run_concat]
    cases r with
    | unified n b a =>
      rw [sinceClear_unified]
      exact ih.unified n b a
    | clear =>
      rw [sinceClear_clear]
      exact remembers_empty s

/-! ## Results -/

/-- A result was made for a request for its pair, at the latest for this one. -/
theorem result_made (s : KeySchema) (before : List Request) (n : Nat) (b a : Handle) :
    ∃ n' b' a', .unified n' b' a' ∈ sinceClear (before ++ [.unified n b a]) ∧
      b'.id = b.id ∧ a'.id = a.id ∧ result s before n b a = Handle.unifyInto s n' b' a' := by
  have hget := get?_unifyInto (run s before) s n b a
  have hrun := remembers_run s (before ++ [.unified n b a])
  rw [run_concat] at hrun
  obtain ⟨n', b', a', hr, hpair, hmade⟩ := hrun.made _ _ hget
  rw [Prod.mk.injEq] at hpair
  exact ⟨n', b', a', hr, hpair.1.symm, hpair.2.symm, hmade⟩

/-- A result is what unifying would make now. -/
theorem element_result (hone : OneEach rs) (hrs : rs = before ++ .unified n b a :: later) :
    (result s before n b a).element = TemplateInventory.unifyInto s b.element a.element := by
  obtain ⟨n', b', a', hr, hb, ha, hmade⟩ := result_made s before n b a
  have hthis : .unified n b a ∈ rs := by simp [hrs]
  have hmaking : .unified n' b' a' ∈ rs := by
    rw [hrs, List.append_cons]
    exact List.mem_append_left _ (mem_of_mem_sinceClear hr)
  have hgiven {r : Request} {h : Handle} (hr : r ∈ rs) (hh : h ∈ r.handles) :
      h ∈ rs.flatMap Request.handles := List.mem_flatMap.2 ⟨r, hr, hh⟩
  have hbase : b'.element = b.element :=
    hone _ (hgiven hmaking (.head _)) _ (hgiven hthis (.head _)) hb
  have halteration : a'.element = a.element :=
    hone _ (hgiven hmaking (.tail _ (.head _))) _ (hgiven hthis (.tail _ (.head _))) ha
  rw [hmade, Handle.unifyInto, hbase, halteration]

/-- The same pair gives the same result until everything is forgotten. -/
theorem result_again (s : KeySchema) (before : List Request) (n n' : Nat)
    (hb : b.id = b'.id) (ha : a.id = a'.id) (hbetween : Request.clear ∉ between) :
    result s (before ++ .unified n b a :: between) n' b' a' = result s before n b a := by
  have hfirst : (run s (before ++ [.unified n b a])).entries.get? (b.id, a.id) =
      some (result s before n b a) := by
    rw [run_concat]
    exact get?_unifyInto _ s n b a
  have hkept := get?_run_append hfirst hbetween
  rw [← List.append_cons, hb, ha] at hkept
  rw [result, unifyInto, hkept]

/-- One result for two requests means that they asked for one pair, and that nothing was
forgotten in between. -/
theorem pair_eq_of_same_result
    (hrs : Numbered ((before ++ [.unified n b a]) ++ (between ++ [.unified n' b' a'])))
    (hsame : (result s (before ++ .unified n b a :: between) n' b' a').same
      (result s before n b a) = true) :
    b.id = b'.id ∧ a.id = a'.id ∧ Request.clear ∉ between := by
  obtain ⟨n₁, b₁, a₁, hr₁, hb₁, ha₁, hmade₁⟩ := result_made s before n b a
  obtain ⟨n₂, b₂, a₂, hr₂, hb₂, ha₂, hmade₂⟩ :=
    result_made s (before ++ .unified n b a :: between) n' b' a'
  -- Both results come from requests of one number, so from one request.
  have hserial : n₂ = n₁ := by
    rw [Handle.same, beq_iff_eq, hmade₁, hmade₂, Handle.id_unifyInto, Handle.id_unifyInto] at hsame
    exact congrArg NodeId.serial hsame
  subst hserial
  have hfirst : .unified n₂ b₁ a₁ ∈ before ++ [.unified n b a] := mem_of_mem_sinceClear hr₁
  rw [List.append_cons before, List.append_assoc] at hr₂
  have heq : Request.unified n₂ b₂ a₂ = .unified n₂ b₁ a₁ :=
    hrs.eq (List.mem_append_left _ hfirst) (mem_of_mem_sinceClear hr₂) rfl rfl
  obtain ⟨-, rfl, rfl⟩ := Request.unified.inj heq
  exact ⟨hb₁.symm.trans hb₂, ha₁.symm.trans ha₂, hrs.clear_not_mem hfirst rfl hr₂⟩

/-- As many results are remembered as pairs were asked for since everything was forgotten. -/
theorem size_run (s : KeySchema) (rs : List Request) :
    (run s rs).size = (distinctItems ((sinceClear rs).filterMap Request.pair?)).length := by
  have hperm := (List.perm_ext_iff_of_nodup (run s rs).entries.distinct
    (nodup_distinctItems ((sinceClear rs).filterMap Request.pair?))).2 fun p =>
      ((remembers_run s rs).asked p).trans mem_distinctItems.symm
  rw [← hperm.length_eq, List.length_map]
  rfl

end

/-- For any requests: a result is the base with the unified children; it is the result of an
earlier request just if both asked for the same pair and nothing was forgotten in between; and
as many results are remembered as pairs were asked for since everything was forgotten. -/
theorem results_by_identity (s : KeySchema) {rs : List Request} (hnumbered : Numbered rs)
    (hone : OneEach rs) :
    (∀ before n b a later, rs = before ++ .unified n b a :: later →
      (result s before n b a).element =
        { name := b.element.name
          attributes := b.element.attributes
          children := unifyChildren s a.element b.element
          text := b.element.text }) ∧
    (∀ before n b a between n' b' a' later,
      rs = before ++ .unified n b a :: (between ++ .unified n' b' a' :: later) →
      ((result s (before ++ .unified n b a :: between) n' b' a').same (result s before n b a) ↔
        b.same b' ∧ a.same a' ∧ Request.clear ∉ between)) ∧
    (run s rs).size = (distinctItems ((sinceClear rs).filterMap Request.pair?)).length := by
  refine ⟨fun before n b a later hrs => ?_, fun before n b a between n' b' a' later hrs => ?_,
    size_run s rs⟩
  · exact element_result hone hrs
  · simp only [Handle.same, beq_iff_eq]
    constructor
    · intro hsame
      have hsplit : rs = (before ++ [.unified n b a]) ++ (between ++ [.unified n' b' a']) ++ later := by
        simp [hrs]
      rw [hsplit] at hnumbered
      exact pair_eq_of_same_result hnumbered.of_append (beq_iff_eq.2 hsame)
    · rintro ⟨hb, ha, hbetween⟩
      rw [result_again s before n n' hb ha hbetween]

/-! ## Equal things -/

/-- A page with a part. -/
def redPage : Handle :=
  .fresh 0 ⟨"page", .empty, [⟨"part", .ofList [("id", "red")], [], none⟩], none⟩

/-- Another one with the same content. -/
def redPageCopy : Handle := .fresh 1 redPage.element

/-- A page with another part. -/
def bluePage : Handle :=
  .fresh 2 ⟨"page", .empty, [⟨"part", .ofList [("id", "blue")], [], none⟩], none⟩

def partsById : KeySchema := .ofList [("part", ["id"])]

/-- Requests for a pair, for a copy of it, for the pair the other way round, and for the pair
again after everything was forgotten. -/
def pageRequests : List Request :=
  [.unified 3 redPage bluePage, .unified 4 redPage bluePage, .unified 5 redPageCopy bluePage,
    .unified 6 bluePage redPage, .clear, .unified 7 redPage bluePage]

/-- An equal page is another one, and so is the result for it; a result that was forgotten is
made anew. -/
theorem results_by_identity_pages : Numbered pageRequests ∧ OneEach pageRequests ∧
    (result partsById (pageRequests.take 1) 4 redPage bluePage).same
      (result partsById [] 3 redPage bluePage) ∧
    ¬ (result partsById (pageRequests.take 2) 5 redPageCopy bluePage).same
      (result partsById [] 3 redPage bluePage) ∧
    ¬ (result partsById (pageRequests.take 5) 7 redPage bluePage).same
      (result partsById [] 3 redPage bluePage) ∧
    (run partsById pageRequests).size = 1 := by
  have hnumbered : Numbered pageRequests := by decide
  have hone : OneEach pageRequests := by decide
  obtain ⟨-, hsame, hsize⟩ := results_by_identity partsById hnumbered hone
  refine ⟨hnumbered, hone, ?_, fun h => ?_, fun h => ?_, ?_⟩
  · exact (hsame [] 3 redPage bluePage [] 4 redPage bluePage _ rfl).2 ⟨rfl, rfl, List.not_mem_nil⟩
  · have hsource := ((hsame [] 3 redPage bluePage [.unified 4 redPage bluePage]
      5 redPageCopy bluePage _ rfl).1 h).1
    exact absurd hsource (by decide)
  · have hkept := ((hsame [] 3 redPage bluePage
      [.unified 4 redPage bluePage, .unified 5 redPageCopy bluePage, .unified 6 bluePage redPage,
        .clear] 7 redPage bluePage _ rfl).1 h).2.2
    exact hkept (by simp)
  · rw [hsize]
    decide

end UnifyMemo

end TemplateInventory
