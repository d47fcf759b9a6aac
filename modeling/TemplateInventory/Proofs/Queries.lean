import TemplateInventory.Proofs.Runs
import TemplateInventory.Query.Parser
import TemplateInventory.Query.Printer
/-!
# Reading written queries

A query is read as it was written exactly if all names in it are names, and every
query that is read at all is of that form (`parse_text_iff`). So the written form of
a query that was read is another way to write it.

Each part of a query is read up to where it ends, whatever follows, as long as that
does not go on with it: a name before a character of no name, a value before a
character that is not its quote (`readValue_quoteValue`), a condition before
`AfterPredicate`, a step before a slash or the end. How a value is quoted does not
matter to the reader, since every quote of its kind is doubled.
-/

namespace TemplateInventory

open TemplateInventory.Text

/-! ## Names of queries -/

/-- The attribute that a condition is about. -/
def Predicate.attr : Predicate → String
  | .equals attr _ => attr
  | .absent attr => attr
  | .present attr => attr

/-- Whether a text serves as a name in queries. -/
def Query.isName (s : String) : Bool := !s.toList.isEmpty && s.toList.all isNameChar

/-- Whether the names in a step are names. -/
def Step.WellNamed (s : Step) : Prop :=
  (∀ name ∈ s.name, Query.isName name = true) ∧
    ∀ p ∈ s.predicates, Query.isName p.attr = true

/-- Whether the names in a query are names. -/
def Query.WellNamed (q : Query) : Prop := ∀ s ∈ q.steps, s.WellNamed

instance : DecidablePred Step.WellNamed := fun _ => inferInstanceAs (Decidable (_ ∧ _))

instance : DecidablePred Query.WellNamed := fun q =>
  inferInstanceAs (Decidable (∀ s ∈ q.steps, s.WellNamed))

section
variable {cs rest : List Char} {name : String}

theorem Query.isName_iff :
    isName name = true ↔ name.toList ≠ [] ∧ ∀ c ∈ name.toList, isNameChar c = true := by
  rw [isName, Bool.and_eq_true, Bool.not_eq_true', List.isEmpty_eq_false_iff, List.all_eq_true]

theorem Query.exists_cons_of_isName (h : isName name = true) :
    ∃ c tail, name.toList = c :: tail ∧ isNameChar c = true := by
  obtain ⟨hne, hall⟩ := isName_iff.1 h
  obtain ⟨c, tail, hname⟩ := List.exists_cons_of_ne_nil hne
  exact ⟨c, tail, hname, hall c (hname ▸ List.mem_cons_self)⟩

/-! ## Reading what was written -/

theorem readName_append (hn : Query.isName name = true)
    (hr : rest.head?.all (!isNameChar ·) = true) :
    readName (name.toList ++ rest) = .ok (name, rest) := by
  obtain ⟨hne, hall⟩ := Query.isName_iff.1 hn
  rw [readName, takeWhile_append_of_head hall hr, dropWhile_append_of_head hall hr]
  split
  · next h => exact absurd h hne
  · rw [String.ofList_toList]

/-- Doubling a quote is undone, if the last quote is not followed by another. -/
theorem readValueBody_doubled {quote : Char} (value : List Char)
    (hr : rest.head?.all (· != quote) = true) :
    readValueBody quote
      (value.flatMap (fun c => if c = quote then [c, c] else [c]) ++ quote :: rest) =
        .ok (value, rest) := by
  induction value with
  | nil =>
    -- Only here one quote stands alone.
    cases rest with
    | nil => simp [readValueBody]
    | cons d rest =>
      have hd : ¬ d = quote := by simpa using hr
      simp [readValueBody, hd]
  | cons c value ih =>
    rw [List.flatMap_cons]
    by_cases hc : c = quote
    · simp [hc, readValueBody, ih, Except.map]
    · obtain ⟨d, more, hmore⟩ := List.exists_cons_of_ne_nil
        (List.append_ne_nil_of_right_ne_nil
          (value.flatMap fun c => if c = quote then [c, c] else [c]) (List.cons_ne_nil quote rest))
      rw [if_neg hc, List.singleton_append, List.cons_append, hmore, readValueBody, if_neg hc,
        ← hmore, ih]
      rfl

theorem readValue_quoteValue {value : List Char}
    (hr : rest.head?.all (fun c => c != '\x27' && c != '\x22') = true) :
    readValue (quoteValue (valueQuote value) value ++ rest) = .ok (String.ofList value, rest) := by
  have hother : ∀ quote ∈ ['\x27', '\x22'], rest.head?.all (· != quote) = true := by
    intro quote hq
    cases rest with
    | nil => rfl
    | cons c rest =>
      simp only [List.head?_cons, Option.all_some, Bool.and_eq_true] at hr ⊢
      simp only [List.mem_cons, List.not_mem_nil, or_false] at hq
      rcases hq with rfl | rfl
      · exact hr.1
      · exact hr.2
  have hread : ∀ quote ∈ ['\x27', '\x22'],
      (readValueBody quote (value.flatMap (fun c => if c = quote then [c, c] else [c]) ++
        quote :: rest)).map (fun r => (String.ofList r.1, r.2)) = .ok (String.ofList value, rest) := by
    intro quote hq
    rw [readValueBody_doubled value (hother quote hq)]
    rfl
  unfold valueQuote quoteValue
  split
  · simpa [readValue] using hread '\x22' (by simp)
  · simpa [readValue] using hread '\x27' (by simp)

/-- What can follow a condition: nothing that goes on with its name or its value, and no
comparison. -/
structure AfterPredicate (rest : List Char) : Prop where
  noName : rest.head?.all (!isNameChar ·) = true
  noQuote : rest.head?.all (fun c => c != '\x27' && c != '\x22') = true
  noEquals : (skipBlank rest).head?.all (· != '=') = true

theorem skipBlank_cons {c : Char} (hc : isBlank c = false) (cs : List Char) :
    skipBlank (c :: cs) = c :: cs :=
  List.dropWhile_cons_of_neg (by simp [hc])

theorem skipBlank_and (rest : List Char) :
    skipBlank (" and ".toList ++ rest) = "and ".toList ++ rest :=
  have hspace : ∀ c ∈ [' '], isBlank c = true := List.all_eq_true.1 (by decide)
  dropWhile_append_stop hspace (by decide)

theorem afterPredicate_close (rest : List Char) : AfterPredicate (']' :: rest) where
  noName := show (!isNameChar ']') = true by decide
  noQuote := rfl
  noEquals := by
    rw [skipBlank_cons (by decide)]
    rfl

theorem afterPredicate_and (rest : List Char) : AfterPredicate (" and ".toList ++ rest) where
  noName := show (!isNameChar ' ') = true by decide
  noQuote := rfl
  noEquals := by
    rw [skipBlank_and]
    rfl

theorem readAttribute_append (hn : Query.isName name = true)
    (hr : rest.head?.all (!isNameChar ·) = true) :
    readAttribute ('@' :: (name.toList ++ rest)) = .ok (name, rest) := by
  rw [readAttribute, readChar, if_pos rfl]
  exact readName_append hn hr

/-- A condition is read back, and what follows it up to white space. -/
theorem readPredicate_print {p : Predicate} (hp : Query.isName p.attr = true)
    (hr : AfterPredicate rest) :
    ∃ rest', readPredicate (p.print ++ rest) = .ok (p, rest') ∧
      skipBlank rest' = skipBlank rest := by
  cases p with
  | equals attr value =>
    let written := quoteValue (valueQuote value.toList) value.toList
    have hattr : readAttribute ('@' :: (attr.toList ++ '=' :: (written ++ rest))) =
        .ok (attr, '=' :: (written ++ rest)) :=
      readAttribute_append hp (show (!isNameChar '=') = true by decide)
    have hvalue : readValue (skipBlank (written ++ rest)) = .ok (value, rest) := by
      have hquote : ∃ more, written ++ rest = valueQuote value.toList :: more := ⟨_, rfl⟩
      have hblank : isBlank (valueQuote value.toList) = false := by
        unfold valueQuote
        split <;> decide
      obtain ⟨more, hmore⟩ := hquote
      rw [hmore, skipBlank_cons hblank, ← hmore, readValue_quoteValue hr.noQuote,
        String.ofList_toList]
    refine ⟨rest, ?_, rfl⟩
    have hprint : (Predicate.equals attr value).print ++ rest =
        '@' :: (attr.toList ++ '=' :: (written ++ rest)) := by
      simp [written]
    rw [hprint, readPredicate, if_neg (by simp), hattr]
    simp only [skipBlank_cons (c := '=') (by decide), readComparison, hvalue]
  | absent attr =>
    have hattr : readAttribute (skipBlank ('@' :: (attr.toList ++ ')' :: rest))) =
        .ok (attr, ')' :: rest) := by
      rw [skipBlank_cons (by decide)]
      exact readAttribute_append hp (show (!isNameChar ')') = true by decide)
    refine ⟨rest, ?_, rfl⟩
    have hprint : (Predicate.absent attr).print ++ rest =
        "not(".toList ++ '@' :: (attr.toList ++ ')' :: rest) := by
      simp
    have hdrop : ∀ cs, ("not(".toList ++ cs).drop 4 = cs := fun _ => rfl
    rw [hprint, readPredicate, if_pos (by simp), hdrop, readAbsent, hattr]
    simp [skipBlank_cons (c := ')') (by decide), readChar]
  | present attr =>
    have hattr : readAttribute ('@' :: (attr.toList ++ rest)) = .ok (attr, rest) :=
      readAttribute_append hp hr.noName
    have hnone : readComparison attr (skipBlank rest) = .ok (.present attr, skipBlank rest) := by
      have hequals := hr.noEquals
      unfold readComparison
      split
      · next h =>
        rw [h] at hequals
        cases hequals
      · rfl
    -- In search of a comparison, white space after the name is passed.
    refine ⟨skipBlank rest, ?_, dropWhile_of_head (head_dropWhile isBlank rest)⟩
    rw [readPredicate, Predicate.print_present, List.cons_append, if_neg (by simp), hattr]
    exact hnone

theorem skipBlank_print (p : Predicate) (rest : List Char) :
    skipBlank (p.print ++ rest) = p.print ++ rest := by
  cases p with
  | equals attr value => exact skipBlank_cons (c := '@') (by decide) _
  | absent attr => exact skipBlank_cons (c := 'n') (by decide) _
  | present attr => exact skipBlank_cons (c := '@') (by decide) _

theorem readPredicates_last {p : Predicate} (h : readPredicate (skipBlank cs) = .ok (p, rest))
    (hlast : "and".toList.isPrefixOf (skipBlank rest) = false) :
    readPredicates cs = .ok ([p], skipBlank rest) := by
  rw [readPredicates]
  split
  · next h' => cases h'.symm.trans h
  · next h' =>
    cases h'.symm.trans h
    simp only [hlast, Bool.false_eq_true, if_false]

theorem readPredicates_and {p : Predicate} {more : List Char}
    (h : readPredicate (skipBlank cs) = .ok (p, rest))
    (hmore : skipBlank rest = "and".toList ++ more) :
    readPredicates cs = (readPredicates more).map fun r => (p :: r.1, r.2) := by
  have hstart : "and".toList.isPrefixOf (skipBlank rest) = true := by rw [hmore]; rfl
  have hdrop : (skipBlank rest).drop 3 = more := by rw [hmore]; rfl
  rw [readPredicates]
  split
  · next h' => cases h'.symm.trans h
  · next h' =>
    cases h'.symm.trans h
    simp only [hstart, if_true, hdrop]
    cases readPredicates more <;> rfl

/-- Conditions are read back up to the bracket. -/
theorem readPredicates_print {p : Predicate} {ps : List Predicate}
    (hps : ∀ p' ∈ p :: ps, Query.isName p'.attr = true)
    (hcs : skipBlank cs = p.print ++ (printMore ps ++ ']' :: rest)) :
    readPredicates cs = .ok (p :: ps, ']' :: rest) := by
  induction ps generalizing p cs with
  | nil =>
    obtain ⟨rest', hread, hrest'⟩ := readPredicate_print (hps p List.mem_cons_self)
      (afterPredicate_close rest)
    rw [skipBlank_cons (by decide)] at hrest'
    rw [readPredicates_last (hcs ▸ hread) (by rw [hrest']; rfl), hrest']
  | cons p' ps ih =>
    -- The word is passed, and the space after it is left to the next condition.
    let more := p'.print ++ (printMore ps ++ ']' :: rest)
    obtain ⟨rest', hread, hrest'⟩ := readPredicate_print (hps p List.mem_cons_self)
      (afterPredicate_and more)
    have hmore : readPredicates (' ' :: more) = .ok (p' :: ps, ']' :: rest) := by
      refine ih (fun q hq => hps q (List.mem_cons_of_mem p hq)) ?_
      rw [← skipBlank_print]
      rfl
    rw [printMore_cons, List.append_assoc, List.append_assoc] at hcs
    have hand : skipBlank rest' = "and".toList ++ ' ' :: more := by
      rw [hrest', skipBlank_and]
      rfl
    rw [readPredicates_and (hcs ▸ hread) hand, hmore]
    rfl

/-! ## Steps -/

theorem readStepName_print {step : Option String} (hn : ∀ n ∈ step, Query.isName n = true)
    (hr : rest.head?.all (!isNameChar ·) = true) :
    readStepName ((step.getD "*").toList ++ rest) = .ok (step, rest) := by
  cases step with
  | none => rfl
  | some n =>
    obtain ⟨c, tail, hname, hc⟩ := Query.exists_cons_of_isName (hn n rfl)
    have hstar : c ≠ '*' := by
      rintro rfl
      revert hc
      decide
    have hread := readName_append (hn n rfl) hr
    simp only [Option.getD_some]
    rw [hname] at hread ⊢
    unfold readStepName
    split
    · next h => exact absurd (List.cons.inj h).1 hstar
    · rw [hread]

/-- A step is read back up to a slash or the end. -/
theorem readStep_print {s : Step} (hs : s.WellNamed)
    (hr : rest.head?.all (fun c => !isNameChar c && c != '[') = true) :
    readStep (s.print ++ rest) = .ok (s, rest) := by
  obtain ⟨name, ps⟩ := s
  obtain ⟨hname, hps⟩ := hs
  rw [Step.print, List.append_assoc, readStep]
  cases ps with
  | nil =>
    have hnoName : rest.head?.all (!isNameChar ·) = true := by
      cases rest with
      | nil => rfl
      | cons c rest =>
        simp only [List.head?_cons, Option.all_some, Bool.and_eq_true] at hr ⊢
        exact hr.1
    rw [printPredicates, List.nil_append, readStepName_print hname hnoName]
    split
    · next h => cases h
    · next h =>
      cases h
      cases hr
    · next h =>
      cases h
      rfl
  | cons p ps =>
    let inner := p.print ++ (printMore ps ++ ']' :: rest)
    have hread : readPredicates inner = .ok (p :: ps, ']' :: rest) :=
      readPredicates_print hps (skipBlank_print p _)
    have hstop : ('[' :: inner).head?.all (!isNameChar ·) = true :=
      show (!isNameChar '[') = true by decide
    have hprint : printPredicates (p :: ps) ++ rest = '[' :: inner := by
      simp [printPredicates, inner]
    rw [hprint, readStepName_print hname hstop]
    simp [hread, readChar]

/-- Steps are read back up to the end. -/
theorem readSteps_print {s : Step} {ss : List Step} (hss : ∀ s' ∈ s :: ss, s'.WellNamed) :
    readSteps (s.print ++ printSteps ss) = .ok (⟨s, ss⟩, []) := by
  induction ss generalizing s with
  | nil =>
    have hread : readStep (s.print ++ printSteps []) = .ok (s, []) :=
      readStep_print (hss s List.mem_cons_self) rfl
    rw [readSteps]
    split
    · next h => cases h.symm.trans hread
    · next h => cases h.symm.trans hread
    · next h =>
      cases h.symm.trans hread
      rfl
  | cons s' ss ih =>
    have hread : readStep (s.print ++ printSteps (s' :: ss)) =
        .ok (s, '/' :: (s'.print ++ printSteps ss)) :=
      readStep_print (hss s List.mem_cons_self)
        (show (!isNameChar '/' && '/' != '[') = true by decide)
    rw [readSteps]
    split
    · next h => cases h.symm.trans hread
    · next h =>
      cases h.symm.trans hread
      rw [ih fun q hq => hss q (List.mem_cons_of_mem s hq)]
      rfl
    · next hslash h =>
      cases h.symm.trans hread
      exact absurd rfl (hslash _)

theorem Query.parse_text {q : Query} (hq : q.WellNamed) : parse q.text = .ok q := by
  have hread : readSteps q.print = .ok (q, []) := readSteps_print hq
  rw [parse, text, String.toList_ofList, hread]

/-! ## What is read at all -/

theorem isName_of_readName (h : readName cs = .ok (name, rest)) : Query.isName name = true := by
  unfold readName at h
  split at h
  · cases h
  · next hne =>
    cases h
    rw [Query.isName_iff, String.toList_ofList]
    exact ⟨hne, List.all_eq_true.1 List.all_takeWhile⟩

theorem isName_of_readAttribute (h : readAttribute cs = .ok (name, rest)) :
    Query.isName name = true := by
  unfold readAttribute at h
  split at h
  · cases h
  · exact isName_of_readName h

theorem isName_of_readPredicate {p : Predicate} (h : readPredicate cs = .ok (p, rest)) :
    Query.isName p.attr = true := by
  unfold readPredicate at h
  split at h
  · unfold readAbsent at h
    split at h
    · cases h
    · next ha =>
      split at h
      · cases h
      · cases h
        exact isName_of_readAttribute ha
  · split at h
    · cases h
    · next ha =>
      have hname := isName_of_readAttribute ha
      unfold readComparison at h
      split at h
      · split at h
        · cases h
        · cases h
          exact hname
      · cases h
        exact hname

theorem isName_of_readPredicates {ps : List Predicate} (h : readPredicates cs = .ok (ps, rest)) :
    ∀ p ∈ ps, Query.isName p.attr = true := by
  fun_induction readPredicates cs generalizing ps rest with
  | case1 => cases h
  | case2 => cases h
  | case3 cs p rest₁ hp more hand ps rest₂ hps =>
    rename_i ih
    cases h
    intro q hq
    rcases List.mem_cons.1 hq with rfl | hq
    · exact isName_of_readPredicate hp
    · exact ih hps q hq
  | case4 cs p rest₁ hp =>
    cases h
    intro q hq
    rw [List.mem_singleton.1 hq]
    exact isName_of_readPredicate hp

theorem isName_of_readStepName {step : Option String} (h : readStepName cs = .ok (step, rest)) :
    ∀ n ∈ step, Query.isName n = true := by
  unfold readStepName at h
  split at h
  · cases h
    nofun
  · split at h
    · cases h
    · next hn =>
      cases h
      intro n hn'
      cases hn'
      exact isName_of_readName hn

theorem wellNamed_of_readStep {s : Step} (h : readStep cs = .ok (s, rest)) : s.WellNamed := by
  unfold readStep at h
  split at h
  · cases h
  · next hn =>
    split at h
    · cases h
    · next hp =>
      split at h
      · cases h
      · cases h
        exact ⟨isName_of_readStepName hn, isName_of_readPredicates hp⟩
  · next hn =>
    cases h
    exact ⟨isName_of_readStepName hn, by simp⟩

theorem wellNamed_of_readSteps {q : Query} (h : readSteps cs = .ok (q, rest)) : q.WellNamed := by
  fun_induction readSteps cs generalizing q rest with
  | case1 => cases h
  | case2 => cases h
  | case3 cs s rest₁ hs q' rest₂ hq' ih =>
    cases h
    intro s' hs'
    rcases List.mem_cons.1 hs' with rfl | hs'
    · exact wellNamed_of_readStep hs
    · exact ih hq' s' hs'
  | case4 cs s rest₁ hslash hs =>
    cases h
    intro s' hs'
    rw [List.mem_singleton.1 hs']
    exact wellNamed_of_readStep hs

theorem Query.wellNamed_of_parse {t : String} {q : Query} (h : parse t = .ok q) : q.WellNamed := by
  unfold parse at h
  split at h
  · cases h
  · next hq =>
    cases h
    exact wellNamed_of_readSteps hq
  · cases h

end

/-- The queries that are read back as they were written are those whose names are names,
and they are all that can be read. -/
theorem Query.parse_text_iff (q : Query) :
    (parse q.text = .ok q ↔ q.WellNamed) ∧
      ∀ t, parse t = .ok q → q.WellNamed ∧ parse q.text = parse t :=
  ⟨⟨wellNamed_of_parse, parse_text⟩, fun _ h =>
    have hq := wellNamed_of_parse h
    ⟨hq, (parse_text hq).trans h.symm⟩⟩

instance decidableEqExcept {ε α : Type} [DecidableEq ε] [DecidableEq α] : DecidableEq (Except ε α)
  | .ok a, .ok b => decidable_of_iff (a = b) (by rw [Except.ok.injEq])
  | .error e, .error f => decidable_of_iff (e = f) (by rw [Except.error.injEq])
  | .ok _, .error _ => isFalse nofun
  | .error _, .ok _ => isFalse nofun

/-- A query with quotes of both kinds in its values, and with names that are words. -/
def quotedNames : Query where
  first := ⟨some "layout", [.equals "class" "'", .present "and", .equals "name" "Don't \"go\"'"]⟩
  rest := [⟨none, []⟩, ⟨some "größe", [.absent "not"]⟩]

/-- Another way to write it. -/
def quotedOtherwise : String :=
  "layout[ @class = '''' and@and and @name=\"Don't \"\"go\"\"'\"]/*/größe[not( @not )]"

/-- It is written in one way and can be read in others. -/
theorem parse_text_quotedNames :
    quotedNames.text =
        "layout[@class=\"'\" and @and and @name='Don''t \"go\"''']/*/größe[not(@not)]" ∧
      Query.parse quotedNames.text = .ok quotedNames ∧
      Query.parse quotedOtherwise = Query.parse quotedNames.text := by
  have hnamed : quotedNames.WellNamed := by decide
  have hother : Query.parse quotedOtherwise = .ok quotedNames := by decide +kernel
  exact ⟨by decide, (Query.parse_text_iff quotedNames).1.2 hnamed,
    ((Query.parse_text_iff quotedNames).2 _ hother).2.symm⟩

end TemplateInventory
