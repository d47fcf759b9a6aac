import TemplateInventory.Inventory.Basic
import TemplateInventory.Proofs.Queries
/-!
# The grammar of queries

Queries are read by the grammar

    Path = Step ('/' Step)*
    Step = ('*' | Name) ('[' ws Condition ws ('and' ws Condition ws)* ']')?
    Condition = 'not(' ws '@' Name ws ')' | '@' Name ws ('=' ws Quoted)?

with names that are as long as they can be. Each rule is a relation of a text, the value of
a derivation at its front, and what follows it; so a rule can say what must not follow.

Every reading function derives what it reads. Conversely what is derived is read, if nothing
follows that would be read on: only a missing comparison has to be told from one
(`readPredicate_of_condition`), since all else is told by its first character. A text is read
as a query exactly if it derives one, `Query.parse_iff_derives`.
-/

namespace TemplateInventory

open TemplateInventory.Text

namespace QueryGrammar

/-! ## Rules -/

/-- Letters and digits of any script, and four marks. -/
def NameChar (c : Char) : Prop := isAlphanumeric c = true ∨ c ∈ ['_', '-', '.', ':']

/-- `ws`: any run of white space. -/
inductive Blanks : List Char → List Char → Prop
  | none (rest : List Char) : Blanks rest rest
  | more {c : Char} {cs rest : List Char} (hc : isBlank c = true) (h : Blanks cs rest) :
      Blanks (c :: cs) rest

/-- `Name`: the longest run of name characters, which is not empty. -/
inductive Name : List Char → String → List Char → Prop
  | run {name rest : List Char} (hne : name ≠ []) (hall : ∀ c ∈ name, NameChar c)
      (hend : ∀ c ∈ rest.head?, ¬ NameChar c) : Name (name ++ rest) (String.ofList name) rest

/-- What may stand between quotes, with its value: the quote itself only doubled, which
reads as one. -/
inductive Body (quote : Char) : List Char → List Char → Prop
  | nil : Body quote [] []
  | other {c : Char} {written value : List Char} (hc : c ≠ quote) (h : Body quote written value) :
      Body quote (c :: written) (c :: value)
  | doubled {written value : List Char} (h : Body quote written value) :
      Body quote (quote :: quote :: written) (quote :: value)

/-- `Quoted`: a body between two quotes of a kind, the second not followed by itself. -/
inductive Quoted : List Char → String → List Char → Prop
  | between {quote : Char} {written value rest : List Char} (hq : quote = '\x27' ∨ quote = '\x22')
      (h : Body quote written value) (hend : rest.head? ≠ some quote) :
      Quoted (quote :: (written ++ quote :: rest)) (String.ofList value) rest

/-- `Condition`. -/
inductive Condition : List Char → Predicate → List Char → Prop
  | absent {cs₁ cs₂ cs₃ rest : List Char} {attr : String} (h₁ : Blanks cs₁ ('@' :: cs₂))
      (hn : Name cs₂ attr cs₃) (h₂ : Blanks cs₃ (')' :: rest)) :
      Condition ("not(".toList ++ cs₁) (.absent attr) rest
  | present {cs₁ cs₂ rest : List Char} {attr : String} (hn : Name cs₁ attr cs₂)
      (h : Blanks cs₂ rest) : Condition ('@' :: cs₁) (.present attr) rest
  | equals {cs₁ cs₂ cs₃ cs₄ rest : List Char} {attr value : String} (hn : Name cs₁ attr cs₂)
      (h₁ : Blanks cs₂ ('=' :: cs₃)) (h₂ : Blanks cs₃ cs₄) (hv : Quoted cs₄ value rest) :
      Condition ('@' :: cs₁) (.equals attr value) rest

/-- `ws Condition ws ('and' ws Condition ws)*`. -/
inductive Conditions : List Char → List Predicate → List Char → Prop
  | last {cs cs₁ cs₂ rest : List Char} {p : Predicate} (h₁ : Blanks cs cs₁)
      (hp : Condition cs₁ p cs₂) (h₂ : Blanks cs₂ rest) : Conditions cs [p] rest
  | and {cs cs₁ cs₂ cs₃ rest : List Char} {p : Predicate} {ps : List Predicate}
      (h₁ : Blanks cs cs₁) (hp : Condition cs₁ p cs₂) (h₂ : Blanks cs₂ ("and".toList ++ cs₃))
      (hps : Conditions cs₃ ps rest) : Conditions cs (p :: ps) rest

/-- `'*' | Name`. -/
inductive StepName : List Char → Option String → List Char → Prop
  | any (rest : List Char) : StepName ('*' :: rest) none rest
  | named {cs rest : List Char} {name : String} (h : Name cs name rest) : StepName cs (some name) rest

/-- `Step`. -/
inductive IsStep : List Char → Step → List Char → Prop
  | plain {cs rest : List Char} {name : Option String} (h : StepName cs name rest) :
      IsStep cs ⟨name, []⟩ rest
  | filtered {cs cs₁ rest : List Char} {name : Option String} {ps : List Predicate}
      (h : StepName cs name ('[' :: cs₁)) (hps : Conditions cs₁ ps (']' :: rest)) :
      IsStep cs ⟨name, ps⟩ rest

/-- `Path`. -/
inductive IsPath : List Char → Query → List Char → Prop
  | last {cs rest : List Char} {s : Step} (h : IsStep cs s rest) : IsPath cs ⟨s, []⟩ rest
  | more {cs cs₁ rest : List Char} {s : Step} {q : Query} (h : IsStep cs s ('/' :: cs₁))
      (hq : IsPath cs₁ q rest) : IsPath cs ⟨s, q.steps⟩ rest

section
variable {cs rest : List Char} {p : Predicate} {ps : List Predicate} {name value : String}
  {step : Option String} {s : Step} {q : Query}

/-! ## White space -/

theorem blanks_skipBlank (cs : List Char) : Blanks cs (skipBlank cs) := by
  induction cs with
  | nil => exact .none []
  | cons c cs ih =>
    cases hc : isBlank c with
    | true =>
      rw [skipBlank, List.dropWhile_cons_of_pos hc]
      exact .more hc ih
    | false =>
      rw [skipBlank_cons hc]
      exact .none _

theorem Blanks.skipBlank (h : Blanks cs rest) : skipBlank cs = TemplateInventory.skipBlank rest := by
  induction h with
  | none rest => rfl
  | more hc _ ih =>
    rw [← ih]
    exact List.dropWhile_cons_of_pos hc

/-- White space before anything else ends there. -/
theorem Blanks.skipBlank_cons {c : Char} (h : Blanks cs (c :: rest)) (hc : isBlank c = false) :
    TemplateInventory.skipBlank cs = c :: rest := by
  rw [h.skipBlank, TemplateInventory.skipBlank_cons hc]

/-! ## Names -/

theorem isNameChar_iff {c : Char} : isNameChar c = true ↔ NameChar c := by
  simp [isNameChar, NameChar, or_assoc]

theorem name_iff : Name cs name rest ↔ Query.isName name = true ∧
    rest.head?.all (!isNameChar ·) = true ∧ cs = name.toList ++ rest := by
  constructor
  · rintro ⟨hne, hall, hend⟩
    refine ⟨Query.isName_iff.2 ?_, (Option.all_eq_true _ _).2 fun c hc => ?_, ?_⟩
    · rw [String.toList_ofList]
      exact ⟨hne, fun c hc => isNameChar_iff.2 (hall c hc)⟩
    · rw [Bool.not_eq_true', ← Bool.not_eq_true, isNameChar_iff]
      exact hend c hc
    · rw [String.toList_ofList]
  · rintro ⟨hname, hend, rfl⟩
    obtain ⟨hne, hall⟩ := Query.isName_iff.1 hname
    have hstop : ∀ c ∈ rest.head?, ¬ NameChar c := fun c hc => by
      have hc := (Option.all_eq_true _ _).1 hend c hc
      rwa [Bool.not_eq_true', ← Bool.not_eq_true, isNameChar_iff] at hc
    have hrun := Name.run hne (fun c hc => isNameChar_iff.1 (hall c hc)) hstop
    rwa [String.ofList_toList] at hrun

theorem readName_iff : readName cs = .ok (name, rest) ↔ Name cs name rest := by
  rw [name_iff]
  constructor
  · intro h
    refine ⟨isName_of_readName h, ?_⟩
    unfold readName at h
    split at h
    · cases h
    · cases h
      rw [String.toList_ofList]
      exact ⟨head_dropWhile isNameChar cs, List.takeWhile_append_dropWhile.symm⟩
  · rintro ⟨hname, hend, rfl⟩
    exact readName_append hname hend

theorem readChar_iff {c : Char} : readChar c cs = .ok rest ↔ cs = c :: rest := by
  cases cs with
  | nil => simp [readChar]
  | cons d cs =>
    by_cases hd : d = c
    · simp [readChar, hd]
    · simp [readChar, hd]

theorem readAttribute_iff : readAttribute cs = .ok (name, rest) ↔
    ∃ cs₁, cs = '@' :: cs₁ ∧ Name cs₁ name rest := by
  cases cs with
  | nil => simp [readAttribute, readChar]
  | cons c cs =>
    by_cases hc : c = '@'
    · simp [readAttribute, readChar, hc, readName_iff]
    · simp [readAttribute, readChar, hc]

/-! ## Quoted values -/

theorem exists_of_map_ok {ε α β : Type} {f : α → β} {r : Except ε α} {b : β}
    (h : r.map f = .ok b) : ∃ a, r = .ok a ∧ f a = b := by
  cases r with
  | error e => cases h
  | ok a => exact ⟨a, rfl, Except.ok.inj h⟩

/-- A body is its value with every quote doubled. -/
theorem body_iff {quote : Char} {written value : List Char} : Body quote written value ↔
    written = value.flatMap fun c => if c = quote then [c, c] else [c] := by
  constructor
  · intro h
    induction h with
    | nil => rfl
    | other hc _ ih => simp [hc, ih]
    | doubled _ ih => simp [ih]
  · rintro rfl
    induction value with
    | nil => exact .nil
    | cons c value ih =>
      rw [List.flatMap_cons]
      by_cases hc : c = quote
      · rw [if_pos hc, hc]
        exact .doubled ih
      · rw [if_neg hc]
        exact .other hc ih

theorem body_of_readValueBody {quote : Char} {value : List Char}
    (h : readValueBody quote cs = .ok (value, rest)) :
    ∃ written, cs = written ++ quote :: rest ∧ Body quote written value ∧
      rest.head? ≠ some quote := by
  fun_induction readValueBody quote cs generalizing value rest with
  | case1 => cases h
  | case2 => cases h; exact ⟨[], rfl, .nil, by simp⟩
  | case3 => cases h
  | case4 cs ih =>
    obtain ⟨⟨v, rest'⟩, hb, he⟩ := exists_of_map_ok h
    cases he
    obtain ⟨written, rfl, hbody, hend⟩ := ih hb
    exact ⟨quote :: quote :: written, rfl, .doubled hbody, hend⟩
  | case5 d cs hd =>
    cases h
    exact ⟨[], rfl, .nil, by simpa using hd⟩
  | case6 c d cs hc ih =>
    obtain ⟨⟨v, rest'⟩, hb, he⟩ := exists_of_map_ok h
    cases he
    obtain ⟨written, hcs, hbody, hend⟩ := ih hb
    exact ⟨c :: written, by rw [hcs]; rfl, .other hc hbody, hend⟩

theorem readValueBody_of_body {quote : Char} {written value : List Char}
    (h : Body quote written value) (hend : rest.head? ≠ some quote) :
    readValueBody quote (written ++ quote :: rest) = .ok (value, rest) := by
  rw [body_iff.1 h]
  refine readValueBody_doubled value ((Option.all_eq_true _ _).2 fun c hc => ?_)
  simpa using fun he : c = quote => hend (he ▸ hc)

theorem readValue_iff : readValue cs = .ok (value, rest) ↔ Quoted cs value rest := by
  constructor
  · intro h
    unfold readValue at h
    split at h
    · obtain ⟨⟨v, rest'⟩, hb, he⟩ := exists_of_map_ok h
      cases he
      obtain ⟨written, rfl, hbody, hend⟩ := body_of_readValueBody hb
      exact .between (.inl rfl) hbody hend
    · obtain ⟨⟨v, rest'⟩, hb, he⟩ := exists_of_map_ok h
      cases he
      obtain ⟨written, rfl, hbody, hend⟩ := body_of_readValueBody hb
      exact .between (.inr rfl) hbody hend
    · cases h
  · rintro ⟨hq, hbody, hend⟩
    have hread := readValueBody_of_body hbody hend
    rcases hq with rfl | rfl
    · simp only [readValue, hread, Except.map]
    · simp only [readValue, hread, Except.map]

/-! ## Conditions -/

theorem condition_of_readPredicate (h : readPredicate cs = .ok (p, rest)) : Condition cs p rest := by
  unfold readPredicate at h
  split at h
  · next hnot =>
    obtain ⟨cs₁, rfl⟩ := List.isPrefixOf_iff_prefix.1 hnot
    rw [show ("not(".toList ++ cs₁).drop 4 = cs₁ from rfl, readAbsent] at h
    split at h
    · cases h
    · next attr cs₃ ha =>
      split at h
      · cases h
      · next hc =>
        cases h
        obtain ⟨cs₂, hcs₁, hname⟩ := readAttribute_iff.1 ha
        have hclose : skipBlank cs₃ = ')' :: rest := readChar_iff.1 hc
        exact .absent (hcs₁ ▸ blanks_skipBlank cs₁) hname (hclose ▸ blanks_skipBlank cs₃)
  · split at h
    · cases h
    · next attr cs₂ ha =>
      obtain ⟨cs₁, rfl, hname⟩ := readAttribute_iff.1 ha
      have hblank := blanks_skipBlank cs₂
      unfold readComparison at h
      split at h
      · next cs₃ hequals =>
        split at h
        · cases h
        · next hv =>
          cases h
          rw [hequals] at hblank
          exact .equals hname hblank (blanks_skipBlank cs₃) (readValue_iff.1 hv)
      · cases h
        exact .present hname hblank

/-- A condition starts with a character of its own. -/
theorem Condition.skipBlank (h : Condition cs p rest) : skipBlank cs = cs := by
  cases h with
  | absent => exact TemplateInventory.skipBlank_cons (c := 'n') (by decide) _
  | present => exact TemplateInventory.skipBlank_cons (c := '@') (by decide) _
  | equals => exact TemplateInventory.skipBlank_cons (c := '@') (by decide) _

theorem Quoted.skipBlank (h : Quoted cs value rest) : skipBlank cs = cs := by
  cases h with
  | between hq => rcases hq with rfl | rfl <;> exact TemplateInventory.skipBlank_cons (by decide) _

/-- A condition is read up to white space after it, if no comparison follows that it could
have. -/
theorem readPredicate_of_condition (h : Condition cs p rest)
    (hend : (skipBlank rest).head? ≠ some '=') :
    ∃ rest', readPredicate cs = .ok (p, rest') ∧ skipBlank rest' = skipBlank rest := by
  cases h with
  | @absent cs₁ cs₂ cs₃ _ attr h₁ hname h₂ =>
    have hattr : readAttribute (skipBlank cs₁) = .ok (attr, cs₃) := by
      rw [h₁.skipBlank_cons (by decide)]
      exact readAttribute_iff.2 ⟨cs₂, rfl, hname⟩
    have hdrop : ("not(".toList ++ cs₁).drop 4 = cs₁ := rfl
    refine ⟨rest, ?_, rfl⟩
    rw [readPredicate, if_pos (by simp), hdrop, readAbsent, hattr]
    simp only [h₂.skipBlank_cons (by decide), readChar, if_true]
  | @present cs₁ cs₂ _ attr hname h₂ =>
    refine ⟨skipBlank rest, ?_, (blanks_skipBlank rest).skipBlank.symm⟩
    rw [readPredicate, if_neg (by simp), readAttribute_iff.2 ⟨cs₁, rfl, hname⟩]
    simp only [h₂.skipBlank]
    unfold readComparison
    split
    · next hequals => simp [hequals] at hend
    · rfl
  | @equals cs₁ cs₂ cs₃ cs₄ _ attr value hname h₁ h₂ hv =>
    refine ⟨rest, ?_, rfl⟩
    rw [readPredicate, if_neg (by simp), readAttribute_iff.2 ⟨cs₁, rfl, hname⟩]
    simp only [h₁.skipBlank_cons (c := '=') (by decide), readComparison, h₂.skipBlank, hv.skipBlank,
      readValue_iff.2 hv]

theorem conditions_of_readPredicates (h : readPredicates cs = .ok (ps, rest)) :
    Conditions cs ps rest := by
  fun_induction readPredicates cs generalizing ps rest with
  | case1 => cases h
  | case2 => cases h
  | case3 cs p rest₁ hp more hand ps rest₂ hps =>
    rename_i ih
    cases h
    obtain ⟨cs₃, hmore⟩ := List.isPrefixOf_iff_prefix.1 hand
    have hdrop : more.drop 3 = cs₃ := by rw [← hmore]; rfl
    have hblank : Blanks rest₁ ("and".toList ++ cs₃) := hmore ▸ blanks_skipBlank rest₁
    exact .and (blanks_skipBlank cs) (condition_of_readPredicate hp) hblank (hdrop ▸ ih hps)
  | case4 cs p rest₁ hp =>
    cases h
    exact .last (blanks_skipBlank cs) (condition_of_readPredicate hp) (blanks_skipBlank rest₁)

/-- Conditions are read up to their bracket. -/
theorem readPredicates_of_conditions (h : Conditions cs ps (']' :: rest)) :
    readPredicates cs = .ok (ps, ']' :: rest) := by
  generalize hend : ']' :: rest = after at h
  induction h with
  | last h₁ hp h₂ =>
    subst hend
    have hclose := h₂.skipBlank_cons (by decide)
    obtain ⟨rest', hread, hrest'⟩ := readPredicate_of_condition hp (by simp [hclose])
    rw [← hp.skipBlank, ← h₁.skipBlank] at hread
    rw [readPredicates_last hread (by rw [hrest', hclose]; rfl), hrest', hclose]
  | and h₁ hp h₂ _ ih =>
    have hand : skipBlank _ = 'a' :: 'n' :: 'd' :: _ := Blanks.skipBlank_cons h₂ (by decide)
    obtain ⟨rest', hread, hrest'⟩ := readPredicate_of_condition hp (by simp [hand])
    rw [← hp.skipBlank, ← h₁.skipBlank] at hread
    rw [readPredicates_and hread (hrest'.trans hand), ih hend]
    rfl

/-! ## Steps and paths -/

theorem stepName_of_readStepName (h : readStepName cs = .ok (step, rest)) :
    StepName cs step rest := by
  unfold readStepName at h
  split at h
  · cases h
    exact .any rest
  · split at h
    · cases h
    · next hn =>
      cases h
      exact .named (readName_iff.1 hn)

theorem readStepName_of_stepName (h : StepName cs step rest) :
    readStepName cs = .ok (step, rest) := by
  cases h with
  | any => rfl
  | @named cs rest name h =>
    obtain ⟨hname, hend, rfl⟩ := name_iff.1 h
    have hnames : ∀ n ∈ some name, Query.isName n = true := by simpa using hname
    exact readStepName_print hnames hend

theorem isStep_of_readStep (h : readStep cs = .ok (s, rest)) : IsStep cs s rest := by
  unfold readStep at h
  split at h
  · cases h
  · next hn =>
    split at h
    · cases h
    · next hp =>
      split at h
      · cases h
      · next hc =>
        cases h
        rw [readChar_iff.1 hc] at hp
        exact .filtered (stepName_of_readStepName hn) (conditions_of_readPredicates hp)
  · next hn =>
    cases h
    exact .plain (stepName_of_readStepName hn)

/-- A step is read, if no conditions follow that it could have. -/
theorem readStep_of_isStep (h : IsStep cs s rest) (hend : rest.head? ≠ some '[') :
    readStep cs = .ok (s, rest) := by
  cases h with
  | plain hn =>
    rw [readStep, readStepName_of_stepName hn]
    split
    · next h => cases h
    · next h =>
      cases h
      exact absurd rfl hend
    · next h =>
      cases h
      rfl
  | filtered hn hps =>
    rw [readStep, readStepName_of_stepName hn]
    simp only [readPredicates_of_conditions hps, readChar, if_true]

theorem isPath_of_readSteps (h : readSteps cs = .ok (q, rest)) : IsPath cs q rest := by
  fun_induction readSteps cs generalizing q rest with
  | case1 => cases h
  | case2 => cases h
  | case3 cs s rest₁ hs q' rest₂ hq' ih =>
    cases h
    exact .more (isStep_of_readStep hs) (ih hq')
  | case4 cs s rest₁ _ hs =>
    cases h
    exact .last (isStep_of_readStep hs)

/-- A path that takes up a text is read. -/
theorem readSteps_of_isPath (h : IsPath cs q []) : readSteps cs = .ok (q, []) := by
  generalize hend : [] = rest at h
  induction h with
  | last h =>
    subst hend
    have hread := readStep_of_isStep h (by simp)
    rw [readSteps]
    split
    · next h' => cases h'.symm.trans hread
    · next h' => cases h'.symm.trans hread
    · next h' =>
      cases h'.symm.trans hread
      rfl
  | more h _ ih =>
    have hread := readStep_of_isStep h (by simp)
    rw [readSteps]
    split
    · next h' => cases h'.symm.trans hread
    · next h' =>
      cases h'.symm.trans hread
      rw [ih hend]
    · next hslash h' =>
      cases h'.symm.trans hread
      exact absurd rfl (hslash _)

end

end QueryGrammar

/-- Whether a text is a path of the grammar, with the query that it stands for. -/
def Query.Derives (text : String) (q : Query) : Prop := QueryGrammar.IsPath text.toList q []

theorem Query.parse_ok_iff {text : String} {q : Query} :
    parse text = .ok q ↔ Derives text q := by
  constructor
  · intro h
    unfold parse at h
    split at h
    · cases h
    · next hread =>
      cases h
      exact QueryGrammar.isPath_of_readSteps hread
    · cases h
  · intro h
    rw [parse, QueryGrammar.readSteps_of_isPath h]

/-- A text is read as a query exactly if it is a path of the grammar that stands for the
query. Every other text is refused, wherever it is looked up, as a setting that does not
serve. -/
theorem Query.parse_iff_derives (text : String) :
    (∀ q, parse text = .ok q ↔ Derives text q) ∧
      ∀ i : Inventory, (¬ ∃ q, Derives text q) ↔ ∃ fault, parse text = .error fault ∧
        i.query text = .error (.settings (.query text fault)) := by
  refine ⟨fun q => parse_ok_iff, fun i => ?_⟩
  simp only [← parse_ok_iff, Inventory.query]
  cases parse text with
  | ok q => simp
  | error fault => simp

end TemplateInventory
