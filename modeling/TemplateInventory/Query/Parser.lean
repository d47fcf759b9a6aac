import TemplateInventory.Query.Basic
import TemplateInventory.Text.Alphanumeric
import TemplateInventory.Text.Blank
import TemplateInventory.Text.Quoted
import TemplateInventory.Xml.Escape
/-!
# Reading queries

Each reading function takes what it reads from the front of a text and gives the
rest. The rest is never longer, and shorter once a condition or a step is read,
`readPredicate_shorter` and `readStep_shorter`; so the loops over conditions and
steps end.
-/

namespace TemplateInventory

open TemplateInventory.Text

/-- Why a text is not a query. -/
inductive QueryFault where
  /-- A character that nothing can start with, and its place. -/
  | unexpected (c : Char) (pos : Nat)
  /-- A character that has to come next does not. -/
  | missing (c : Char)
  | noName
  | noValue
  /-- A value without its second quote. -/
  | openValue
  deriving DecidableEq, Repr

/-- The text of a fault. -/
def QueryFault.message : QueryFault → String
  | .unexpected c pos => "unexpected " ++ quotedCharacter c ++ " at " ++ toString pos
  | .missing c => "expected " ++ quotedCharacter c
  | .noName => "expected a name"
  | .noValue => "expected a quoted value"
  | .openValue => "unterminated string"

/-- The characters of names. -/
def isNameChar (c : Char) : Bool :=
  isAlphanumeric c || c == '_' || c == '-' || c == '.' || c == ':'

/-- Reads one given character. -/
def readChar (expected : Char) : List Char → Except QueryFault (List Char)
  | [] => .error (.missing expected)
  | c :: cs => if c = expected then .ok cs else .error (.missing expected)

/-- Reads a name: all name characters that come next. -/
def readName (cs : List Char) : Except QueryFault (String × List Char) :=
  match cs.takeWhile isNameChar with
  | [] => .error .noName
  | name => .ok (String.ofList name, cs.dropWhile isNameChar)

/-- What follows the white space at the front. -/
def skipBlank (cs : List Char) : List Char := cs.dropWhile isBlank

/-- Reads a value after its first quote; two quotes stand for one. -/
def readValueBody (quote : Char) : List Char → Except QueryFault (List Char × List Char)
  | [] => .error .openValue
  | [c] => if c = quote then .ok ([], []) else .error .openValue
  | c :: d :: cs =>
    if c = quote then
      if d = quote then (readValueBody quote cs).map fun r => (quote :: r.1, r.2)
      else .ok ([], d :: cs)
    else (readValueBody quote (d :: cs)).map fun r => (c :: r.1, r.2)

/-- Reads a value between quotes. -/
def readValue : List Char → Except QueryFault (String × List Char)
  | '\x27' :: cs => (readValueBody '\x27' cs).map fun r => (String.ofList r.1, r.2)
  | '\x22' :: cs => (readValueBody '\x22' cs).map fun r => (String.ofList r.1, r.2)
  | _ => .error .noValue

/-- Reads the attribute of a condition. -/
def readAttribute (cs : List Char) : Except QueryFault (String × List Char) :=
  match readChar '@' cs with
  | .error e => .error e
  | .ok cs => readName cs

/-- Reads a condition from the text after `not(`. -/
def readAbsent (cs : List Char) : Except QueryFault (Predicate × List Char) :=
  match readAttribute (skipBlank cs) with
  | .error e => .error e
  | .ok (attr, cs) =>
    match readChar ')' (skipBlank cs) with
    | .error e => .error e
    | .ok cs => .ok (.absent attr, cs)

/-- Reads what follows the attribute of a condition. -/
def readComparison (attr : String) : List Char → Except QueryFault (Predicate × List Char)
  | '=' :: cs =>
    match readValue (skipBlank cs) with
    | .error e => .error e
    | .ok (value, cs) => .ok (.equals attr value, cs)
  | cs => .ok (.present attr, cs)

/-- Reads a condition. -/
def readPredicate (cs : List Char) : Except QueryFault (Predicate × List Char) :=
  if "not(".toList.isPrefixOf cs then readAbsent (cs.drop 4)
  else
    match readAttribute cs with
    | .error e => .error e
    | .ok (attr, cs) => readComparison attr (skipBlank cs)

/-! ## Lengths -/

theorem readChar_shorter {c : Char} {cs rest : List Char} (h : readChar c cs = .ok rest) :
    rest.length < cs.length := by
  match cs, h with
  | d :: ds, h =>
    rw [readChar] at h
    split at h
    · cases h
      exact Nat.lt_succ_self _
    · cases h

theorem length_skipBlank (cs : List Char) : (skipBlank cs).length ≤ cs.length :=
  (List.dropWhile_sublist _).length_le

theorem readName_shorter {cs rest : List Char} {name : String}
    (h : readName cs = .ok (name, rest)) : rest.length < cs.length := by
  unfold readName at h
  split at h
  · cases h
  · next hne =>
    cases h
    have := congrArg List.length (List.takeWhile_append_dropWhile (p := isNameChar) (l := cs))
    have hp : 0 < (cs.takeWhile isNameChar).length := List.length_pos_iff.2 hne
    rw [List.length_append] at this
    omega

theorem readValueBody_shorter {quote : Char} {cs value rest : List Char}
    (h : readValueBody quote cs = .ok (value, rest)) : rest.length < cs.length := by
  fun_induction readValueBody quote cs generalizing value rest with
  | case1 => cases h
  | case2 => cases h; exact Nat.lt_succ_self _
  | case3 => cases h
  | case4 cs ih =>
    cases hb : readValueBody quote cs with
    | error e => simp [hb, Except.map] at h
    | ok r =>
      simp only [hb, Except.map, Except.ok.injEq, Prod.mk.injEq] at h
      have := @ih r.1 r.2 hb
      simp only [List.length_cons]
      rw [← h.2]
      omega
  | case5 => cases h; exact Nat.lt_succ_self _
  | case6 c d cs _ ih =>
    cases hb : readValueBody quote (d :: cs) with
    | error e => simp [hb, Except.map] at h
    | ok r =>
      simp only [hb, Except.map, Except.ok.injEq, Prod.mk.injEq] at h
      have := @ih r.1 r.2 hb
      rw [← h.2]
      exact Nat.lt_succ_of_lt this

theorem readValue_shorter {cs rest : List Char} {value : String}
    (h : readValue cs = .ok (value, rest)) : rest.length < cs.length := by
  unfold readValue at h
  split at h
  · next cs =>
    cases hb : readValueBody '\x27' cs with
    | error e => simp [hb, Except.map] at h
    | ok r =>
      simp only [hb, Except.map, Except.ok.injEq, Prod.mk.injEq] at h
      exact Nat.lt_succ_of_lt (h.2 ▸ readValueBody_shorter hb)
  · next cs =>
    cases hb : readValueBody '\x22' cs with
    | error e => simp [hb, Except.map] at h
    | ok r =>
      simp only [hb, Except.map, Except.ok.injEq, Prod.mk.injEq] at h
      exact Nat.lt_succ_of_lt (h.2 ▸ readValueBody_shorter hb)
  · cases h

theorem readAttribute_shorter {cs rest : List Char} {name : String}
    (h : readAttribute cs = .ok (name, rest)) : rest.length < cs.length := by
  unfold readAttribute at h
  split at h
  · cases h
  · next hc => exact Nat.lt_trans (readName_shorter h) (readChar_shorter hc)

theorem readAbsent_shorter {cs rest : List Char} {p : Predicate}
    (h : readAbsent cs = .ok (p, rest)) : rest.length < cs.length := by
  unfold readAbsent at h
  split at h
  · cases h
  · next ha =>
    split at h
    · cases h
    · next hc =>
      cases h
      have l₁ := readChar_shorter hc
      have l₂ := readAttribute_shorter ha
      have l₃ := length_skipBlank cs
      have l₄ := length_skipBlank ‹List Char›
      omega

theorem readComparison_length {attr : String} {cs rest : List Char} {p : Predicate}
    (h : readComparison attr cs = .ok (p, rest)) : rest.length ≤ cs.length := by
  unfold readComparison at h
  split at h
  · next cs =>
    split at h
    · cases h
    · next hv =>
      cases h
      have l₁ := readValue_shorter hv
      have l₂ := length_skipBlank cs
      simp only [List.length_cons]
      omega
  · cases h
    exact Nat.le_refl _

/-- A condition takes at least one character. -/
theorem readPredicate_shorter {cs rest : List Char} {p : Predicate}
    (h : readPredicate cs = .ok (p, rest)) : rest.length < cs.length := by
  unfold readPredicate at h
  split at h
  · have := readAbsent_shorter h
    rw [List.length_drop] at this
    omega
  · split at h
    · cases h
    · next ha =>
      have l₁ := readAttribute_shorter ha
      have l₂ := readComparison_length h
      have l₃ := length_skipBlank ‹List Char›
      omega

/-! ## Steps -/

/-- Reads conditions with `and` between them. -/
def readPredicates (cs : List Char) : Except QueryFault (List Predicate × List Char) :=
  match _h : readPredicate (skipBlank cs) with
  | .error e => .error e
  | .ok (p, rest) =>
    let more := skipBlank rest
    if "and".toList.isPrefixOf more then
      match readPredicates (more.drop 3) with
      | .error e => .error e
      | .ok (ps, rest) => .ok (p :: ps, rest)
    else .ok ([p], more)
termination_by cs.length
decreasing_by
  have l₁ := readPredicate_shorter _h
  have l₂ := length_skipBlank cs
  have l₃ := length_skipBlank rest
  simp only [List.length_drop]
  omega

theorem readPredicates_shorter {cs rest : List Char} {ps : List Predicate}
    (h : readPredicates cs = .ok (ps, rest)) : rest.length < cs.length := by
  fun_induction readPredicates cs generalizing ps rest with
  | case1 => cases h
  | case2 => cases h
  | case3 cs p rest₁ hp rest₂ _ _ _ hps =>
    rename_i ih
    cases h
    have l₁ := readPredicate_shorter hp
    have l₂ := length_skipBlank cs
    have l₃ : rest₂.length ≤ rest₁.length := length_skipBlank rest₁
    have l₄ := ih hps
    simp only [List.length_drop] at l₄
    omega
  | case4 cs p rest₁ hp rest₂ =>
    cases h
    have l₁ := readPredicate_shorter hp
    have l₂ := length_skipBlank cs
    have l₃ : rest₂.length ≤ rest₁.length := length_skipBlank rest₁
    omega

/-- Reads the name of a step. -/
def readStepName : List Char → Except QueryFault (Option String × List Char)
  | '*' :: cs => .ok (none, cs)
  | cs =>
    match readName cs with
    | .error e => .error e
    | .ok (name, cs) => .ok (some name, cs)

/-- Reads a step. -/
def readStep (cs : List Char) : Except QueryFault (Step × List Char) :=
  match readStepName cs with
  | .error e => .error e
  | .ok (name, '[' :: cs) =>
    match readPredicates cs with
    | .error e => .error e
    | .ok (ps, cs) =>
      match readChar ']' cs with
      | .error e => .error e
      | .ok cs => .ok (⟨name, ps⟩, cs)
  | .ok (name, cs) => .ok (⟨name, []⟩, cs)

theorem readStepName_shorter {cs rest : List Char} {name : Option String}
    (h : readStepName cs = .ok (name, rest)) : rest.length < cs.length := by
  unfold readStepName at h
  split at h
  · cases h
    exact Nat.lt_succ_self _
  · split at h
    · cases h
    · next hn =>
      cases h
      exact readName_shorter hn

/-- A step takes at least one character. -/
theorem readStep_shorter {cs rest : List Char} {s : Step}
    (h : readStep cs = .ok (s, rest)) : rest.length < cs.length := by
  unfold readStep at h
  split at h
  · cases h
  · next hn =>
    have l₁ := readStepName_shorter hn
    rw [List.length_cons] at l₁
    split at h
    · cases h
    · next hp =>
      have l₂ := readPredicates_shorter hp
      split at h
      · cases h
      · next hc =>
        cases h
        have l₃ := readChar_shorter hc
        omega
  · next hn =>
    cases h
    exact readStepName_shorter hn

/-- Reads steps with slashes between them. -/
def readSteps (cs : List Char) : Except QueryFault (Query × List Char) :=
  match _h : readStep cs with
  | .error e => .error e
  | .ok (s, '/' :: rest) =>
    match readSteps rest with
    | .error e => .error e
    | .ok (q, rest) => .ok (⟨s, q.steps⟩, rest)
  | .ok (s, rest) => .ok (⟨s, []⟩, rest)
termination_by cs.length
decreasing_by
  have := readStep_shorter _h
  rw [List.length_cons] at this
  omega

/-- Reads a query that takes up the whole text. -/
def Query.parse (s : String) : Except QueryFault Query :=
  match readSteps s.toList with
  | .error e => .error e
  | .ok (q, []) => .ok q
  | .ok (_, c :: cs) =>
    .error (.unexpected c (Xml.byteLength s.toList - Xml.byteLength (c :: cs)))

end TemplateInventory
