/-!
# Patterns of field values

A directive may ask for fields whose values match a pattern, a regular expression.
Nothing is matched here: a pattern is kept as far as it matters whether it can be
used. `Pattern.fault?` tells why one cannot.

A pattern is used without tables of characters, so what needs them is refused:
digits, blanks and word characters of every script, and characters whose case does
not count. A pattern that turns to bytes can have both, since only ASCII
characters have kinds and cases there; but it must not match bytes that are no
text.
-/

namespace TemplateInventory.Logging

/-- Why a pattern cannot be used. -/
inductive PatternFault where
  | form
  /-- It asks for the edges of words of every script. -/
  | wordEdge
  deriving DecidableEq, Repr

/-- The text of a fault. -/
def PatternFault.message : PatternFault → String
  | .form => "error building NFA"
  | .wordEdge =>
    "unsupported regex feature for DFAs: cannot build DFAs for regexes with Unicode word " ++
      "boundaries; switch to ASCII word boundaries, or heuristically enable Unicode word " ++
      "boundaries or use a different regex engine"

/-- A character of a pattern, and whether it was written as the number of a byte. -/
structure PatternChar where
  char : Char
  isByte : Bool
  deriving DecidableEq, Repr

/-- The modes that a pattern turns on or off, by their letters. -/
abbrev ModeChanges := List (Char × Bool)

mutual

/-- A member of a class of characters. -/
inductive ClassMember where
  | char (c : PatternChar)
  | range (low high : PatternChar)
  /-- A class of ASCII characters that has a name. -/
  | named (negated : Bool)
  /-- Digits, blanks, or word characters. -/
  | kind (negated : Bool)
  | nested (negated : Bool) (members : ClassMembers)

/-- The members of a class. -/
inductive ClassMembers where
  | all (members : List ClassMember)
  /-- What two lists of members have in common, or what only one of them has. -/
  | combined (left right : ClassMembers)

end

/-- A pattern. -/
inductive Pattern where
  | char (c : PatternChar)
  /-- Any character. -/
  | any
  /-- An edge of the text or of a line. -/
  | edge
  /-- An edge of a word, or a place that is none. -/
  | wordEdge
  /-- Digits, blanks, or word characters. -/
  | kind (negated : Bool)
  | oneOf (negated : Bool) (members : ClassMembers)
  /-- A change of modes for what follows in the same group. -/
  | modes (changes : ModeChanges)
  | group (changes : ModeChanges) (inner : Pattern)
  | repeated (inner : Pattern)
  | sequence (items : List Pattern)
  | choice (branches : List Pattern)

/-! ## Depth -/

/-- What a list adds to the depth of its members: one, if it has several. -/
def listDepth (length : Nat) : Nat := if length ≤ 1 then 0 else 1

mutual

/-- How deep a member of a class goes. -/
def ClassMember.depth : ClassMember → Nat
  | .nested _ members => members.depth + 1
  | _ => 0

/-- How deep the members of a class go. -/
def ClassMembers.depth : ClassMembers → Nat
  | .all members => depthOfMembers members + listDepth members.length
  | .combined left right => max left.depth right.depth + 1

/-- How deep the deepest of several members goes. -/
def depthOfMembers : List ClassMember → Nat
  | [] => 0
  | m :: rest => max m.depth (depthOfMembers rest)

end

mutual

/-- How deep groups, repetitions, lists and classes stand inside each other. -/
def Pattern.depth : Pattern → Nat
  | .oneOf _ members => members.depth + 1
  | .group _ inner | .repeated inner => inner.depth + 1
  | .sequence items | .choice items => depthOfPatterns items + listDepth items.length
  | .char _ | .any | .edge | .wordEdge | .kind _ | .modes _ => 0

/-- How deep the deepest of several patterns goes. -/
def depthOfPatterns : List Pattern → Nat
  | [] => 0
  | p :: rest => max p.depth (depthOfPatterns rest)

end

/-- The greatest depth of a pattern. -/
def greatestPatternDepth : Nat := 250

/-! ## Modes -/

/-- The modes that decide what a pattern may ask for. -/
structure PatternModes where
  ignoresCase : Bool
  /-- Whether it matches characters of every script, or else bytes. -/
  everyScript : Bool
  deriving DecidableEq, Repr

/-- What a mode is after changes. -/
def ModeChanges.switch (changes : ModeChanges) (letter : Char) (before : Bool) : Bool :=
  (changes.find? (·.1 == letter)).elim before Prod.snd

/-- The modes after changes. -/
def PatternModes.after (m : PatternModes) (changes : ModeChanges) : PatternModes :=
  ⟨changes.switch 'i' m.ignoresCase, changes.switch 'u' m.everyScript⟩

/-- Whether a character is an ASCII one. -/
def PatternChar.isAscii (c : PatternChar) : Bool := c.char.toNat < 128

namespace PatternModes

/-- Whether a character may stand in a class. -/
def allowsInClass (m : PatternModes) (c : PatternChar) : Bool :=
  if m.everyScript then !m.ignoresCase else c.isAscii

/-- Whether a character may stand by itself. -/
def allowsChar (m : PatternModes) (c : PatternChar) : Bool :=
  if m.everyScript then !m.ignoresCase else c.isAscii || !c.isByte

/-- Whether digits, blanks or word characters may be asked for. -/
def allowsKind (m : PatternModes) (negated : Bool) : Bool := !m.everyScript && !negated

/-- Whether a class may be negated, or not. -/
def allowsNegated (m : PatternModes) (negated : Bool) : Bool := m.everyScript || !negated

mutual

/-- Whether a member may stand in a class. -/
def allowsMember (m : PatternModes) : ClassMember → Bool
  | .char c => m.allowsInClass c
  | .range low high => m.allowsInClass low && m.allowsInClass high
  | .named negated => if m.everyScript then !m.ignoresCase else !negated
  | .kind negated => m.allowsKind negated
  | .nested negated members => m.allowsNegated negated && m.allowsMembers members

/-- Whether a class may have these members. -/
def allowsMembers (m : PatternModes) : ClassMembers → Bool
  | .all members => m.allowsAll members
  | .combined left right => m.allowsMembers left && m.allowsMembers right

/-- Whether all of several members may stand in a class. -/
def allowsAll (m : PatternModes) : List ClassMember → Bool
  | [] => true
  | c :: rest => m.allowsMember c && m.allowsAll rest

end

end PatternModes

/-! ## Use -/

/-- What is known about a pattern up to some place of it: the modes there, and
whether it has asked for the edges of words of every script. -/
structure PatternUse where
  modes : PatternModes
  asksWordEdge : Bool
  deriving DecidableEq, Repr

/-- The same, if a condition is met. -/
def PatternUse.when (u : PatternUse) (allowed : Bool) : Option PatternUse :=
  if allowed then some u else none

mutual

/-- What is known after a pattern, unless it asks for what cannot be had. -/
def PatternUse.after (u : PatternUse) : Pattern → Option PatternUse
  | .char c => u.when (u.modes.allowsChar c)
  | .any => u.when u.modes.everyScript
  | .edge => some u
  | .wordEdge => some { u with asksWordEdge := u.asksWordEdge || u.modes.everyScript }
  | .kind negated => u.when (u.modes.allowsKind negated)
  | .oneOf negated members =>
    u.when (u.modes.allowsNegated negated && u.modes.allowsMembers members)
  | .modes changes => some { u with modes := u.modes.after changes }
  | .group changes inner =>
    (PatternUse.after { u with modes := u.modes.after changes } inner).map fun v =>
      { v with modes := u.modes }
  | .repeated inner => PatternUse.after u inner
  | .sequence items | .choice items => PatternUse.afterAll u items

/-- What is known after several patterns, one after the other. -/
def PatternUse.afterAll (u : PatternUse) : List Pattern → Option PatternUse
  | [] => some u
  | p :: rest => (PatternUse.after u p).bind fun v => PatternUse.afterAll v rest

end

/-- Why a pattern cannot be used: what is wrong with its form comes first. -/
def Pattern.fault? (p : Pattern) : Option PatternFault :=
  if p.depth > greatestPatternDepth then some .form
  else
    match PatternUse.after ⟨⟨false, true⟩, false⟩ p with
    | none => some .form
    | some u => if u.asksWordEdge then some .wordEdge else none

end TemplateInventory.Logging
