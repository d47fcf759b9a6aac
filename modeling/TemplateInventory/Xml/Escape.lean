import TemplateInventory.Xml.Fault
/-!
# Escaped texts

Markup writes five characters by name. Reading also knows characters by number.
`unescape_escape`: reading gives back what was written.
-/

namespace TemplateInventory.Xml

/-- The written form of a character. -/
def escapeChar (c : Char) : List Char :=
  if c = '<' then "&lt;".toList
  else if c = '>' then "&gt;".toList
  else if c = '&' then "&amp;".toList
  else if c = '\x27' then "&apos;".toList
  else if c = '\x22' then "&quot;".toList
  else [c]

/-- The written form of a text. -/
def escape (cs : List Char) : List Char := cs.flatMap escapeChar

/-- How many bytes the characters take. -/
def byteLength : List Char → Nat
  | [] => 0
  | c :: cs => c.utf8Size + byteLength cs

/-- The character of a name that stands between `&` and `;`. -/
def named (name : List Char) : Option Char :=
  if name = "lt".toList then some '<'
  else if name = "gt".toList then some '>'
  else if name = "amp".toList then some '&'
  else if name = "apos".toList then some '\x27'
  else if name = "quot".toList then some '\x22'
  else none

/-- The value of a digit to base `base`. -/
def digitOf (base : Nat) (c : Char) : Option Nat :=
  let value :=
    if c.isDigit then some (c.toNat - '0'.toNat)
    else if 'a' ≤ c ∧ c ≤ 'f' then some (c.toNat - 'a'.toNat + 10)
    else if 'A' ≤ c ∧ c ≤ 'F' then some (c.toNat - 'A'.toNat + 10)
    else none
  value.filter (· < base)

/-- Reads the digits of a number of 32 bits that go on from `n`. -/
def referenceDigits (base n : Nat) : List Char → Except ReferenceFault Nat
  | [] => .ok n
  | c :: cs =>
    match digitOf base c with
    | none => .error .digit
    | some d => if n * base + d < 4294967296 then referenceDigits base (n * base + d) cs else .error .tooLarge

/-- The number of a character reference. -/
def referenceNumber (base : Nat) : List Char → Except ReferenceFault Nat
  | [] => .error .empty
  | c :: cs => if c = '+' ∨ c = '-' then .error .sign else referenceDigits base 0 (c :: cs)

/-- The character that a reference names; the text starts after the `#`. -/
def referenced (cs : List Char) : Except ReferenceFault Char :=
  let number := match cs with
    | 'x' :: digits => referenceNumber 16 digits
    | digits => referenceNumber 10 digits
  match number with
  | .error e => .error e
  | .ok code =>
    if code = 0 then .error .nul
    else if code.isValidChar then .ok (Char.ofNat code)
    else .error (.notCharacter code)

/-- The character that stands between `&` and `;`; `first` is the place after
the `&` and `last` that of the `;`. -/
def resolveEntity (first last : Nat) : List Char → Except Fault Char
  | '#' :: cs =>
    match referenced cs with
    | .ok c => .ok c
    | .error e => .error (.badReference e)
  | name =>
    match named name with
    | some c => .ok c
    | none => .error (.unknownEntity first last (String.ofList name))

/-- Reads a written text from the place `pos` on. `total` is the length of the
whole; `entity` holds the place of an `&` whose `;` is still to come and the
characters after it. -/
def unescapeFrom (total pos : Nat) (entity : Option (Nat × List Char)) :
    List Char → Except Fault (List Char)
  | [] =>
    match entity with
    | none => .ok []
    | some (start, _) => .error (.openEntity start total)
  | c :: cs =>
    match entity with
    | none =>
      if c = '&' then unescapeFrom total (pos + c.utf8Size) (some (pos, [])) cs
      else (unescapeFrom total (pos + c.utf8Size) none cs).map (c :: ·)
    | some (start, name) =>
      if c = '&' then .error (.openEntity start total)
      else if c = ';' then
        match resolveEntity (start + 1) pos name with
        | .error e => .error e
        | .ok found => (unescapeFrom total (pos + c.utf8Size) none cs).map (found :: ·)
      else unescapeFrom total (pos + c.utf8Size) (some (start, name ++ [c])) cs

/-- Reads a written text. -/
def unescape (cs : List Char) : Except Fault (List Char) :=
  unescapeFrom (byteLength cs) 0 none cs

/-! ## Reading what was written -/

/-- Reading the written form of a character gives the character back. -/
theorem unescapeFrom_escapeChar_append (total pos : Nat) (c : Char) (cs : List Char) :
    ∃ pos', unescapeFrom total pos none (escapeChar c ++ cs) =
      (unescapeFrom total pos' none cs).map (c :: ·) := by
  by_cases h1 : c = '<'
  · subst h1
    exact ⟨_, by simp [escapeChar, unescapeFrom, resolveEntity, named]; rfl⟩
  by_cases h2 : c = '>'
  · subst h2
    exact ⟨_, by simp [escapeChar, unescapeFrom, resolveEntity, named]; rfl⟩
  by_cases h3 : c = '&'
  · subst h3
    exact ⟨_, by simp [escapeChar, unescapeFrom, resolveEntity, named]; rfl⟩
  by_cases h4 : c = '\x27'
  · subst h4
    exact ⟨_, by simp [escapeChar, unescapeFrom, resolveEntity, named]; rfl⟩
  by_cases h5 : c = '\x22'
  · subst h5
    exact ⟨_, by simp [escapeChar, unescapeFrom, resolveEntity, named]; rfl⟩
  · exact ⟨_, by simp [escapeChar, h1, h2, h3, h4, h5, unescapeFrom]; rfl⟩

theorem unescapeFrom_escape (total pos : Nat) (cs : List Char) :
    unescapeFrom total pos none (escape cs) = .ok cs := by
  induction cs generalizing pos with
  | nil => rfl
  | cons c cs ih =>
    obtain ⟨pos', h⟩ := unescapeFrom_escapeChar_append total pos c (escape cs)
    rw [escape, List.flatMap_cons, ← escape, h, ih]
    rfl

theorem unescape_escape (cs : List Char) : unescape (escape cs) = .ok cs :=
  unescapeFrom_escape _ _ cs

end TemplateInventory.Xml
