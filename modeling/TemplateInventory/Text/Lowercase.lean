import TemplateInventory.Text.Ranges
import TemplateInventory.Text.LowercaseTable
/-!
# Lower case

The lower-case form of a text, for every script. Each character has a form of
its own; only a capital sigma looks at its surroundings, since it has a special
form at the end of a word.
-/

namespace TemplateInventory.Text

/-- Whether the letter has an upper-case or lower-case nature. -/
def isCased (c : Char) : Bool :=
  if c.toNat < 128 then c.isAlpha else inRanges casedRanges c.toNat

/-- Whether the search for a cased letter passes over the character. -/
def isCaseIgnorable (c : Char) : Bool :=
  if c.toNat < 128 then c == '\x27' || c == '.' || c == ':' || c == '^' || c == '\x60'
  else inRanges caseIgnorableRanges c.toNat

/-- The lower-case form of a code point above 127, by the table of runs. -/
def lowerCode (code : Nat) : Nat :=
  match lowercaseRuns.find? fun r =>
    r.1 ≤ code && code ≤ r.2.1 && (code - r.1) % r.2.2.1 == 0 with
  | some r => (Int.ofNat code + r.2.2.2).toNat
  | none => code

/-- The lower-case form of a character on its own; a capital I with a dot
above becomes an i and a dot. -/
def lowerChar (c : Char) : List Char :=
  if c.toNat < 128 then [c.toLower]
  else if c = 'İ' then ['i', '\u0307']
  else [Char.ofNat (lowerCode c.toNat)]

/-- Whether a cased letter comes first once ignorable characters are passed over. -/
def meetsCased (cs : List Char) : Bool :=
  match cs.dropWhile isCaseIgnorable with
  | c :: _ => isCased c
  | [] => false

/-- The form of a capital sigma between `before` (nearest character first) and
`after`: final when a word ends with it. -/
def lowerSigma (before after : List Char) : Char :=
  if meetsCased before && !meetsCased after then 'ς' else 'σ'

/-- Lower-cases the characters `cs` that follow `before` (nearest first). -/
def lowerFrom (before : List Char) : List Char → List Char
  | [] => []
  | c :: cs =>
    (if c = 'Σ' then [lowerSigma before cs] else lowerChar c) ++ lowerFrom (c :: before) cs

/-- The text in lower case. -/
def lowercase (s : String) : String := String.ofList (lowerFrom [] s.toList)

end TemplateInventory.Text
