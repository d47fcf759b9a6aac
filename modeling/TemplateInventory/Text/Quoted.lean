import TemplateInventory.Text.Ranges
import TemplateInventory.Text.InvisibleTable
/-!
# Quoted texts

How messages show a text or a character: between quotes, with a backslash
before a backslash and before the quote in use, with short forms for the usual
controls, and with the number of every other character that would not show.
-/

namespace TemplateInventory.Text

/-- Whether a character is shown by its number. -/
def isInvisible (c : Char) : Bool :=
  if c.toNat < 128 then c.toNat < 32 || c.toNat == 127
  else inRanges invisibleRanges c.toNat

/-- The digits of a number to base sixteen, without leading zeros. -/
def hexDigits (n : Nat) : List Char := Nat.toDigits 16 n

/-- The form of one character between quotes `quote`. -/
def quotedChar (quote c : Char) : List Char :=
  if c = '\x00' then ['\\', '0']
  else if c = '\t' then ['\\', 't']
  else if c = '\r' then ['\\', 'r']
  else if c = '\n' then ['\\', 'n']
  else if c = '\\' || c = quote then ['\\', c]
  else if isInvisible c then ['\\', 'u', '\x7b'] ++ hexDigits c.toNat ++ ['\x7d']
  else [c]

/-- The text between double quotes. -/
def quoted (s : String) : String :=
  String.ofList (['\x22'] ++ s.toList.flatMap (quotedChar '\x22') ++ ['\x22'])

/-- The character between single quotes. -/
def quotedCharacter (c : Char) : String :=
  String.ofList (['\x27'] ++ quotedChar '\x27' c ++ ['\x27'])

/-- A text that may be missing: `None`, or the quoted text in `Some(…)`. -/
def quotedOption : Option String → String
  | none => "None"
  | some s => "Some(" ++ quoted s ++ ")"

/-- A list of texts that may be missing, in square brackets. -/
def quotedOptions (values : List (Option String)) : String :=
  "[" ++ String.intercalate ", " (values.map quotedOption) ++ "]"

end TemplateInventory.Text
