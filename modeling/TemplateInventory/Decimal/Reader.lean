import TemplateInventory.Decimal.Double
import TemplateInventory.Text.Numeral
/-!
# Reading double-precision numbers

A number is written as digits with or without a point among them or at an end,
perhaps with a power of ten, or as one of the words for what is no finite number.
-/

namespace TemplateInventory

namespace Double

/-- The words for numbers that are not finite, in any case. -/
def ofWord (negative : Bool) (word : List Char) : Option Double :=
  let word := word.map Char.toLower
  if word = "inf".toList ∨ word = "infinity".toList then some (.infinite negative)
  else if word = "nan".toList then some .nan
  else none

/-- A sign and what follows it. -/
def takeSign : List Char → Bool × List Char
  | '-' :: cs => (true, cs)
  | '+' :: cs => (false, cs)
  | cs => (false, cs)

/-- The power of ten that ends a number; zero if there is none. -/
def readPower : List Char → Option Int
  | [] => some 0
  | c :: cs =>
    if c = 'e' ∨ c = 'E' then
      let (negative, digits) := takeSign cs
      (Text.readDigits digits).map fun n => if negative then -(n : Int) else n
    else none

/-- The number that digits on both sides of a point and a power of ten make. -/
def ofParts (negative : Bool) (whole fraction : List Char) (power : Int) : Option Double :=
  (Text.readDigits (whole ++ fraction)).map fun digits =>
    ofDecimal negative digits fraction.length power

/-- Reads a number without its sign. -/
def readUnsigned (negative : Bool) (cs : List Char) : Option Double :=
  let whole := cs.takeWhile Char.isDigit
  match cs.dropWhile Char.isDigit with
  | '.' :: rest =>
    (readPower (rest.dropWhile Char.isDigit)).bind
      (ofParts negative whole (rest.takeWhile Char.isDigit))
  | rest => (readPower rest).bind (ofParts negative whole [])

/-- Reads a number that takes up the whole text. -/
def read (cs : List Char) : Option Double :=
  let (negative, cs) := takeSign cs
  match ofWord negative cs with
  | some x => some x
  | none => readUnsigned negative cs

end Double

end TemplateInventory
