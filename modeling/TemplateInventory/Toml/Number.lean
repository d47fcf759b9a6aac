import TemplateInventory.Decimal.Reader
import TemplateInventory.Settings.Value
import TemplateInventory.Toml.Quoted
/-!
# TOML numbers

Whole numbers to four bases and numbers with a fraction. Single underscores may
stand between digits.
-/

namespace TemplateInventory.Toml

/-- Reads digits, among which single underscores may stand. -/
def moreDigits (isIt : Char → Bool) : List Char → List Char × List Char
  | '_' :: c :: cs =>
    if isIt c then
      let r := moreDigits isIt cs
      (c :: r.1, r.2)
    else ([], '_' :: c :: cs)
  | c :: cs =>
    if isIt c then
      let r := moreDigits isIt cs
      (c :: r.1, r.2)
    else ([], c :: cs)
  | [] => ([], [])

/-- Reads at least one digit. -/
def readRun (isIt : Char → Bool) : List Char → Read (List Char)
  | c :: cs =>
    if isIt c then
      let r := moreDigits isIt cs
      some (c :: r.1, r.2)
    else none
  | [] => none

/-- Reads decimal digits that do not start with a zero, or a zero. -/
def readWhole : List Char → Read (List Char)
  | '0' :: cs => some (['0'], cs)
  | cs => readRun Char.isDigit cs

/-- A number that fits into 64 bits. -/
def fitting (n : Int) : Option Value :=
  if Text.least64 ≤ n ∧ n ≤ Text.greatest64 then some (.int n) else none

/-- The number that digits to a base write. -/
def numberOf (base : Nat) (digits : List Char) : Nat :=
  digits.foldl (fun n c => n * base + (hexValue c).getD 0) 0

/-- Reads a whole number to a base after its mark. -/
def readBased (base : Nat) (cs : List Char) : Read Value :=
  match readRun (fun c => match hexValue c with
    | some d => d < base
    | none => false) cs with
  | none => none
  | some (digits, rest) => (fitting (numberOf base digits)).map (·, rest)

/-- Reads a whole number. -/
def readInt : List Char → Read Value
  | '0' :: 'x' :: cs => readBased 16 cs
  | '0' :: 'o' :: cs => readBased 8 cs
  | '0' :: 'b' :: cs => readBased 2 cs
  | cs =>
    let (negative, digits) := Double.takeSign cs
    match readWhole digits with
    | none => none
    | some (digits, rest) =>
      let n : Int := numberOf 10 digits
      (fitting (if negative then -n else n)).map (·, rest)

/-- Reads the power of ten of a number. -/
def readPower : List Char → Read (List Char)
  | c :: cs =>
    if c = 'e' ∨ c = 'E' then
      let (negative, digits) := Double.takeSign cs
      (readRun Char.isDigit digits).map fun r =>
        ('e' :: (if negative then '-' :: r.1 else r.1), r.2)
    else none
  | [] => none

/-- Reads what makes a number one with a fraction: places after the point, a
power of ten, or both. -/
def readFraction : List Char → Read (List Char)
  | '.' :: cs =>
    match readRun Char.isDigit cs with
    | none => none
    | some (places, rest) =>
      match readPower rest with
      | some (power, rest) => some ('.' :: places ++ power, rest)
      | none => some ('.' :: places, rest)
  | cs => readPower cs

/-- Reads one of the words for numbers that are not finite. -/
def readWord (negative : Bool) (cs : List Char) : Read Value :=
  if "inf".toList.isPrefixOf cs then some (.float (.infinite negative), cs.drop 3)
  else if "nan".toList.isPrefixOf cs then some (.float .nan, cs.drop 3)
  else none

/-- Reads a number with a fraction. One that is too great is refused. -/
def readFloat (cs : List Char) : Read Value :=
  let (negative, unsigned) := Double.takeSign cs
  match readWord negative unsigned with
  | some r => some r
  | none =>
    match readWhole unsigned with
    | none => none
    | some (whole, rest) =>
      match readFraction rest with
      | none => none
      | some (fraction, rest) =>
        match Double.readUnsigned negative (whole ++ fraction) with
        | none | some (.infinite false) => none
        | some x => some (.float x, rest)

end TemplateInventory.Toml
