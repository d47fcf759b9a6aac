/-!
# Whole numbers in texts

Reading a signed decimal number that has to lie between two bounds, and the
bounds that versions and settings have.
-/

namespace TemplateInventory.Text

/-- The value of a digit. -/
def digitValue (c : Char) : Nat := c.toNat - '0'.toNat

/-- The number that decimal digits write, following the digits of `n`. -/
def digitsFrom (n : Nat) : List Char → Nat
  | [] => n
  | c :: cs => digitsFrom (n * 10 + digitValue c) cs

/-- A nonempty run of decimal digits as a number. -/
def readDigits (cs : List Char) : Option Nat :=
  if cs.isEmpty || !cs.all Char.isDigit then none else some (digitsFrom 0 cs)

/-- A decimal number with or without a sign. -/
def readSigned : List Char → Option Int
  | '+' :: cs => (readDigits cs).map Int.ofNat
  | '-' :: cs => (readDigits cs).map fun n => -Int.ofNat n
  | cs => (readDigits cs).map Int.ofNat

/-- A decimal number from `low` to `high`. -/
def readBetween (low high : Int) (s : String) : Option Int :=
  match readSigned s.toList with
  | some n => if low ≤ n ∧ n ≤ high then some n else none
  | none => none

/-- The least number of 32 bits. -/
def least32 : Int := -2147483648

/-- The greatest number of 32 bits. -/
def greatest32 : Int := 2147483647

/-- The least number of 64 bits. -/
def least64 : Int := -9223372036854775808

/-- The greatest number of 64 bits. -/
def greatest64 : Int := 9223372036854775807

/-- A decimal number of 32 bits. -/
def read32 (s : String) : Option Int := readBetween least32 greatest32 s

/-- A decimal number of 64 bits. -/
def read64 (s : String) : Option Int := readBetween least64 greatest64 s

end TemplateInventory.Text
