/-!
# Double-precision numbers

Numbers with a fraction as settings write them: the double-precision number
nearest to a decimal text, and the shortest decimal text that is nearest to such
a number. All arithmetic is exact, on natural numbers.
-/

namespace TemplateInventory

/-- A double-precision number. A finite one is `mantissa * 2 ^ exponent`. -/
inductive Double where
  | nan
  | infinite (negative : Bool)
  | finite (negative : Bool) (mantissa : Nat) (exponent : Int)
  deriving DecidableEq, Repr

namespace Double

/-- A quotient rounded to the nearest number, a half to the even neighbour. -/
def roundEven (num den : Nat) : Nat :=
  let q := num / den
  let r := num % den
  if 2 * r < den then q
  else if 2 * r = den then q + q % 2
  else q + 1

/-- The quotient `num / den` in units of `2 ^ exponent`, as a fraction. -/
def inUnits (num den : Nat) (exponent : Int) : Nat × Nat :=
  if 0 ≤ exponent then (num, den * Nat.pow 2 exponent.toNat) else (num * Nat.pow 2 (-exponent).toNat, den)

/-- The least exponent of a finite number. -/
def leastExponent : Int := -1074

/-- The number nearest to the quotient `num / den`. -/
def ofQuotient (negative : Bool) (num den : Nat) : Double :=
  if num = 0 then .finite negative 0 0
  else
    let guess := max ((num.log2 : Int) - den.log2 - 53) leastExponent
    let units := inUnits num den guess
    let exponent := if Nat.pow 2 53 ≤ units.1 / units.2 then guess + 1 else guess
    let units := inUnits num den exponent
    let m := roundEven units.1 units.2
    let (m, exponent) := if m = Nat.pow 2 53 then (Nat.pow 2 52, exponent + 1) else (m, exponent)
    if 971 < exponent then .infinite negative else .finite negative m exponent

/-- The number nearest to the decimal digits `digits` with `places` of them after
the point, times ten to the power `power`. -/
def ofDecimal (negative : Bool) (digits : Nat) (places : Nat) (power : Int) : Double :=
  let shift := power - places
  let size := (Nat.toDigits 10 digits).length
  if digits = 0 then .finite negative 0 0
  else if 400 < shift + size then .infinite negative
  else if shift + size < -400 then .finite negative 0 0
  else if 0 ≤ shift then ofQuotient negative (digits * Nat.pow 10 shift.toNat) 1
  else ofQuotient negative digits (Nat.pow 10 (-shift).toNat)

/-- Whether the number is different from zero. -/
def isNonzero : Double → Bool
  | .finite _ m _ => m != 0
  | _ => true

/-- The whole number nearest to a number, a half away from zero, kept between
bounds. -/
def roundBetween (low high : Int) : Double → Int
  | .nan => 0
  | .infinite true => low
  | .infinite false => high
  | .finite negative m exponent =>
    let n : Nat :=
      if 0 ≤ exponent then m * Nat.pow 2 exponent.toNat
      else (2 * m + Nat.pow 2 (-exponent).toNat) / (2 * Nat.pow 2 (-exponent).toNat)
    max low (min high (if negative then -(n : Int) else n))

/-! ## Shortest text -/

/-- Whether `c * 10 ^ power` is below, at or above `x * 2 ^ exponent`. -/
def compareDecimal (c : Nat) (power : Int) (x : Nat) (exponent : Int) : Ordering :=
  compare (c * Nat.pow 10 power.toNat * Nat.pow 2 (-exponent).toNat)
    (x * Nat.pow 2 exponent.toNat * Nat.pow 10 (-power).toNat)

/-- The greatest `c` with `c * 10 ^ power` at most `x * 2 ^ exponent`. -/
def floorDecimal (power : Int) (x : Nat) (exponent : Int) : Nat :=
  (x * Nat.pow 2 exponent.toNat * Nat.pow 10 (-power).toNat) /
    (Nat.pow 10 power.toNat * Nat.pow 2 (-exponent).toNat)

/-- The place of the first decimal digit of `x * 2 ^ exponent`: the greatest power
of ten, at most `start`, that does not exceed it. -/
def firstPlace (x : Nat) (exponent : Int) : Nat → Int → Int
  | 0, power => power
  | n + 1, power =>
    if floorDecimal power x exponent = 0 then firstPlace x exponent n (power - 1) else power

/-- The decimal with the digit places from `power` on that lies nearest to
`4 * m * 2 ^ exponent`, if it lies nearer to it than to its neighbours. The
distances to the middles between neighbours are `below` and 2 units. Of two such
decimals at the same distance the greater one counts. -/
def nearestAt (m below : Nat) (exponent power : Int) : Option Nat :=
  let x := 4 * m
  let even := m % 2 == 0
  let fits := fun c =>
    let low := compareDecimal c power (x - below) exponent
    let high := compareDecimal c power (x + 2) exponent
    (low == .gt || (even && low == .eq)) && (high == .lt || (even && high == .eq))
  let down := floorDecimal power x exponent
  let up := down + 1
  match fits down, fits up with
  | true, true =>
    if compareDecimal (down + up) power (2 * x) exponent == .gt then some down else some up
  | true, false => some down
  | false, true => some up
  | false, false => none

/-- The shortest decimal that is nearest to the number, with the place of its last
digit, tried from the place `power` down. -/
def shortest (m below : Nat) (exponent : Int) : Nat → Int → Nat × Int
  | 0, power => (floorDecimal power (4 * m) exponent, power)
  | n + 1, power =>
    match nearestAt m below exponent power with
    | some c => (c, power)
    | none => shortest m below exponent n (power - 1)

/-- Decimal digits with the point `places` from the end; no fraction is written
if it is zero. -/
def placeDigits (digits : List Char) (power : Int) : List Char :=
  if 0 ≤ power then digits ++ List.replicate power.toNat '0'
  else
    let places := (-power).toNat
    let padded := List.replicate (places + 1 - digits.length) '0' ++ digits
    padded.take (padded.length - places) ++ '.' :: padded.drop (padded.length - places)

/-- The text of a number: all its places, with the fewest digits that tell it from
every other number. -/
def text : Double → String
  | .nan => "NaN"
  | .infinite negative => if negative then "-inf" else "inf"
  | .finite negative m exponent =>
    let sign := if negative then "-" else ""
    if m = 0 then sign ++ "0"
    else
      let below := if m = Nat.pow 2 52 && leastExponent < exponent then 1 else 2
      let unit := exponent - 2
      let first := firstPlace (4 * m) unit 700 309
      let (c, power) := shortest m below unit 20 (first + 1)
      sign ++ String.ofList (placeDigits (Nat.toDigits 10 c) power)

end Double

end TemplateInventory
