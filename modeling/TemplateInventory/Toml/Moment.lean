import TemplateInventory.Toml.Number
/-!
# TOML dates and times

A moment is a date, a time of day, or both, where the time may say how far it is
from the time of the zero meridian. Its text is the same however it was written:
`Moment.text`.

A document writes a moment as it is, `Moment.read`; a text stands for a moment if
all of it is one, `Moment.ofText`.
-/

namespace TemplateInventory.Toml

/-- A day of the calendar. -/
structure Date where
  year : Nat
  month : Nat
  day : Nat
  deriving DecidableEq, Repr

/-- A time of day; `fraction` holds the digits of the second's fraction that count. -/
structure Time where
  hour : Nat
  minute : Nat
  second : Nat
  fraction : List Char
  deriving DecidableEq, Repr

/-- How far a time is from that of the zero meridian. -/
inductive Offset where
  | zero
  | minutes (n : Int)
  deriving DecidableEq, Repr

/-- A date, a time, or both. -/
structure Moment where
  date : Option Date
  time : Option Time
  offset : Option Offset
  deriving DecidableEq, Repr

/-! ## Text -/

/-- A number with leading zeros. -/
def padded (width n : Nat) : List Char :=
  let digits := Nat.toDigits 10 n
  List.replicate (width - digits.length) '0' ++ digits

/-- The text of a date. -/
def Date.text (d : Date) : List Char :=
  padded 4 d.year ++ '-' :: padded 2 d.month ++ '-' :: padded 2 d.day

/-- The text of a time. -/
def Time.text (t : Time) : List Char :=
  padded 2 t.hour ++ ':' :: padded 2 t.minute ++ ':' :: padded 2 t.second ++
    if t.fraction.isEmpty then [] else '.' :: t.fraction

/-- The text of an offset. One of no minutes has a plus sign. -/
def Offset.text : Offset → List Char
  | .zero => ['Z']
  | .minutes n =>
    (if n < 0 then '-' else '+') :: padded 2 (n.natAbs / 60) ++ ':' :: padded 2 (n.natAbs % 60)

/-- The text of a moment. -/
def Moment.text (m : Moment) : String :=
  let date := (m.date.map Date.text).getD []
  let time := (m.time.map Time.text).getD []
  let between := if m.date.isSome && m.time.isSome then ['T'] else []
  String.ofList (date ++ between ++ time ++ (m.offset.map Offset.text).getD [])

/-! ## Parts -/

/-- Reads exactly `n` digits. -/
def readFixed (n : Nat) (cs : List Char) : Read Nat :=
  let digits := cs.take n
  if digits.length = n ∧ digits.all Char.isDigit = true then
    some (numberOf 10 digits, cs.drop n)
  else none

/-- Whether a year is a leap year. -/
def isLeap (year : Nat) : Bool := year % 4 == 0 && (year % 100 != 0 || year % 400 == 0)

/-- The days of a month. -/
def daysIn (year month : Nat) : Nat :=
  if month = 2 then (if isLeap year then 29 else 28)
  else if month = 4 ∨ month = 6 ∨ month = 9 ∨ month = 11 then 30
  else 31

/-- Reads a date. -/
def Date.read (cs : List Char) : Option (Date × List Char) := do
  let (year, cs) ← readFixed 4 cs
  let cs ← expect '-' cs
  let (month, cs) ← readFixed 2 cs
  let cs ← expect '-' cs
  let (day, cs) ← readFixed 2 cs
  if 1 ≤ month ∧ month ≤ 12 ∧ 1 ≤ day ∧ day ≤ daysIn year month then
    some (⟨year, month, day⟩, cs)
  else none

/-- The digits of a fraction of a second that count: nine at most, and no zeros at
the end. -/
def countedDigits (digits : List Char) : List Char :=
  ((digits.take 9).reverse.dropWhile (· == '0')).reverse

/-- Reads a time of day. -/
def Time.read (cs : List Char) : Option (Time × List Char) := do
  let (hour, cs) ← readFixed 2 cs
  let cs ← expect ':' cs
  let (minute, cs) ← readFixed 2 cs
  let cs ← expect ':' cs
  let (second, cs) ← readFixed 2 cs
  if hour ≤ 23 ∧ minute ≤ 59 ∧ second ≤ 60 then
    match cs with
    | '.' :: rest =>
      match rest.takeWhile Char.isDigit with
      | [] => none
      | digits =>
        some (⟨hour, minute, second, countedDigits digits⟩, rest.dropWhile Char.isDigit)
    | cs => some (⟨hour, minute, second, []⟩, cs)
  else none

/-- Reads an offset. -/
def Offset.read : List Char → Option (Offset × List Char)
  | [] => none
  | c :: cs =>
    if c = 'Z' ∨ c = 'z' then some (.zero, cs)
    else if c = '+' ∨ c = '-' then do
      let (hour, cs) ← readFixed 2 cs
      let cs ← expect ':' cs
      let (minute, cs) ← readFixed 2 cs
      if hour ≤ 23 ∧ minute ≤ 59 then
        let n : Int := hour * 60 + minute
        some (.minutes (if c = '-' then -n else n), cs)
      else none
    else none

/-- Whether a character may stand between a date and a time. -/
def isBetween (c : Char) : Bool := c == 'T' || c == 't' || c == ' '

namespace Moment

/-- Reads the time that comes after a date, with its offset if it has one. -/
def readTime (date : Date) : List Char → Read Moment
  | [] => none
  | c :: cs =>
    if isBetween c then
      match Time.read cs with
      | none => none
      | some (time, cs) =>
        match Offset.read cs with
        | some (offset, cs) => some (⟨date, time, offset⟩, cs)
        | none => some (⟨date, time, none⟩, cs)
    else none

/-- Reads a moment from the front of a text. -/
def read (cs : List Char) : Read Moment :=
  match Date.read cs with
  | some (date, rest) =>
    match readTime date rest with
    | some r => some r
    | none => some (⟨date, none, none⟩, rest)
  | none => (Time.read cs).map fun r => (⟨none, some r.1, none⟩, r.2)

/-- The moment that a whole text stands for. -/
def ofText (s : String) : Option Moment :=
  match read s.toList with
  | some (m, []) => some m
  | _ => none

end Moment

end TemplateInventory.Toml
