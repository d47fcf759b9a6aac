/-!
# TOML strings

The four kinds of strings of TOML: on one line or on several, with escapes or
without. Each reading function takes what it reads from the front of a text and
gives the rest, or nothing if the front is not of its kind.
-/

namespace TemplateInventory.Toml

/-- What was read from the front of a text, and the rest. -/
abbrev Read (α : Type) := Option (α × List Char)

/-- Reads one given character. -/
def expect (c : Char) : List Char → Option (List Char)
  | d :: cs => if c = d then some cs else none
  | [] => none

/-- The control characters that strings and comments cannot have. -/
def isControl (c : Char) : Bool := (c.toNat < 32 && c != '\t') || c.toNat == 127

/-- The value of a hexadecimal digit. -/
def hexValue (c : Char) : Option Nat :=
  if c.isDigit then some (c.toNat - '0'.toNat)
  else if 'a' ≤ c ∧ c ≤ 'f' then some (c.toNat - 'a'.toNat + 10)
  else if 'A' ≤ c ∧ c ≤ 'F' then some (c.toNat - 'A'.toNat + 10)
  else none

/-- The number that hexadecimal digits write. -/
def hexNumber (n : Nat) : List Char → Option Nat
  | [] => some n
  | c :: cs => (hexValue c).bind fun d => hexNumber (n * 16 + d) cs

/-- The character with a number of `length` hexadecimal digits. -/
def readCode (length : Nat) (cs : List Char) : Option Char :=
  if (cs.take length).length < length then none
  else
    (hexNumber 0 (cs.take length)).bind fun n =>
      if n.isValidChar then some (Char.ofNat n) else none

/-- The character that an escape of one letter stands for. -/
def escaped (c : Char) : Option Char :=
  if c = 'b' then some '\x08'
  else if c = 't' then some '\t'
  else if c = 'n' then some '\n'
  else if c = 'f' then some '\x0c'
  else if c = 'r' then some '\r'
  else if c = '\x22' then some '\x22'
  else if c = '\\' then some '\\'
  else none

/-- Reads what comes after a backslash. -/
def readEscape : List Char → Read Char
  | [] => none
  | c :: cs =>
    if c = 'u' then (readCode 4 cs).map fun d => (d, cs.drop 4)
    else if c = 'U' then (readCode 8 cs).map fun d => (d, cs.drop 8)
    else (escaped c).map fun d => (d, cs)

/-- Reads a string after its double quote. `skip` characters belong to an escape
that was read. -/
def readBasic (skip : Nat) : List Char → Read (List Char)
  | [] => none
  | c :: cs =>
    match skip with
    | n + 1 => readBasic n cs
    | 0 =>
      if c = '\x22' then some ([], cs)
      else if c = '\\' then
        match readEscape cs with
        | none => none
        | some (d, rest) =>
          (readBasic (cs.length - rest.length) cs).map fun r => (d :: r.1, r.2)
      else if isControl c then none
      else (readBasic 0 cs).map fun r => (c :: r.1, r.2)

/-- Reads a string after its single quote. -/
def readLiteral : List Char → Read (List Char)
  | [] => none
  | c :: cs =>
    if c = '\x27' then some ([], cs)
    else if isControl c then none
    else (readLiteral cs).map fun r => (c :: r.1, r.2)

/-- What follows the line end at the front, if there is one. -/
def lineEnd? : List Char → Option (List Char)
  | '\n' :: cs => some cs
  | '\r' :: '\n' :: cs => some cs
  | _ => none

/-- How many characters the blanks and line ends at the front are. -/
def blankLines : List Char → Nat
  | '\r' :: '\n' :: cs => blankLines cs + 2
  | c :: cs => if c = ' ' ∨ c = '\t' ∨ c = '\n' then blankLines cs + 1 else 0
  | [] => 0

/-- How many characters a backslash at the end of a line takes away: the blanks
and line ends after it, of which there is at least one line end. -/
def continuation (cs : List Char) : Option Nat :=
  let blank := cs.takeWhile fun c => c == ' ' || c == '\t'
  match lineEnd? (cs.drop blank.length) with
  | none => none
  | some _ => some (blankLines cs)

/-- The quotes at the front, at most five. -/
def quotesAt (quote : Char) (cs : List Char) : Nat := ((cs.take 5).takeWhile (· == quote)).length

/-- Reads a string of several lines after its three quotes. `skip` characters are
passed over. -/
def readLines (quote : Char) (skip : Nat) : List Char → Read (List Char)
  | [] => none
  | c :: cs =>
    match skip with
    | n + 1 => readLines quote n cs
    | 0 =>
      if c = quote ∧ 3 ≤ quotesAt quote (c :: cs) then
        let n := quotesAt quote (c :: cs)
        some (List.replicate (n - 3) quote, cs.drop (n - 1))
      else if c = '\\' ∧ quote = '\x22' then
        match continuation cs with
        | some n => readLines quote n cs
        | none =>
          match readEscape cs with
          | none => none
          | some (d, rest) =>
            (readLines quote (cs.length - rest.length) cs).map fun r => (d :: r.1, r.2)
      else if c = '\r' then
        if cs.head? = some '\n' then readLines quote 0 cs else none
      else if isControl c ∧ c ≠ '\n' then none
      else (readLines quote 0 cs).map fun r => (c :: r.1, r.2)

/-- Reads a string of several lines after its quotes; a line end at its start
does not count. -/
def readBlock (quote : Char) (cs : List Char) : Read (List Char) :=
  readLines quote 0 ((lineEnd? cs).getD cs)

/-- Reads a string. -/
def readString : List Char → Read (List Char)
  | '\x22' :: '\x22' :: '\x22' :: cs => readBlock '\x22' cs
  | '\x27' :: '\x27' :: '\x27' :: cs => readBlock '\x27' cs
  | '\x22' :: cs => readBasic 0 cs
  | '\x27' :: cs => readLiteral cs
  | _ => none

end TemplateInventory.Toml
