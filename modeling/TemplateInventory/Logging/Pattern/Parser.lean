import TemplateInventory.Logging.Pattern.Basic
import TemplateInventory.Text.Alphanumeric
import TemplateInventory.Text.Blank
/-!
# Reading patterns

`Pattern.read` reads a pattern from its text. Braces never close in the value of a
field, since a closing one ends the field; so a brace that would begin the count
of a repetition, or the number or name of a character, is always wrong.

The functions that follow groups and classes carry a number that bounds their
steps; the length of the text is enough, since each step takes at least one
character.
-/

namespace TemplateInventory.Logging

open TemplateInventory.Text

/-! ## Blanks -/

/-- What follows blanks and comments, in a comment or not. -/
def afterBlanks (inComment : Bool) : List Char → List Char
  | [] => []
  | c :: cs =>
    if inComment then afterBlanks (c != '\n') cs
    else if isBlank c then afterBlanks false cs
    else if c = '\x23' then afterBlanks true cs
    else c :: cs

/-- What follows blanks and comments, if these do not count. -/
def skipIgnored (spaced : Bool) (cs : List Char) : List Char :=
  if spaced then afterBlanks false cs else cs

/-- The character that comes next. If blanks do not count, they are passed over,
with the mark that begins a comment but not with the comment. -/
def nextChar (spaced : Bool) (cs : List Char) : Option Char :=
  if spaced then
    let rest := match cs.dropWhile isBlank with
      | '\x23' :: rest => rest.dropWhile isBlank
      | rest => rest
    rest.head?.or cs.head?
  else cs.head?

/-! ## Escapes -/

/-- The value of a hexadecimal digit. -/
def patternDigit (c : Char) : Option Nat :=
  if c.isDigit then some (c.toNat - '0'.toNat)
  else if 'a' ≤ c ∧ c ≤ 'f' then some (c.toNat - 'a'.toNat + 10)
  else if 'A' ≤ c ∧ c ≤ 'F' then some (c.toNat - 'A'.toNat + 10)
  else none

/-- Reads a number of exactly `length` hexadecimal digits. -/
def readPatternNumber (spaced : Bool) (n : Nat) : Nat → List Char → Option (Nat × List Char)
  | 0, cs => some (n, cs)
  | length + 1, cs =>
    match skipIgnored spaced cs with
    | [] => none
    | c :: rest =>
      match patternDigit c with
      | none => none
      | some d => readPatternNumber spaced (n * 16 + d) length rest

/-- Reads the character that a number of `length` digits stands for. -/
def readNumberedChar (spaced : Bool) (length : Nat) (cs : List Char) :
    Option (Pattern × List Char) :=
  match readPatternNumber spaced 0 length cs with
  | none => none
  | some (n, rest) =>
    if n.isValidChar then some (.char ⟨Char.ofNat n, length == 2⟩, rest) else none

/-- The characters that letters stand for after a backslash. -/
def letterChars : List (Char × Char) :=
  [('a', '\x07'), ('f', '\x0c'), ('t', '\t'), ('n', '\n'), ('r', '\r'), ('v', '\x0b')]

/-- Whether a character stands for itself after a backslash. -/
def standsForItself (c : Char) : Bool :=
  c.toNat < 128 && !c.isAlphanum && c != '<' && c != '>'

/-- What a character without a number stands for after a backslash. -/
def escapedPattern (c : Char) : Option Pattern :=
  if standsForItself c then some (.char ⟨c, false⟩)
  else if ['d', 's', 'w'].contains c then some (.kind false)
  else if ['D', 'S', 'W'].contains c then some (.kind true)
  else if ['A', 'z'].contains c then some .edge
  else if ['b', 'B', '<', '>'].contains c then some .wordEdge
  else (letterChars.find? (·.1 == c)).map fun e => .char ⟨e.2, false⟩

/-- Reads what comes after a backslash. -/
def readPatternEscape (spaced : Bool) : List Char → Option (Pattern × List Char)
  | [] => none
  | c :: cs =>
    if c = 'x' then readNumberedChar spaced 2 cs
    else if c = 'u' then readNumberedChar spaced 4 cs
    else if c = 'U' then readNumberedChar spaced 8 cs
    else (escapedPattern c).map (·, cs)

/-! ## Classes -/

/-- The names of classes of ASCII characters. -/
def classNames : List String :=
  ["alnum", "alpha", "ascii", "blank", "cntrl", "digit", "graph", "lower", "print", "punct",
    "space", "upper", "word", "xdigit"]

/-- Reads a named class after its bracket. -/
def readNamedClass : List Char → Option (ClassMember × List Char)
  | ':' :: cs =>
    let (negated, cs) := match cs with
      | '^' :: cs => (true, cs)
      | cs => (false, cs)
    let name := cs.takeWhile (· != ':')
    match cs.drop name.length with
    | ':' :: ']' :: rest =>
      if String.ofList name ∈ classNames then some (.named negated, rest) else none
    | _ => none
  | _ => none

/-- Reads a character or a kind of characters in a class. -/
def readMember (spaced : Bool) : List Char → Option (ClassMember × List Char)
  | [] => none
  | '\\' :: cs =>
    match readPatternEscape spaced cs with
    | some (.char c, rest) => some (.char c, rest)
    | some (.kind negated, rest) => some (.kind negated, rest)
    | _ => none
  | c :: cs => some (.char ⟨c, false⟩, cs)

/-- The range between two members, which have to be characters in their order. -/
def rangeOf : ClassMember → ClassMember → Option ClassMember
  | .char low, .char high => if low.char ≤ high.char then some (.range low high) else none
  | _, _ => none

/-- Reads the end of a range after its dash. -/
def readRangeEnd (spaced : Bool) (low : ClassMember) (cs : List Char) :
    Option (ClassMember × List Char) :=
  match readMember spaced (skipIgnored spaced cs) with
  | none => none
  | some (high, rest) => (rangeOf low high).map (·, rest)

/-- Reads a range or a single member. A dash before a closing bracket or another
dash makes no range. -/
def readRange (spaced : Bool) (cs : List Char) : Option (ClassMember × List Char) :=
  match readMember spaced cs with
  | none => none
  | some (low, rest) =>
    match skipIgnored spaced rest with
    | [] => none
    | '-' :: rest =>
      if nextChar spaced rest = some ']' ∨ nextChar spaced rest = some '-' then
        some (low, '-' :: rest)
      else readRangeEnd spaced low rest
    | rest => some (low, rest)

/-- Reads the dashes at the start of a class, last one first. -/
def readDashes (spaced : Bool) (fuel : Nat) (members : List ClassMember) (cs : List Char) :
    List ClassMember × List Char :=
  match fuel, cs with
  | fuel + 1, '-' :: cs =>
    readDashes spaced fuel (.char ⟨'-', false⟩ :: members) (skipIgnored spaced cs)
  | _, cs => (members, cs)

/-- Reads the start of a class after its bracket: whether it is negated, and the
dashes or the bracket that it starts with. -/
def readClassStart (spaced : Bool) (cs : List Char) : Bool × List ClassMember × List Char :=
  let (negated, cs) := match skipIgnored spaced cs with
    | '^' :: cs => (true, skipIgnored spaced cs)
    | cs => (false, cs)
  match readDashes spaced cs.length [] cs with
  | ([], ']' :: cs) => (negated, [.char ⟨']', false⟩], cs)
  | (members, cs) => (negated, members, cs)

/-- The members of a class, given what stands before the last operator. -/
def joinMembers (left : Option ClassMembers) (members : List ClassMember) : ClassMembers :=
  match left with
  | none => .all members
  | some left => .combined left (.all members)

/-- Reads the members of a class up to its closing bracket. -/
def readMembers (spaced : Bool) (fuel : Nat) (left : Option ClassMembers)
    (members : List ClassMember) (cs : List Char) : Option (ClassMembers × List Char) :=
  match fuel with
  | 0 => none
  | fuel + 1 =>
    match skipIgnored spaced cs with
    | [] => none
    | ']' :: rest => some (joinMembers left members, rest)
    | '[' :: rest =>
      match readNamedClass rest with
      | some (member, rest) => readMembers spaced fuel left (member :: members) rest
      | none =>
        let (negated, first, rest) := readClassStart spaced rest
        match readMembers spaced fuel none first rest with
        | none => none
        | some (inner, rest) =>
          readMembers spaced fuel left (.nested negated inner :: members) rest
    | '&' :: '&' :: rest | '-' :: '-' :: rest | '~' :: '~' :: rest =>
      readMembers spaced fuel (joinMembers left members) [] rest
    | cs =>
      match readRange spaced cs with
      | none => none
      | some (member, rest) => readMembers spaced fuel left (member :: members) rest

/-- Reads a class after its bracket. -/
def readClass (spaced : Bool) (cs : List Char) : Option (Pattern × List Char) :=
  let (negated, first, rest) := readClassStart spaced cs
  (readMembers spaced (rest.length + 1) none first rest).map fun r => (.oneOf negated r.1, r.2)

/-! ## Groups -/

/-- The letters of the modes. -/
def modeLetters : List Char := ['i', 'm', 's', 'U', 'u', 'R', 'x']

/-- Reads changes of modes up to the character that ends them. `off` tells that a
minus sign was read, `dangling` that it was read last. -/
def readChanges (changes : ModeChanges) (off dangling : Bool) :
    List Char → Option (ModeChanges × Char × List Char)
  | [] => none
  | c :: cs =>
    if c = ':' ∨ c = ')' then if dangling then none else some (changes, c, cs)
    else if c = '-' then if off then none else readChanges changes true true cs
    else if modeLetters.contains c && !changes.any (·.1 == c) then
      readChanges ((c, !off) :: changes) off false cs
    else none

/-- Whether a text is the name of a group. -/
def isGroupName : List Char → Bool
  | [] => false
  | c :: cs =>
    (c == '_' || isAlphabetic c) &&
      cs.all fun c => c == '_' || c == '.' || c == '[' || c == ']' || isAlphanumeric c

/-- What is left of a pattern while it is read, whether blanks do not count in it,
and the names of its groups so far. -/
structure PatternRest where
  text : List Char
  spaced : Bool
  names : List (List Char)

/-- Reads the name of a group with the bracket after it. -/
def readGroupName (r : PatternRest) (cs : List Char) : Option PatternRest :=
  let name := cs.takeWhile (· != '>')
  match cs.drop name.length with
  | '>' :: rest =>
    if isGroupName name && !r.names.contains name then
      some { r with text := rest, names := name :: r.names }
    else none
  | _ => none

/-- Reads a change of modes after its question mark; it stands alone or opens a
group. -/
def readModes (r : PatternRest) (cs : List Char) : Option (ModeChanges × Bool × PatternRest) :=
  match readChanges [] false false cs with
  | none => none
  | some (changes, last, rest) =>
    if last = ')' ∧ changes = [] then none
    else
      let spaced := changes.switch 'x' r.spaced
      some (changes, last = ':', { r with text := rest, spaced := spaced })

/-- Reads what a group starts with after its bracket: changes of modes, and whether
they open a group or stand alone. -/
def readGroupStart (r : PatternRest) : Option (ModeChanges × Bool × PatternRest) :=
  match skipIgnored r.spaced r.text with
  | '?' :: '=' :: _ | '?' :: '!' :: _ => none
  | '?' :: '<' :: '=' :: _ | '?' :: '<' :: '!' :: _ => none
  | '?' :: 'P' :: '<' :: rest | '?' :: '<' :: rest =>
    (readGroupName r rest).map fun r => ([], true, r)
  | '?' :: rest => readModes r rest
  | rest => some ([], true, { r with text := rest })

/-! ## Patterns -/

/-- What can be repeated and a text of which a question mark at the front belongs to
the repetition. -/
def repeatLast (items : List Pattern) (cs : List Char) : Option (List Pattern × List Char) :=
  let rest := match cs with
    | '?' :: rest => rest
    | rest => rest
  match items with
  | [] | .modes _ :: _ => none
  | p :: items => some (.repeated p :: items, rest)

/-- Reads a character that stands alone, or what it stands for. -/
def readSingle (spaced : Bool) (c : Char) (cs : List Char) : Option (Pattern × List Char) :=
  if c = '\\' then readPatternEscape spaced cs
  else if c = '[' then readClass spaced cs
  else if c = '\x7b' then none
  else if c = '.' then some (.any, cs)
  else if c = '^' ∨ c = '$' then some (.edge, cs)
  else some (.char ⟨c, false⟩, cs)

/-- Reads a pattern up to the end of its group. `branches` and `items` are what was
read of it, last first. -/
def readPattern (fuel : Nat) (branches items : List Pattern) (r : PatternRest) :
    Option (Pattern × PatternRest) :=
  match fuel with
  | 0 => none
  | fuel + 1 =>
    match skipIgnored r.spaced r.text with
    | [] => some (.choice (.sequence items.reverse :: branches).reverse, { r with text := [] })
    | c :: cs =>
      if c = ')' then
        some (.choice (.sequence items.reverse :: branches).reverse, { r with text := c :: cs })
      else if c = '|' then
        readPattern fuel (.sequence items.reverse :: branches) [] { r with text := cs }
      else if c = '?' ∨ c = '*' ∨ c = '+' then
        match repeatLast items cs with
        | none => none
        | some (items, rest) => readPattern fuel branches items { r with text := rest }
      else if c = '(' then
        match readGroupStart { r with text := cs } with
        | none => none
        | some (changes, false, inside) =>
          readPattern fuel branches (.modes changes :: items) inside
        | some (changes, true, inside) =>
          match readPattern fuel [] [] inside with
          | none => none
          | some (inner, after) =>
            match after.text with
            | [] => none
            | _ :: rest =>
              readPattern fuel branches (.group changes inner :: items)
                { after with text := rest, spaced := r.spaced }
      else
        match readSingle r.spaced c cs with
        | none => none
        | some (p, rest) => readPattern fuel branches (p :: items) { r with text := rest }

/-- Reads a pattern that takes up the whole text. -/
def Pattern.read (cs : List Char) : Option Pattern :=
  match readPattern (cs.length + 1) [] [] ⟨cs, false, []⟩ with
  | some (p, ⟨[], _, _⟩) => some p
  | _ => none

/-- Why a text cannot be used as a pattern. -/
def patternFault (cs : List Char) : Option PatternFault :=
  match Pattern.read cs with
  | none => some .form
  | some p => p.fault?

end TemplateInventory.Logging
