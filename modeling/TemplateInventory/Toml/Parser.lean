import TemplateInventory.Toml.Scalar
import TemplateInventory.Toml.Table
/-!
# Reading TOML documents

A document is a list of lines: headers, which open tables, and keys with values,
which go into the table that was opened last. Lists may go over several lines.
The reading functions that follow nesting or repetition carry a number that
bounds their steps; the length of the text is enough, since each step takes at
least one character.
-/

namespace TemplateInventory.Toml

/-! ## Blanks -/

/-- What follows blanks. -/
def skipBlank (cs : List Char) : List Char := cs.dropWhile fun c => c == ' ' || c == '\t'

/-- What follows a comment at the front, if there is one; its line end stays. -/
def skipComment : List Char → Option (List Char)
  | '\x23' :: cs =>
    let comment := cs.takeWhile fun c => c != '\n' && c != '\r'
    if comment.any isControl then none
    else some (cs.drop comment.length)
  | cs => some cs

/-- What follows blanks, comments and line ends, from the inside of a comment or
not. -/
def skipLinesFrom (inComment : Bool) : List Char → Option (List Char)
  | [] => some []
  | '\r' :: '\n' :: cs => skipLinesFrom false cs
  | c :: cs =>
    if c = '\n' then skipLinesFrom false cs
    else if inComment then if isControl c then none else skipLinesFrom true cs
    else if c = ' ' ∨ c = '\t' then skipLinesFrom false cs
    else if c = '\x23' then skipLinesFrom true cs
    else some (c :: cs)

/-- What follows blanks, comments and line ends. -/
def skipLines (cs : List Char) : Option (List Char) := skipLinesFrom false cs

/-! ## Keys -/

/-- The characters of keys without quotes. -/
def isBareKeyChar (c : Char) : Bool := c.isAlphanum || c == '_' || c == '-'

/-- Reads one key. -/
def readSimpleKey (cs : List Char) : Read String :=
  match cs with
  | [] => none
  | c :: rest =>
    if c = '\x22' then (readBasic 0 rest).map fun r => (String.ofList r.1, r.2)
    else if c = '\x27' then (readLiteral rest).map fun r => (String.ofList r.1, r.2)
    else
      match cs.takeWhile isBareKeyChar with
      | [] => none
      | key => some (String.ofList key, cs.dropWhile isBareKeyChar)

/-- How many lists and tables may stand inside each other, and how many keys may be
joined by dots. -/
def greatestDepth : Nat := 79

/-- Reads at most `room` keys with dots between them; blanks may stand around the
dots. -/
def readKeys (room : Nat) (cs : List Char) : Read (List String) :=
  match room with
  | 0 => none
  | room + 1 =>
    match readSimpleKey (skipBlank cs) with
    | none => none
    | some (key, rest) =>
      match skipBlank rest with
      | '.' :: rest => (readKeys room rest).map fun r => (key :: r.1, r.2)
      | rest => some ([key], rest)

/-- Reads a key. -/
def readKey (cs : List Char) : Read (List String) := readKeys greatestDepth cs

/-! ## Values -/

mutual

/-- Reads a value with at most `room` lists and tables inside each other. -/
def readValue (fuel room : Nat) (cs : List Char) : Read Value :=
  match fuel with
  | 0 => none
  | fuel + 1 =>
    match cs, room with
    | '[' :: _, 0 => none
    | '[' :: rest, room + 1 => readItems fuel room [] rest
    | '\x7b' :: _, 0 => none
    | '\x7b' :: rest, room + 1 =>
      match skipBlank rest with
      | '\x7d' :: rest => some (.table [], rest)
      | rest => readPairs fuel room [] rest
    | cs, _ => readScalar cs

/-- Reads the items of a list up to its closing bracket. -/
def readItems (fuel room : Nat) (items : List Value) (cs : List Char) : Read Value :=
  match fuel with
  | 0 => none
  | fuel + 1 =>
    match skipLines cs with
    | none => none
    | some (']' :: rest) => some (.list items.reverse, rest)
    | some cs =>
      match readValue fuel room cs with
      | none => none
      | some (item, rest) =>
        match skipLines rest with
        | some (',' :: rest) => readItems fuel room (item :: items) rest
        | some (']' :: rest) => some (.list (item :: items).reverse, rest)
        | _ => none

/-- Reads the keys and values of a table in braces. -/
def readPairs (fuel room : Nat) (entries : Entries) (cs : List Char) : Read Value :=
  match fuel with
  | 0 => none
  | fuel + 1 =>
    match readKey cs with
    | none => none
    | some (path, rest) =>
      match expect '=' rest with
      | none => none
      | some rest =>
        match readValue fuel room (skipBlank rest) with
        | none => none
        | some (v, rest) =>
          match setDotted (path.getLastD "") (.value v) path.dropLast entries with
          | none => none
          | some entries =>
            match skipBlank rest with
            | ',' :: rest => readPairs fuel room entries rest
            | '\x7d' :: rest => some (.table (entryValues entries), rest)
            | _ => none

end

/-! ## Documents -/

/-- A document while it is read: all entries, and the header of the table that is
open. -/
structure Document where
  entries : Entries
  header : List String

/-- Reads the header of one of a list of tables after its brackets. -/
def readItemHeader (d : Document) (cs : List Char) : Read Document :=
  match readKey cs with
  | some (path, ']' :: ']' :: rest) =>
    (atHeader (openItem (path.getLastD "")) path.dropLast d.entries).map fun es =>
      (⟨es, path⟩, rest)
  | _ => none

/-- Reads the header of a table after its bracket. -/
def readTableHeader (d : Document) (cs : List Char) : Read Document :=
  match readKey cs with
  | some (path, ']' :: rest) =>
    (atHeader (openTable (path.getLastD "")) path.dropLast d.entries).map fun es =>
      (⟨es, path⟩, rest)
  | _ => none

/-- Reads a key with its value. -/
def readPair (fuel : Nat) (d : Document) (cs : List Char) : Read Document :=
  match readKey cs with
  | none => none
  | some (path, rest) =>
    match expect '=' rest with
    | none => none
    | some rest =>
      match readValue fuel greatestDepth (skipBlank rest) with
      | none => none
      | some (v, rest) =>
        (atHeader (setDotted (path.getLastD "") (.value v) path.dropLast) d.header d.entries).map
          fun es => ({ d with entries := es }, rest)

/-- Reads a header or a key with its value. -/
def readExpression (fuel : Nat) (d : Document) : List Char → Read Document
  | '[' :: '[' :: cs => readItemHeader d cs
  | '[' :: cs => readTableHeader d cs
  | cs => readPair fuel d cs

/-- Reads the lines of a document. -/
def readDocument (fuel : Nat) (d : Document) (cs : List Char) : Option Document :=
  match fuel with
  | 0 => none
  | fuel + 1 =>
    match skipLines cs with
    | none => none
    | some [] => some d
    | some cs =>
      match readExpression fuel d cs with
      | none => none
      | some (d, rest) =>
        match skipComment (skipBlank rest) with
        | none => none
        | some [] => some d
        | some rest => (lineEnd? rest).bind (readDocument fuel d)

/-- Reads a document as the entries of a table. A document that stands for a moment
is no table. -/
def parse (s : String) : Option (List (String × Value)) :=
  match readDocument (s.length + 1) ⟨[], []⟩ s.toList with
  | none => none
  | some d =>
    match settle (.table (entryValues d.entries)) with
    | some (.table entries) => some entries
    | _ => none

end TemplateInventory.Toml
