import TemplateInventory.Glob.Token
/-!
# Reading globs

A glob is read character by character. `*` and `?` stand for bytes of a name,
`[…]` for one of a set, `{…,…}` for one of several globs, and `\` takes the
meaning from the next character. Two stars that stand between slashes, or at an
end, stand for directories; anywhere else they mean what one star means.
-/

namespace TemplateInventory.Glob

/-- Why a text is not a glob. -/
inductive Fault where
  | openSet
  | badRange (low high : Char)
  | openGroup
  | strayGroupEnd
  /-- A backslash with nothing after it. -/
  | danglingEscape
  deriving DecidableEq, Repr

/-- The text of a fault of the glob `pattern`. -/
def Fault.message (pattern : String) (f : Fault) : String :=
  "error parsing glob '" ++ pattern ++ "': " ++
    match f with
    | .openSet => "unclosed character class; missing ']'"
    | .badRange low high => s!"invalid range; '{low}' > '{high}'"
    | .openGroup =>
      "unclosed alternate group; missing '\x7d' (maybe escape '\x7b' with '[\x7b]'?)"
    | .strayGroupEnd =>
      "unopened alternate group; missing '\x7b' (maybe escape '\x7d' with '[\x7d]'?)"
    | .danglingEscape => "dangling '\\'"

/-- A set of characters while it is read. The ranges are in reverse order. -/
structure OpenSet where
  negated : Bool
  isFirst : Bool
  /-- Whether a hyphen waits for the end of the last range. -/
  inRange : Bool
  ranges : List (Char × Char)

namespace OpenSet

/-- The set after its bracket. -/
def start (negated : Bool) : OpenSet := ⟨negated, true, false, []⟩

/-- Ends the last range with a character. -/
def endRange (s : OpenSet) (c : Char) : Except Fault OpenSet :=
  match s.ranges with
  | [] => .ok { s with isFirst := false, inRange := false, ranges := [(c, c)] }
  | (low, _) :: rest =>
    if c < low then .error (.badRange low c)
    else .ok { s with isFirst := false, inRange := false, ranges := (low, c) :: rest }

/-- Reads one more character of the set. -/
def add (s : OpenSet) (c : Char) : Except Fault OpenSet :=
  if s.inRange then s.endRange c
  else if c = '-' && !s.isFirst then .ok { s with inRange := true }
  else .ok { s with isFirst := false, ranges := (c, c) :: s.ranges }

/-- The token of the set. A hyphen that still waits stands for itself. -/
def token (s : OpenSet) : Token :=
  .oneOf s.negated (if s.inRange then ('-', '-') :: s.ranges else s.ranges).reverse

end OpenSet

/-- A group that is open: the tokens before it and its branches so far, both in
reverse order. -/
structure OpenGroup where
  before : List Token
  branches : List (List Token)

/-- What is read of a glob. Tokens are in reverse order, groups innermost first. -/
structure Reading where
  tokens : List Token
  groups : List OpenGroup
  /-- The character before. -/
  previous : Option Char
  opened : Option OpenSet

namespace Reading

/-- Nothing is read. -/
def start : Reading := ⟨[], [], none, none⟩

/-- Adds a token that ends with the character `c`. -/
def push (r : Reading) (c : Char) (t : Token) : Reading :=
  { r with tokens := t :: r.tokens, previous := some c }

/-- Starts a group. -/
def openGroup (r : Reading) : Reading :=
  { r with tokens := [], groups := ⟨r.tokens, []⟩ :: r.groups, previous := some '\x7b' }

/-- Starts the next branch of the innermost group; outside of groups a comma is
an ordinary character. -/
def comma (r : Reading) : Reading :=
  match r.groups with
  | [] => r.push ',' (.literal ',')
  | g :: gs =>
    { r with
      tokens := []
      groups := { g with branches := r.tokens.reverse :: g.branches } :: gs
      previous := some ',' }

/-- Ends the innermost group. -/
def closeGroup (r : Reading) : Except Fault Reading :=
  match r.groups with
  | [] => .error .strayGroupEnd
  | g :: gs =>
    .ok
      { r with
        tokens := .alternates (r.tokens.reverse :: g.branches).reverse :: g.before
        groups := gs
        previous := some '\x7d' }

/-- What two stars that are not next to slashes mean. -/
def plainStars (r : Reading) : Reading := (r.push '*' .anything).push '*' .anything

/-- Puts the token of two stars in the place of the slash before them. -/
def betweenSlashes (r : Reading) (t : Token) : Reading :=
  match r.tokens with
  | [] => r.push '*' t
  | last :: before =>
    let last := match last with
      | .anyPrefix => .anyPrefix
      | .anySuffix => .anySuffix
      | _ => t
    { r with tokens := last :: before, previous := some '*' }

/-- Whether two stars can stand for directories after what comes before them. -/
def allowsDirectories (r : Reading) : Bool :=
  r.previous == some '/' ||
    (!r.groups.isEmpty && (r.previous == some ',' || r.previous == some '\x7b'))

/-- Reads two stars before the character `next`. The flag says whether they take
`next` with them, which then is a slash. -/
def doubleStar (r : Reading) (next : Option Char) : Reading × Bool :=
  if r.tokens.isEmpty then
    match next with
    | none => (r.push '*' .anyPrefix, false)
    | some '/' => (r.push '*' .anyPrefix, true)
    | some _ => (r.plainStars, false)
  else if !r.allowsDirectories then (r.plainStars, false)
  else
    match next with
    | none => (r.betweenSlashes .anySuffix, false)
    | some '/' => (r.betweenSlashes .anyBetween, true)
    | some c =>
      if !r.groups.isEmpty && (c == ',' || c == '\x7d') then
        (r.betweenSlashes .anySuffix, false)
      else (r.plainStars, false)

/-- What was read, if nothing is left open. -/
def finish (r : Reading) : Except Fault (List Token) :=
  if r.opened.isSome then .error .openSet
  else if !r.groups.isEmpty then .error .openGroup
  else .ok r.tokens.reverse

end Reading

/-- Reads the characters that follow what is read already. -/
def parseFrom (r : Reading) : List Char → Except Fault (List Token)
  | [] => r.finish
  | c :: cs =>
    match r.opened with
    | some s =>
      if c = ']' && !s.isFirst then parseFrom ({ r with opened := none }.push c s.token) cs
      else
        match s.add c with
        | .error e => .error e
        | .ok s' => parseFrom { r with opened := some s' } cs
    | none =>
      if c = '?' then parseFrom (r.push c .any) cs
      else if c = '*' then
        match cs with
        | '*' :: ds =>
          match r.doubleStar ds.head?, ds with
          | (r', true), d :: es => parseFrom { r' with previous := some d } es
          | (r', _), ds => parseFrom r' ds
        | cs => parseFrom (r.push c .anything) cs
      else if c = '[' then
        match cs with
        | [] => .error .openSet
        | d :: ds =>
          if d = '!' || d = '^' then parseFrom { r with opened := some (.start true) } ds
          else parseFrom { r with opened := some (.start false) } (d :: ds)
      else if c = '\x7b' then parseFrom r.openGroup cs
      else if c = '\x7d' then
        match r.closeGroup with
        | .error e => .error e
        | .ok r' => parseFrom r' cs
      else if c = ',' then parseFrom r.comma cs
      else if c = '\\' then
        match cs with
        | [] => .error .danglingEscape
        | d :: ds => parseFrom (r.push d (.literal d)) ds
      else parseFrom (r.push c (.literal c)) cs

/-- The tokens of a glob. -/
def parse (s : String) : Except Fault (List Token) := parseFrom .start s.toList

end TemplateInventory.Glob
