/-!
# Glob tokens

What a file pattern is made of, and which names it matches. A name is matched as
the bytes of its text: `?` takes one byte, and a set of characters stands for the
bytes of their texts.

A pattern is matched from its last token to its first. For every end of the name,
longest first, a mark tells whether the tokens after some place of the pattern
match it; `Token.before` makes of these marks those for the tokens from the one
before that place on. So a name is gone through once for each token.
-/

namespace TemplateInventory.Glob

/-- A piece of a pattern. -/
inductive Token where
  | literal (c : Char)
  /-- Any one byte. -/
  | any
  /-- Any bytes. -/
  | anything
  /-- Directories in front: nothing, a slash, or bytes that end with a slash. -/
  | anyPrefix
  /-- Everything inside: a slash and any bytes. -/
  | anySuffix
  /-- Directories between: a slash, or bytes between two slashes. -/
  | anyBetween
  /-- A byte of one of the ranges, or of none of them. -/
  | oneOf (negated : Bool) (ranges : List (Char × Char))
  /-- One of several sequences. -/
  | alternates (branches : List (List Token))

/-- The byte of a slash. -/
def slash : UInt8 := 47

/-- The ranges of bytes that a range of characters stands for: the bytes of its
first character but the last one, the range from that byte to the first byte of
its last character, and the other bytes of that. -/
def byteRanges (r : Char × Char) : List (UInt8 × UInt8) :=
  let low := (String.singleton r.1).toUTF8.toList
  let high := (String.singleton r.2).toUTF8.toList
  if r.1 = r.2 then low.map fun b => (b, b)
  else
    low.dropLast.map (fun b => (b, b)) ++
      [(low.getLastD 0, high.headD 0)] ++ high.tail.map fun b => (b, b)

/-- Whether a byte lies in one of the ranges. -/
def inByteRanges (ranges : List (Char × Char)) (b : UInt8) : Bool :=
  (ranges.flatMap byteRanges).any fun r => r.1 ≤ b && b ≤ r.2

/-! ## Marks on the ends of a name -/

/-- The marks of the empty sequence of tokens: only the empty end has one. -/
def emptyMarks : List UInt8 → List Bool
  | [] => [true]
  | _ :: bs => false :: emptyMarks bs

/-- The ends that have a mark in one of two lists. -/
def eitherMark (ms ns : List Bool) : List Bool := List.zipWith (· || ·) ms ns

/-- The ends that are a byte of some kind and a marked end. -/
def afterByte (isIt : UInt8 → Bool) : List UInt8 → List Bool → List Bool
  | b :: bs, _ :: ms => (isIt b && ms.headD false) :: afterByte isIt bs ms
  | _, _ => [false]

/-- The ends that are given bytes and a marked end. -/
def afterBytes (expected bs : List UInt8) (ms : List Bool) : List Bool :=
  expected.foldr (fun e ms => afterByte (· == e) bs ms) ms

/-- The ends that end with a marked end. -/
def afterAnything : List Bool → List Bool
  | [] => []
  | m :: ms =>
    let later := afterAnything ms
    (m || later.headD false) :: later

/-- The ends that are some bytes, a slash, and a marked end. -/
def afterSlash : List UInt8 → List Bool → List Bool
  | b :: bs, _ :: ms =>
    let later := afterSlash bs ms
    ((b == slash && ms.headD false) || later.headD false) :: later
  | _, _ => [false]

mutual

/-- Whether the token matches only the empty name because it has no branch with
something in it. -/
def Token.isVoid : Token → Bool
  | .alternates branches => allVoid branches
  | _ => false

/-- Whether every branch is void. -/
def allVoid : List (List Token) → Bool
  | [] => true
  | ts :: rest => isVoidSequence ts && allVoid rest

/-- Whether every token of a sequence is void. -/
def isVoidSequence : List Token → Bool
  | [] => true
  | t :: ts => t.isVoid && isVoidSequence ts

end

mutual

/-- The marks of a sequence that starts with the token, from the marks `ms` of what
comes after it. -/
def Token.before (bs : List UInt8) (ms : List Bool) : Token → List Bool
  | .literal c => afterBytes (String.singleton c).toUTF8.toList bs ms
  | .any => afterByte (fun _ => true) bs ms
  | .anything => afterAnything ms
  | .anyPrefix => eitherMark ms (afterSlash bs ms)
  | .anySuffix => afterByte (· == slash) bs (afterAnything ms)
  | .anyBetween => afterByte (· == slash) bs (eitherMark ms (afterSlash bs ms))
  | .oneOf negated ranges => afterByte (fun b => inByteRanges ranges b != negated) bs ms
  | .alternates branches => if allVoid branches then ms else beforeBranches bs ms branches

/-- The marks of the branches that are not void. -/
def beforeBranches (bs : List UInt8) (ms : List Bool) : List (List Token) → List Bool
  | [] => ms.map fun _ => false
  | ts :: rest =>
    let others := beforeBranches bs ms rest
    if isVoidSequence ts then others else eitherMark (beforeAll bs ms ts) others

/-- The marks of a sequence of tokens, from those of what comes after it. -/
def beforeAll (bs : List UInt8) (ms : List Bool) : List Token → List Bool
  | [] => ms
  | t :: ts => Token.before bs (beforeAll bs ms ts) t

end

/-- Whether a sequence of tokens matches a whole name. A lone `**` matches
everything. -/
def matchesName (tokens : List Token) (name : String) : Bool :=
  match tokens with
  | [.anyPrefix] => true
  | _ =>
    let bs := name.toUTF8.toList
    (beforeAll bs (emptyMarks bs) tokens).headD false

end TemplateInventory.Glob
