import TemplateInventory.Xml.Escape
import TemplateInventory.Text.Blank
/-!
# Pieces of markup

Where a piece of markup ends and what kind it is, decided by its first
characters alone. A tag ends at the first `>` outside quotes; comments, data
sections, document types and instructions end where their own rule says. Each
reading function also gives the rest of the text, which is shorter,
`Markup.read_shorter`.
-/

namespace TemplateInventory.Xml

open TemplateInventory.Text

/-- The characters of a tag up to its `>`, and what follows. The first argument
is the quote that is open. -/
def takeTag : Option Char → List Char → Option (List Char × List Char)
  | _, [] => none
  | some q, c :: cs =>
    (takeTag (if c = q then none else some q) cs).map fun r => (c :: r.1, r.2)
  | none, c :: cs =>
    if c = '>' then some ([], cs)
    else
      (takeTag (if c = '\x22' ∨ c = '\x27' then some c else none) cs).map
        fun r => (c :: r.1, r.2)

/-- The characters up to the first `>` at which `stop` holds of the characters
before it, nearest first; and what follows. -/
def takeUntil (stop : List Char → Bool) (seen : List Char) :
    List Char → Option (List Char × List Char)
  | [] => none
  | c :: cs =>
    if c = '>' ∧ stop seen = true then some (seen.reverse, cs)
    else takeUntil stop (c :: seen) cs

/-- A piece of markup without its `<` and `>`. -/
inductive Markup where
  /-- A start tag or an element without content. -/
  | opening (content : List Char)
  /-- An end tag, after its slash. -/
  | closing (content : List Char)
  /-- The characters of a data section. -/
  | data (content : List Char)
  /-- A comment, an instruction, a declaration or a document type. -/
  | aside

/-- A comment ends after two hyphens that come after its opening ones. -/
def endsComment (seen : List Char) : Bool :=
  "--".toList.isPrefixOf seen && 4 < seen.length

/-- A data section ends after two closing brackets. -/
def endsData (seen : List Char) : Bool := "]]".toList.isPrefixOf seen

/-- A document type ends where every inner `<` has met its `>`. -/
def endsDoctype (seen : List Char) : Bool := seen.count '<' == seen.count '>'

/-- An instruction ends after a question mark. -/
def endsInstruction (seen : List Char) : Bool := seen.head? == some '?'

/-- What the characters after a `<` start. -/
inductive Start where
  | nothing
  | tag
  | closing
  | data
  | comment
  | doctype
  | inquiry
  | unknown
  deriving DecidableEq

/-- Markup is told apart by at most two characters. -/
def startOf : List Char → Start
  | [] => .nothing
  | c :: cs =>
    if c = '/' then .closing
    else if c = '?' then .inquiry
    else if c = '!' then
      match cs.head? with
      | some '[' => .data
      | some '-' => .comment
      | some 'D' => .doctype
      | some 'd' => .doctype
      | _ => .unknown
    else .tag

/-- The content of a section that starts with `![`. -/
def dataSection (pos : Nat) (content : List Char) : Except Fault Markup :=
  if "![CDATA[".toList.isPrefixOf content then
    .ok (.data ((content.drop 8).take (content.length - 10)))
  else .error (.openData pos)

/-- A comment has two hyphens after its `!`. -/
def commentSection (pos : Nat) (content : List Char) : Except Fault Markup :=
  if "!--".toList.isPrefixOf content then .ok .aside else .error (.openComment pos)

/-- A document type is announced by its word and has a name. -/
def doctypeSection (pos : Nat) (content : List Char) : Except Fault Markup :=
  if (content.take 8).map Char.toUpper ≠ "!DOCTYPE".toList then .error (.openDoctype pos)
  else if (content.drop 8).all isMarkupBlank then
    .error (.doctypeName (pos + 1 + byteLength content))
  else .ok .aside

/-- An instruction stands between two question marks. -/
def inquirySection (pos : Nat) (content : List Char) : Except Fault Markup :=
  if 1 < content.length then .ok .aside else .error (.openInstruction pos)

/-- The piece that the content taken from a text makes, with the bytes it takes
and the rest; `unclosed` is the fault of a piece that does not end. -/
def pieceFound (unclosed : Fault) (piece : List Char → Except Fault Markup) :
    Option (List Char × List Char) → Except Fault (Markup × Nat × List Char)
  | none => .error unclosed
  | some (content, rest) =>
    (piece content).map fun m => (m, byteLength content + 1, rest)

/-- Reads the piece of markup whose `<` is at `pos` from the text after it. -/
def Markup.read (pos : Nat) (cs : List Char) : Except Fault (Markup × Nat × List Char) :=
  match startOf cs with
  | .nothing => .error (.openTag pos)
  | .unknown => .error (.unknownMarkup pos)
  | .tag => pieceFound (.openTag pos) (fun content => .ok (.opening content)) (takeTag none cs)
  | .closing =>
    pieceFound (.openTag pos) (fun content => .ok (.closing (content.drop 1)))
      (takeTag none cs)
  | .data => pieceFound (.openData pos) (dataSection pos) (takeUntil endsData [] cs)
  | .comment =>
    pieceFound (.openComment pos) (commentSection pos) (takeUntil endsComment [] cs)
  | .doctype =>
    pieceFound (.openDoctype pos) (doctypeSection pos) (takeUntil endsDoctype [] cs)
  | .inquiry =>
    pieceFound (.openInstruction pos) (inquirySection pos) (takeUntil endsInstruction [] cs)

/-! ## The rest is shorter -/

theorem takeTag_shorter {quote : Option Char} {cs content rest : List Char}
    (h : takeTag quote cs = some (content, rest)) : rest.length < cs.length := by
  induction cs generalizing quote content with
  | nil => cases quote <;> simp [takeTag] at h
  | cons c cs ih =>
    cases quote with
    | some q =>
      obtain ⟨r, hr, he⟩ := Option.map_eq_some_iff.1 h
      cases he
      exact Nat.lt_succ_of_lt (ih hr)
    | none =>
      simp only [takeTag] at h
      split at h
      · cases h
        exact Nat.lt_succ_self _
      · obtain ⟨r, hr, he⟩ := Option.map_eq_some_iff.1 h
        cases he
        exact Nat.lt_succ_of_lt (ih hr)

theorem takeUntil_shorter {stop : List Char → Bool} {seen cs content rest : List Char}
    (h : takeUntil stop seen cs = some (content, rest)) : rest.length < cs.length := by
  induction cs generalizing seen with
  | nil => simp [takeUntil] at h
  | cons c cs ih =>
    rw [takeUntil] at h
    split at h
    · cases h
      exact Nat.lt_succ_self _
    · exact Nat.lt_succ_of_lt (ih h)

theorem pieceFound_shorter {unclosed : Fault} {piece : List Char → Except Fault Markup}
    {taken : Option (List Char × List Char)} {cs rest : List Char} {m : Markup} {n : Nat}
    (ht : ∀ content rest, taken = some (content, rest) → rest.length < cs.length)
    (h : pieceFound unclosed piece taken = .ok (m, n, rest)) : rest.length < cs.length := by
  match taken, h with
  | some (content, rest'), h =>
    simp only [pieceFound] at h
    cases hp : piece content with
    | error e => simp [hp, Except.map] at h
    | ok m' =>
      simp only [hp, Except.map, Except.ok.injEq, Prod.mk.injEq] at h
      exact h.2.2 ▸ ht _ _ rfl

/-- What follows a piece of markup is shorter than what it was read from. -/
theorem Markup.read_shorter {pos : Nat} {cs rest : List Char} {m : Markup} {n : Nat}
    (h : Markup.read pos cs = .ok (m, n, rest)) : rest.length < cs.length := by
  have ht : ∀ content rest, takeTag none cs = some (content, rest) → rest.length < cs.length :=
    fun _ _ => takeTag_shorter
  have hu : ∀ stop content rest, takeUntil stop [] cs = some (content, rest) →
      rest.length < cs.length := fun _ _ _ => takeUntil_shorter
  unfold Markup.read at h
  split at h
  · cases h
  · cases h
  · exact pieceFound_shorter ht h
  · exact pieceFound_shorter ht h
  all_goals exact pieceFound_shorter (hu _) h

end TemplateInventory.Xml
