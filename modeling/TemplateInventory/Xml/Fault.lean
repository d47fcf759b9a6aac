/-!
# Faults of markup

Every way in which a text fails to be a document, with the place where the
message points. Places in a document count bytes from its start and are those of
a `<`, except for a missing document type name; places inside a tag count from
the byte after its `<`; places of an entity count inside its value.
-/

namespace TemplateInventory.Xml

/-- Why a character reference names no character. -/
inductive ReferenceFault where
  | sign
  | empty
  | digit
  | tooLarge
  | notCharacter (code : Nat)
  | nul
  deriving DecidableEq, Repr

/-- The text of a faulty character reference. -/
def ReferenceFault.message : ReferenceFault → String
  | .sign => "unexpected number sign"
  | .empty => "cannot parse integer from empty string"
  | .digit => "invalid digit found in string"
  | .tooLarge => "number too large to fit in target type"
  | .notCharacter code => s!"`{code}` is not a valid codepoint"
  | .nul => "0x0 character is not permitted in XML"

/-- Why a text is not a document. -/
inductive Fault where
  /-- A tag without its `>`. -/
  | openTag (pos : Nat)
  /-- A `<!` that starts nothing known. -/
  | unknownMarkup (pos : Nat)
  | openComment (pos : Nat)
  | openData (pos : Nat)
  | openDoctype (pos : Nat)
  | openInstruction (pos : Nat)
  /-- An end tag that differs from the start tag it should match. -/
  | otherEnd (pos : Nat) (expected found : String)
  /-- An end tag with no element open. -/
  | strayEnd (pos : Nat) (found : String)
  | doctypeName (pos : Nat)
  /-- An attribute without `=`. -/
  | noEquals (pos : Nat)
  /-- An attribute without a value. -/
  | noValue (pos : Nat)
  /-- A value without quotes. -/
  | noQuote (pos : Nat)
  /-- A value without its second quote. -/
  | openQuote (pos : Nat) (quote : Char)
  | duplicate (pos first : Nat)
  | unknownEntity (first last : Nat) (name : String)
  /-- An `&` without its `;`. -/
  | openEntity (first last : Nat)
  | badReference (cause : ReferenceFault)
  | openElement (name : String)
  | noRoot
  | secondRoot (name : String)
  /-- A fault reported by a collaborator in its own words. -/
  | reported (text : String)
  deriving DecidableEq, Repr

/-- The text of a fault. -/
def Fault.message : Fault → String
  | .openTag pos =>
    s!"at position {pos}: syntax error: tag not closed: `>` not found before end of input"
  | .unknownMarkup pos =>
    s!"at position {pos}: syntax error: unknown or missed symbol in markup"
  | .openComment pos =>
    s!"at position {pos}: syntax error: comment not closed: `-->` not found before end of input"
  | .openData pos =>
    s!"at position {pos}: syntax error: CDATA not closed: `]]>` not found before end of input"
  | .openDoctype pos =>
    s!"at position {pos}: syntax error: DOCTYPE not closed: `>` not found before end of input"
  | .openInstruction pos =>
    s!"at position {pos}: syntax error: processing instruction or xml declaration not closed: " ++
      "`?>` not found before end of input"
  | .otherEnd pos expected found =>
    s!"at position {pos}: ill-formed document: expected `</{expected}>`, " ++
      s!"but `</{found}>` was found"
  | .strayEnd pos found =>
    s!"at position {pos}: ill-formed document: close tag `</{found}>` " ++
      "does not match any open tag"
  | .doctypeName pos =>
    s!"at position {pos}: ill-formed document: `<!DOCTYPE>` declaration " ++
      "does not contain a name of a document type"
  | .noEquals pos =>
    s!"position {pos}: attribute key must be directly followed by `=` or space"
  | .noValue pos => s!"position {pos}: `=` must be followed by an attribute value"
  | .noQuote pos => s!"position {pos}: attribute value must be enclosed in `\"` or `'`"
  | .openQuote pos quote =>
    s!"position {pos}: missing closing quote `{quote}` in attribute value"
  | .duplicate pos first =>
    s!"position {pos}: duplicated attribute, previous declaration at position {first}"
  | .unknownEntity first last name => s!"at {first}..{last}: unrecognized entity `{name}`"
  | .openEntity first last =>
    s!"Error while escaping character at range {first}..{last}: Cannot find ';' after '&'"
  | .badReference cause => s!"invalid character reference: {cause.message}"
  | .openElement name => s!"unclosed element <{name}>"
  | .noRoot => "document has no root element"
  | .secondRoot name => s!"multiple root elements (second is <{name}>)"
  | .reported text => text

end TemplateInventory.Xml
