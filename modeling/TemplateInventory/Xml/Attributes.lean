import TemplateInventory.Table
import TemplateInventory.Xml.Escape
import TemplateInventory.Text.Blank
/-!
# Attributes of a tag

The attributes between the name of a tag and its end, read from left to right.
Each has a name up to `=` or white space and a value in quotes; no name occurs
twice. The first fault ends the reading.
-/

namespace TemplateInventory.Xml

open TemplateInventory.Text

/-- Characters that end the name of an attribute. -/
def endsName (c : Char) : Bool := c == '=' || isMarkupBlank c

theorem length_dropWhile_le (p : Char → Bool) (cs : List Char) :
    (cs.dropWhile p).length ≤ cs.length :=
  (List.dropWhile_sublist p).length_le

/-- Reads attributes from the place `pos` of a tag of `total` bytes. `seen` holds
the names read before with their places, `read` the attributes read before. -/
def attributesFrom (total : Nat) (seen : List (List Char × Nat)) (read : Table String String)
    (pos : Nat) (cs : List Char) : Except Fault (Table String String) :=
  match _h₁ : cs.dropWhile isMarkupBlank with
  | [] => .ok read
  | c :: tail =>
    let start := pos + byteLength (cs.takeWhile isMarkupBlank)
    let name := c :: tail.takeWhile (!endsName ·)
    let afterName := tail.dropWhile (!endsName ·)
    let blank := afterName.takeWhile isMarkupBlank
    let equals := start + byteLength name + byteLength blank
    match _h₂ : afterName.dropWhile isMarkupBlank with
    | [] => .error (.noEquals total)
    | c' :: afterEquals =>
      if c' ≠ '=' then .error (.noEquals equals)
      else
        match findEntry name seen with
        | some first => .error (.duplicate start first)
        | none =>
          let gap := afterEquals.takeWhile isMarkupBlank
          match _h₃ : afterEquals.dropWhile isMarkupBlank with
          | [] => .error (.noValue total)
          | quote :: body =>
            if quote ≠ '\x22' ∧ quote ≠ '\x27' then
              .error (.noQuote (equals + 1 + byteLength gap))
            else
              let written := body.takeWhile (· != quote)
              match _h₄ : body.dropWhile (· != quote) with
              | [] => .error (.openQuote total quote)
              | _ :: next =>
                match unescape written with
                | .error e => .error e
                | .ok value =>
                  attributesFrom total ((name, start) :: seen)
                    (read.put (String.ofList name) (String.ofList value))
                    (equals + 1 + byteLength gap + 1 + byteLength written + 1) next
termination_by cs.length
decreasing_by
  have l₁ := length_dropWhile_le isMarkupBlank cs
  have l₂ := length_dropWhile_le isMarkupBlank (tail.dropWhile (!endsName ·))
  have l₂' := length_dropWhile_le (!endsName ·) tail
  have l₃ := length_dropWhile_le isMarkupBlank afterEquals
  have l₄ := length_dropWhile_le (· != quote) body
  simp only [_h₁, _h₃, _h₄, List.length_cons] at l₁ l₂ l₃ l₄
  simp only [afterName, _h₂, List.length_cons] at *
  omega

/-- The name that a tag starts with. -/
def tagName (content : List Char) : List Char := content.takeWhile (!isMarkupBlank ·)

/-- The attributes of a tag, after its name. -/
def tagAttributes (content : List Char) : Except Fault (Table String String) :=
  let name := tagName content
  attributesFrom (byteLength content) [] .empty (byteLength name) (content.drop name.length)

end TemplateInventory.Xml
