import TemplateInventory.Text.Ranges
/-!
# Blank characters

The white space of every script, and the trimming of texts. `isMarkupBlank` is
the narrower notion of markup, where only four characters are blank.
-/

namespace TemplateInventory.Text

/-- The code points that are white space. -/
def blankRanges : List (Nat × Nat) :=
  [(0x09, 0x0d), (0x20, 0x20), (0x85, 0x85), (0xa0, 0xa0), (0x1680, 0x1680), (0x2000, 0x200a),
   (0x2028, 0x2029), (0x202f, 0x202f), (0x205f, 0x205f), (0x3000, 0x3000)]

/-- White space of every script. -/
def isBlank (c : Char) : Bool := inRanges blankRanges c.toNat

/-- White space between pieces of markup: space, tab, line feed, carriage return. -/
def isMarkupBlank (c : Char) : Bool := c == ' ' || c == '\t' || c == '\n' || c == '\r'

/-- The characters without those at the end that satisfy `p`. -/
def dropEndWhile (p : Char → Bool) (cs : List Char) : List Char :=
  (cs.reverse.dropWhile p).reverse

/-- The characters without those at either end that satisfy `p`. -/
def trimWhere (p : Char → Bool) (cs : List Char) : List Char :=
  dropEndWhile p (cs.dropWhile p)

/-- The text without white space at its ends. -/
def trim (s : String) : String := String.ofList (trimWhere isBlank s.toList)

/-- The text without white space at its end. -/
def trimEnd (s : String) : String := String.ofList (dropEndWhile isBlank s.toList)

/-- Every blank of markup is white space. -/
theorem isBlank_of_isMarkupBlank {c : Char} (h : isMarkupBlank c = true) : isBlank c = true := by
  simp only [isMarkupBlank, Bool.or_eq_true, beq_iff_eq] at h
  rcases h with ((rfl | rfl) | rfl) | rfl <;> decide

end TemplateInventory.Text
