/-!
# Lines

A text as the list of its lines. A line ends with a line feed, or with a carriage
return and a line feed; the last line need not end.
-/

namespace TemplateInventory.Text

/-- A line that a line feed ended, without the carriage return before it. -/
def endLine (line : List Char) : List Char :=
  match line.reverse with
  | '\r' :: cs => cs.reverse
  | _ => line

/-- The lines of a text whose first line starts with `begun`, given last character
first. -/
def linesFrom (begun : List Char) : List Char → List (List Char)
  | [] => if begun.isEmpty then [] else [begun.reverse]
  | c :: cs => if c = '\n' then endLine begun.reverse :: linesFrom [] cs else linesFrom (c :: begun) cs

/-- The lines of a text. -/
def lines (s : String) : List String := (linesFrom [] s.toList).map String.ofList

end TemplateInventory.Text
