import TemplateInventory.Query.Basic
/-!
# Written queries

A query is written as its steps with slashes between them. A step is a name or
`*`, followed by its conditions in square brackets. A value stands in single
quotes, in which a single quote is written twice; a value with single and
without double quotes stands in double quotes instead.
-/

namespace TemplateInventory

/-- A value between quotes, with every such quote in it written twice. -/
def quoteValue (quote : Char) (value : List Char) : List Char :=
  quote :: value.flatMap (fun c => if c = quote then [c, c] else [c]) ++ [quote]

/-- The quote that a value is written with. -/
def valueQuote (value : List Char) : Char :=
  if value.contains '\x27' && !value.contains '\x22' then '\x22' else '\x27'

/-- The written form of a condition. -/
def Predicate.print : Predicate → List Char
  | .equals attr value =>
    '@' :: attr.toList ++ '=' :: quoteValue (valueQuote value.toList) value.toList
  | .absent attr => "not(@".toList ++ attr.toList ++ [')']
  | .present attr => '@' :: attr.toList

@[simp] theorem Predicate.print_equals (attr value : String) :
    (equals attr value).print =
      '@' :: attr.toList ++ '=' :: quoteValue (valueQuote value.toList) value.toList := rfl

@[simp] theorem Predicate.print_absent (attr : String) :
    (absent attr).print = "not(@".toList ++ attr.toList ++ [')'] := rfl

@[simp] theorem Predicate.print_present (attr : String) :
    (present attr).print = '@' :: attr.toList := rfl

/-- The written form of the conditions after the first. -/
def printMore : List Predicate → List Char
  | [] => []
  | p :: ps => " and ".toList ++ p.print ++ printMore ps

theorem printMore_cons (p : Predicate) (ps : List Predicate) :
    printMore (p :: ps) = " and ".toList ++ p.print ++ printMore ps := rfl

/-- The written form of conditions: nothing for none. -/
def printPredicates : List Predicate → List Char
  | [] => []
  | p :: ps => '[' :: p.print ++ printMore ps ++ [']']

/-- The written form of a step. -/
def Step.print (s : Step) : List Char :=
  (s.name.getD "*").toList ++ printPredicates s.predicates

/-- The written form of the steps after the first. -/
def printSteps : List Step → List Char
  | [] => []
  | s :: ss => '/' :: s.print ++ printSteps ss

/-- The written form of a query. -/
def Query.print (q : Query) : List Char := q.first.print ++ printSteps q.rest

/-- The text of a step. -/
def Step.text (s : Step) : String := String.ofList s.print

/-- The text of a query. -/
def Query.text (q : Query) : String := String.ofList q.print

end TemplateInventory
