import FormTree.Validation.Pattern.Extended

/-!
Regular expressions in schemas: which texts have the syntax of one, and which
of those can be matched.
-/

namespace FormTree.Pattern

def isExpression (text : String) : Bool := (expression? text).isSome

/-- Whether a text is an expression that can be matched. -/
def isUsable (text : String) : Bool := (expression? text).any isMatchable

end FormTree.Pattern
