import Coauthor.Text.Operation
import Coauthor.Text.Error

/-!
# Applying and inverting

An operation applies to the texts of its base length and to no others.  Its
inverse on a text undoes it there: what was inserted is deleted, what was deleted
is inserted again.
-/

namespace Coauthor.Operation

/-- The text that the components make of `text`. -/
def applyComponents : List Component → Text → Text
  | [], _ => []
  | .retain count :: rest, text => text.take count ++ applyComponents rest (text.drop count)
  | .insert added :: rest, text => added ++ applyComponents rest text
  | .delete count :: rest, text => applyComponents rest (text.drop count)

/-- The components that undo the given ones on `text`. -/
def invertComponents : List Component → Text → List Component
  | [], _ => []
  | .retain count :: rest, text => .retain count :: invertComponents rest (text.drop count)
  | .insert added :: rest, text => .delete added.length :: invertComponents rest text
  | .delete count :: rest, text =>
      .insert (text.take count) :: invertComponents rest (text.drop count)

def checkBase (operation : Operation) (text : Text) : Except OperationError Unit :=
  if text.length = operation.baseLength then .ok ()
  else .error (.baseLengthMismatch operation.baseLength text.length)

/-- The edited text. -/
def apply (operation : Operation) (text : Text) : Except OperationError Text := do
  operation.checkBase text
  return applyComponents operation.components text

/-- The operation that takes the edited text back to `text`. -/
def invert (operation : Operation) (text : Text) : Except OperationError Operation := do
  operation.checkBase text
  return ofComponents (invertComponents operation.components text)

end Coauthor.Operation
