import Coauthor.Text.Operation
import Coauthor.Text.Error

/-!
# Transformation

Two operations made on the same text are carried over each other, so that either
order of applying them leads to the same text.  Where both insert at one place
the left one's text comes first.
-/

namespace Coauthor.Operation

/-- What `count` characters that both operations consume leave for the left
operation to do after the right one, and for the right one to do after the left. -/
def transformPair (count : Nat) : Component → Component → List Component × List Component
  | .retain _, .retain _ => ([.retain count], [.retain count])
  | .delete _, .retain _ => ([.delete count], [])
  | .retain _, .delete _ => ([], [.delete count])
  | _, _ => ([], [])

def transformComponents : List Component → List Component →
    Except OperationError (List Component × List Component)
  | [], [] => .ok ([], [])
  | .insert text :: left, right => do
      let (left', right') ← transformComponents left right
      return (.insert text :: left', .retain text.length :: right')
  | left, .insert text :: right => do
      let (left', right') ← transformComponents left right
      return (.retain text.length :: left', .insert text :: right')
  | [], _ :: _ => .error (.incompatible .firstTooShort)
  | _ :: _, [] => .error (.incompatible .firstTooLong)
  | a :: left, b :: right => do
      let count := min a.size b.size
      let (left', right') ←
        transformComponents (a.leave count left) (b.leave count right)
      let (forLeft, forRight) := transformPair count a b
      return (forLeft ++ left', forRight ++ right')
termination_by left right => left.length + right.length
decreasing_by
  all_goals first
    | exact Component.leave_both_shorter _ _ _ _
    | (simp only [List.length_cons]; omega)

/-- `left` as it reads after `right`, and `right` as it reads after `left`. -/
def transform (left right : Operation) : Except OperationError (Operation × Operation) := do
  if left.baseLength ≠ right.baseLength then
    throw (.transformLengthMismatch left.baseLength right.baseLength)
  let (left', right') ← transformComponents left.components right.components
  return (ofComponents left', ofComponents right')

end Coauthor.Operation
