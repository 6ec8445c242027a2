import Coauthor.Text.Operation
import Coauthor.Text.Error

/-!
# Composition

Two operations, the second applying to what the first produces, become one.  The
walk pairs what the first produces with what the second consumes: deletions of
the first and insertions of the second have no partner and pass through, every
other pair of leading components is handled as far as the shorter one reaches.
-/

namespace Coauthor.Operation

/-- What `count` characters of a component of the first operation become under a
component of the second. -/
def composePair (count : Nat) : Component → Component → List Component
  | .retain _, .retain _ => [.retain count]
  | .retain _, .delete _ => [.delete count]
  | .insert text, .retain _ => [.insert (text.take count)]
  | _, _ => []

def composeComponents : List Component → List Component → Except OperationError (List Component)
  | [], [] => .ok []
  | .delete count :: first, second => do
      return .delete count :: (← composeComponents first second)
  | first, .insert text :: second => do
      return .insert text :: (← composeComponents first second)
  | [], _ :: _ => .error (.incompatible .firstTooShort)
  | _ :: _, [] => .error (.incompatible .firstTooLong)
  | left :: first, right :: second => do
      let count := min left.size right.size
      return composePair count left right ++
        (← composeComponents (left.leave count first) (right.leave count second))
termination_by first second => first.length + second.length
decreasing_by
  all_goals first
    | exact Component.leave_both_shorter _ _ _ _
    | (simp only [List.length_cons]; omega)

/-- The effect of `first` followed by `second`, as one operation. -/
def compose (first second : Operation) : Except OperationError Operation := do
  if first.targetLength ≠ second.baseLength then
    throw (.composeLengthMismatch first.targetLength second.baseLength)
  return ofComponents (← composeComponents first.components second.components)

end Coauthor.Operation
