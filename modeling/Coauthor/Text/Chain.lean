import Coauthor.Text.Apply
import Coauthor.Text.Compose

/-!
# Chains of operations

Operations that are applied one after the other to a text, and their composition.
-/

namespace Coauthor

structure Chain where
  /-- The text before the first operation. -/
  origin : Text
  current : Text
  /-- What leads from the first text to the current one. -/
  composed : Operation
  deriving DecidableEq, Repr, Inhabited

/-- The operation makes one text of the other. -/
def Operation.yields (operation : Operation) (before after : Text) : Bool :=
  match operation.apply before with
  | .ok result => result = after
  | .error _ => false

namespace Chain

def start (text : Text) : Chain :=
  { origin := text, current := text, composed := .keep text.length }

/-- Appends an operation, and tells what undoes it.  One that fails changes nothing. -/
def append (chain : Chain) (operation : Operation) : Except OperationError (Chain × Operation) := do
  let current ← operation.apply chain.current
  let inverse ← operation.invert chain.current
  let composed ← chain.composed.compose operation
  return ({ chain with current, composed }, inverse)

end Chain

end Coauthor
