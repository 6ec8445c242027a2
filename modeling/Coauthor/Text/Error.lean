/-!
# Refused text operations

The causes for which an operation, an acknowledgement or a request for history
is refused, and the wording of each.  Lengths count characters.
-/

namespace Coauthor

/-- Why two component lists could not be walked side by side to their common end. -/
inductive Misfit where
  | firstTooShort
  | firstTooLong
  deriving DecidableEq, Repr, Inhabited

/-- Why a component could not be added to an operation under construction. -/
inductive Overflow where
  /-- A retained or deleted count, with its sign, exceeds what the lengths can hold. -/
  | count (value : Int)
  /-- An inserted text exceeds what the target length can hold. -/
  | insertion
  deriving DecidableEq, Repr, Inhabited

inductive OperationError where
  | baseLengthMismatch (expected actual : Nat)
  | composeLengthMismatch (firstTarget secondBase : Nat)
  | transformLengthMismatch (left right : Nat)
  | incompatible (misfit : Misfit)
  | unexpectedAck
  | revisionAhead (requested current : Nat)
  | invalid (overflow : Overflow)
  deriving DecidableEq, Repr, Inhabited

namespace Misfit

def message : Misfit → String
  | firstTooShort => "first operation is too short"
  | firstTooLong => "first operation is too long"

end Misfit

namespace Overflow

def message : Overflow → String
  | count value => s!"component length {value} overflows the operation length"
  | insertion => "insert overflows the target length"

end Overflow

namespace OperationError

def message : OperationError → String
  | baseLengthMismatch expected actual =>
      s!"Operation expects a document of length {expected}, got {actual}"
  | composeLengthMismatch firstTarget secondBase =>
      s!"Cannot compose: first operation yields length {firstTarget}, second expects {secondBase}"
  | transformLengthMismatch left right =>
      s!"Cannot transform operations with base lengths {left} and {right}"
  | incompatible misfit => "Incompatible operations: " ++ misfit.message
  | unexpectedAck => "Received an acknowledgement with no operation outstanding"
  | revisionAhead requested current =>
      s!"Revision {requested} is ahead of the current revision {current}"
  | invalid overflow => "Invalid operation: " ++ overflow.message

end OperationError

end Coauthor
