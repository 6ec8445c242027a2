import Coauthor.Identifier
import Coauthor.Text.Operation

/-!
# Messages about operations

A client submits an operation together with the revision it was made on and a
sequence number of its own; the server announces an operation under the revision
it reached.
-/

namespace Coauthor

/-- An operation on its way to the server. -/
structure OperationMessage where
  clientId : ClientId
  seq : Nat
  revision : Nat
  operation : Operation
  deriving DecidableEq, Repr, Inhabited

/-- An entry of a document's history. -/
structure AppliedOperation where
  revision : Nat
  clientId : ClientId
  seq : Nat
  operation : Operation
  deriving DecidableEq, Repr, Inhabited

end Coauthor
