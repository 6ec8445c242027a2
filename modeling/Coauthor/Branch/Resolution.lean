import Coauthor.Identifier
import Coauthor.Json.Record

/-!
# Fork resolutions

What becomes of the queued commits once the server has gone another way.
-/

namespace Coauthor

inductive ForkResolution where
  /-- Drop them and follow the server. -/
  | abandon
  /-- Keep them on a new branch. -/
  | fork (branchName : BranchName)
  /-- Move the branch of the server to the local head. -/
  | forcePush
  deriving DecidableEq, Repr, Inhabited

namespace ForkResolution

def toJson : ForkResolution → Json
  | abandon => .object [("kind", .string "abandon")]
  | fork branchName => .object [("kind", .string "fork"), ("branchName", .string branchName)]
  | forcePush => .object [("kind", .string "forcePush")]

/-- Reads what follows the kind; the fields of a bare kind are passed over. -/
def ofKind? (kind : String) (rest : Json) : Option ForkResolution :=
  match kind with
  | "abandon" => rest.bare?.map fun _ => abandon
  | "fork" => do
      let fields ← rest.fields? ["branchName"]
      return fork (← Json.required fields "branchName" Json.string?)
  | "forcePush" => rest.bare?.map fun _ => forcePush
  | _ => none

def ofJson? (value : Json) : Option ForkResolution := do
  let (kind, rest) ← value.tagged? "kind"
  ofKind? kind rest

end ForkResolution

end Coauthor
