import Coauthor.Text.Wire

/-!
# Events of a watched document
-/

namespace Coauthor

inductive DocumentEvent where
  /-- The receiver's own operation `seq` was applied as `revision`. -/
  | ack (seq revision : Nat)
  /-- An operation of another client was applied. -/
  | operation (applied : AppliedOperation)
  /-- The document was closed by the server. -/
  | closed
  deriving DecidableEq, Repr, Inhabited

namespace DocumentEvent

def toJson : DocumentEvent → Json
  | ack seq revision =>
      .object [("type", .string "ack"), ("seq", .nat seq), ("revision", .nat revision)]
  | operation applied => .object (("type", .string "operation") :: applied.entries)
  | closed => .object [("type", .string "closed")]

/-- Reads what follows the type; the fields of a bare type are passed over. -/
def ofType? (type : String) (rest : Json) : Option DocumentEvent :=
  match type with
  | "ack" => do
      let fields ← rest.fields? ["seq", "revision"]
      return ack (← Json.required fields "seq" Json.nat64?)
        (← Json.required fields "revision" Json.nat64?)
  | "operation" => (AppliedOperation.ofJson? rest).map operation
  | "closed" => rest.bare?.map fun _ => closed
  | _ => none

def ofJson? (value : Json) : Option DocumentEvent := do
  let (type, rest) ← value.tagged? "type"
  ofType? type rest

end DocumentEvent

end Coauthor
