import Coauthor.Json.Record
import Coauthor.Text.Error
import Coauthor.Text.Message

/-!
# Operations on the wire

An operation is an array: a positive number retains, a negative one deletes and a
string inserts.  Reading checks the type of every element first and then, from
left to right, that no element is zero and that the lengths stay below 2^64.
Writing takes every count modulo 2^64 into the signed range.
-/

namespace Coauthor

/-- The lengths of a written operation stay below two to the power of 64. -/
def Operation.lengthLimit : Nat := 0x10000000000000000

/-- An element of a written operation. -/
inductive WireComponent where
  | count (value : Int)
  | text (chars : Text)
  deriving DecidableEq, Repr, Inhabited

/-- Why an array does not spell an operation. -/
inductive OperationReadError where
  /-- The value has the wrong shape. -/
  | shape
  | emptyComponent
  | overflow (overflow : Overflow)
  deriving DecidableEq, Repr, Inhabited

namespace WireComponent

def ofJson? (value : Json) : Option WireComponent :=
  match value with
  | .string chars => some (.text chars.toList)
  | _ => value.int64?.map .count

def component : WireComponent → Component
  | count value => if value < 0 then .delete value.natAbs else .retain value.natAbs
  | text chars => .insert chars

/-- The complaint about an element, given the lengths of those before it. -/
def check (baseLength targetLength : Nat) : WireComponent → Except OperationReadError Unit
  | count value =>
      if value = 0 then .error .emptyComponent
      else if baseLength + value.natAbs < Operation.lengthLimit ∧
          (value < 0 ∨ targetLength + value.natAbs < Operation.lengthLimit) then .ok ()
      else .error (.overflow (.count value))
  | text chars =>
      if targetLength + chars.length < Operation.lengthLimit then .ok ()
      else .error (.overflow .insertion)

/-- Checks a list of elements from left to right. -/
def checkAll : Nat → Nat → List WireComponent → Except OperationReadError Unit
  | _, _, [] => .ok ()
  | baseLength, targetLength, element :: rest => do
      element.check baseLength targetLength
      checkAll (baseLength + element.component.baseLength)
        (targetLength + element.component.targetLength) rest

end WireComponent

namespace OperationReadError

/-- The wording of a complaint, if it has one. -/
def message? : OperationReadError → Option String
  | shape => none
  | emptyComponent => some "zero-length component in text operation"
  | overflow cause => some (OperationError.invalid cause).message

end OperationReadError

/-- A count as a signed 64-bit number. -/
def wrapInt64 (value : Int) : Int := Int.bmod value 0x10000000000000000

namespace Component

def toJson : Component → Json
  | retain count => .int (wrapInt64 count)
  | insert text => .string (String.ofList text)
  | delete count => .int (wrapInt64 (-(count : Int)))

end Component

namespace Operation

def toJson (operation : Operation) : Json := .array (operation.components.map Component.toJson)

def elements? : Json → Option (List WireComponent) := Json.list? WireComponent.ofJson?

def read (value : Json) : Except OperationReadError Operation :=
  match elements? value with
  | none => .error .shape
  | some elements => do
      WireComponent.checkAll 0 0 elements
      return ofComponents (elements.map WireComponent.component)

def ofJson? (value : Json) : Option Operation := (read value).toOption

end Operation

namespace OperationMessage

def fieldNames : List String := ["clientId", "seq", "revision", "operation"]

def entries (message : OperationMessage) : List (String × Json) :=
  [("clientId", .string message.clientId), ("seq", .nat message.seq),
    ("revision", .nat message.revision), ("operation", message.operation.toJson)]

def toJson (message : OperationMessage) : Json := .object message.entries

def ofJson? (value : Json) : Option OperationMessage := do
  let fields ← value.fields? fieldNames
  return {
    clientId := ← Json.required fields "clientId" Json.string?
    seq := ← Json.required fields "seq" Json.nat64?
    revision := ← Json.required fields "revision" Json.nat64?
    operation := ← Json.required fields "operation" Operation.ofJson? }

end OperationMessage

namespace AppliedOperation

def fieldNames : List String := ["revision", "clientId", "seq", "operation"]

def entries (applied : AppliedOperation) : List (String × Json) :=
  [("revision", .nat applied.revision), ("clientId", .string applied.clientId),
    ("seq", .nat applied.seq), ("operation", applied.operation.toJson)]

def toJson (applied : AppliedOperation) : Json := .object applied.entries

def ofFields? (fields : List (String × Json)) : Option AppliedOperation := do
  return {
    revision := ← Json.required fields "revision" Json.nat64?
    clientId := ← Json.required fields "clientId" Json.string?
    seq := ← Json.required fields "seq" Json.nat64?
    operation := ← Json.required fields "operation" Operation.ofJson? }

def ofJson? (value : Json) : Option AppliedOperation :=
  value.fields? fieldNames >>= ofFields?

end AppliedOperation

end Coauthor
