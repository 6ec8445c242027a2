import Coauthor.Json.Value

/-!
# Reading records

Rules shared by every record that crosses the wire.  A record is an object, or the
list of its fields in their order.  Fields of other names are passed over; a field
without default must be present; an optional field may be absent or null.  Numbers
are integers in the range of their type.
-/

namespace Coauthor.Json

variable {Value : Type}

def string? : Json → Option String
  | string value => some value
  | _ => none

/-- A signed 64-bit integer. -/
def int64? : Json → Option Int
  | int value =>
      if -0x8000000000000000 ≤ value ∧ value < 0x8000000000000000 then some value else none
  | _ => none

/-- An unsigned 64-bit integer. -/
def nat64? : Json → Option Nat
  | int value => if 0 ≤ value ∧ value < 0x10000000000000000 then some value.toNat else none
  | _ => none

def list? (read : Json → Option Value) : Json → Option (List Value)
  | array items => items.mapM read
  | _ => none

def strings? : Json → Option (List String) := list? string?

/-- The word of an enumeration: a string, or the only key of an object that maps it
to null. -/
def word? : Json → Option String
  | string value => some value
  | object [(key, null)] => some key
  | _ => none

/-- The fields of a record with the given field names. -/
def fields? (names : List String) : Json → Option (List (String × Json))
  | object entries => some entries
  | array items => if items.length ≤ names.length then some (names.zip items) else none
  | _ => none

def field? (fields : List (String × Json)) (name : String) : Option Json :=
  (fields.find? (·.1 = name)).map (·.2)

/-- A field that must be present. -/
def required (fields : List (String × Json)) (name : String) (read : Json → Option Value) :
    Option Value :=
  field? fields name >>= read

/-- A field that stands for `default` when it is absent. -/
def defaulted (fields : List (String × Json)) (name : String) (default : Value)
    (read : Json → Option Value) : Option Value :=
  match field? fields name with
  | none => some default
  | some value => read value

/-- A field that may be absent, or null to the same effect. -/
def optional (fields : List (String × Json)) (name : String) (read : Json → Option Value) :
    Option (Option Value) :=
  match field? fields name with
  | none => some none
  | some null => some none
  | some value => (read value).map some

/-- The entry of an optional field, left out when there is no value. -/
def optionalEntry (name : String) (value : Option String) : List (String × Json) :=
  match value with
  | none => []
  | some value => [(name, string value)]

/-- A record that says what it is in the field `tag`, split into that word and the
rest.  In a list the word comes first. -/
def tagged? (tag : String) : Json → Option (String × Json)
  | object entries => do
      return (← required entries tag string?, object (entries.filter (·.1 ≠ tag)))
  | array (string word :: rest) => some (word, array rest)
  | _ => none

/-- A record without fields of its own. -/
def bare? : Json → Option Unit
  | object _ => some ()
  | array [] => some ()
  | _ => none

def nat (value : Nat) : Json := int value

def ofOption (write : Value → Json) : Option Value → Json
  | none => null
  | some value => write value

def strings (values : List String) : Json := array (values.map string)

end Coauthor.Json
