import Coauthor.Json.Token

/-!
# Reading JSON

A value is put together from its tokens with a stack of the arrays and objects
that are still open.

A text is read as for a record of a few fields, whose reader passes over every other
field: what is passed over may nest to any depth, and may hold numbers of any size and
strings that are not whole.  The names of the outermost fields are not passed over.
-/

namespace Coauthor.Json

/-- An array or object whose end has not been read, with its contents latest first. -/
inductive Frame where
  | array (items : List Json)
  | object (entries : List (String × Json))
  | entry (entries : List (String × Json)) (key : String)
  deriving Repr, Inhabited

/-- What may come next. -/
inductive Expected where
  | value
  | valueOrClose
  | key
  | keyOrClose
  | colon
  | commaOrClose
  | nothing (result : Json)
  deriving Repr, Inhabited

structure Assembly where
  stack : List Frame
  expected : Expected
  deriving Repr, Inhabited

namespace Assembly

/-- Puts a complete value where it belongs. -/
def place (stack : List Frame) (value : Json) : Option Assembly :=
  match stack with
  | [] => some ⟨[], .nothing value⟩
  | .array items :: rest => some ⟨.array (value :: items) :: rest, .commaOrClose⟩
  | .entry entries key :: rest => some ⟨.object ((key, value) :: entries) :: rest, .commaOrClose⟩
  | .object _ :: _ => none

def closeArray : List Frame → Option Assembly
  | .array items :: rest => place rest (.array items.reverse)
  | _ => none

def closeObject : List Frame → Option Assembly
  | .object entries :: rest => place rest (.object entries.reverse)
  | _ => none

def startValue (stack : List Frame) : Token → Option Assembly
  | .openArray => some ⟨.array [] :: stack, .valueOrClose⟩
  | .openObject => some ⟨.object [] :: stack, .keyOrClose⟩
  | .value value => place stack value
  | .string value _ => place stack (.string value)
  | _ => none

/-- Starts an entry with its key, which has to be whole in the outermost object. -/
def startEntry (stack : List Frame) (token : Token) : Option Assembly :=
  match stack, token with
  | .object entries :: rest, .string key whole =>
      if whole || !rest.isEmpty then some ⟨.entry entries key :: rest, .colon⟩ else none
  | _, _ => none

def step (assembly : Assembly) (token : Token) : Option Assembly :=
  match assembly.expected, token with
  | .value, token => startValue assembly.stack token
  | .valueOrClose, .closeArray => closeArray assembly.stack
  | .valueOrClose, token => startValue assembly.stack token
  | .key, token => startEntry assembly.stack token
  | .keyOrClose, .closeObject => closeObject assembly.stack
  | .keyOrClose, token => startEntry assembly.stack token
  | .colon, .colon => some { assembly with expected := .value }
  | .commaOrClose, .closeArray => closeArray assembly.stack
  | .commaOrClose, .closeObject => closeObject assembly.stack
  | .commaOrClose, .comma =>
      match assembly.stack with
      | .array _ :: _ => some { assembly with expected := .value }
      | .object _ :: _ => some { assembly with expected := .key }
      | _ => none
  | _, _ => none

end Assembly

def ofTokens? (tokens : List Token) : Option Json := do
  match (← tokens.foldlM Assembly.step ⟨[], .value⟩).expected with
  | .nothing result => return result
  | _ => none

/-- The value written in a text, if the text is one JSON value whose outermost keys are whole. -/
def parse? (text : String) : Option Json :=
  Token.ofText? text.toList >>= ofTokens?

end Coauthor.Json
