/-!
# JSON values

A number is an integer when it is written as one and fits into 64 bits, signed or
unsigned; every other number keeps its spelling and counts as a fraction.  An
object keeps its entries as they were written, repeated keys included.
-/

namespace Coauthor

inductive Json where
  | null
  | bool (value : Bool)
  | int (value : Int)
  | fraction (spelling : String)
  | string (value : String)
  | array (items : List Json)
  | object (entries : List (String × Json))
  deriving BEq, Repr, Inhabited

namespace Json

/-- The integers that a number written without a fraction can denote: from the least
signed to the greatest unsigned one of 64 bits. -/
def minInt : Int := -0x8000000000000000

def maxInt : Int := 0xFFFFFFFFFFFFFFFF

/-- The first entry of an object under a key. -/
def get? (key : String) : Json → Option Json
  | object entries => (entries.find? (·.1 = key)).map (·.2)
  | _ => none

end Json

end Coauthor
