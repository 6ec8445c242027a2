import Coauthor.Json.Printer

/-!
# JSON for readers

One entry or item a line, indented by two blanks for each level; an empty object or
array stays on its line.
-/

namespace Coauthor.Json

/-- The start of a line at some depth. -/
def newline (depth : Nat) : List Char := '\n' :: List.replicate (2 * depth) ' '

mutual

def layout (depth : Nat) : Json → List Char
  | array [] => ['[', ']']
  | array (item :: items) =>
      '[' :: (newline (depth + 1) ++ layout (depth + 1) item ++ layoutItems depth items)
  | object [] => ['\x7b', '\x7d']
  | object ((key, value) :: entries) =>
      '\x7b' :: (newline (depth + 1) ++ quote key ++ ':' :: ' ' :: layout (depth + 1) value ++
        layoutEntries depth entries)
  | null => write null
  | bool value => write (bool value)
  | int value => write (int value)
  | fraction spelling => write (fraction spelling)
  | string value => write (string value)

/-- The items behind the first, and the closing bracket. -/
def layoutItems (depth : Nat) : List Json → List Char
  | [] => newline depth ++ [']']
  | item :: items =>
      ',' :: (newline (depth + 1) ++ layout (depth + 1) item ++ layoutItems depth items)

def layoutEntries (depth : Nat) : List (String × Json) → List Char
  | [] => newline depth ++ ['\x7d']
  | (key, value) :: entries =>
      ',' :: (newline (depth + 1) ++ quote key ++ ':' :: ' ' :: layout (depth + 1) value ++
        layoutEntries depth entries)

end

def renderPretty (value : Json) : String := String.ofList (value.layout 0)

end Coauthor.Json
