import Coauthor.Json.Value

/-!
# Writing JSON

The compact form: no blanks, entries in the order of the object.  A string escapes
the quote, the backslash and the control characters below U+0020, the common ones
by a letter and the others by four lower-case hexadecimal digits.
-/

namespace Coauthor.Json

def hexDigit (digit : Nat) : Char :=
  if digit < 10 then Char.ofNat ('0'.toNat + digit) else Char.ofNat ('a'.toNat + (digit - 10))

def escapeChar (c : Char) : List Char :=
  if c = '"' then ['\\', '"']
  else if c = '\\' then ['\\', '\\']
  else if c = '\x08' then ['\\', 'b']
  else if c = '\t' then ['\\', 't']
  else if c = '\n' then ['\\', 'n']
  else if c = '\x0c' then ['\\', 'f']
  else if c = '\r' then ['\\', 'r']
  else if c.toNat < 0x20 then
    ['\\', 'u', '0', '0', hexDigit (c.toNat / 16), hexDigit (c.toNat % 16)]
  else [c]

def escape (chars : List Char) : List Char := chars.flatMap escapeChar

def quote (value : String) : List Char := '"' :: (escape value.toList ++ ['"'])

/-- A signed number in decimal digits. -/
def writeInt (value : Int) : List Char :=
  match value with
  | .ofNat magnitude => Nat.toDigits 10 magnitude
  | .negSucc predecessor => '-' :: Nat.toDigits 10 (predecessor + 1)

mutual

def write : Json → List Char
  | null => "null".toList
  | bool true => "true".toList
  | bool false => "false".toList
  | int value => writeInt value
  | fraction spelling => spelling.toList
  | string value => quote value
  | array [] => ['[', ']']
  | array (item :: items) => '[' :: (write item ++ writeItems items)
  | object [] => ['\x7b', '\x7d']
  | object ((key, value) :: entries) =>
      '\x7b' :: (quote key ++ ':' :: (write value ++ writeEntries entries))

/-- The items behind the first, and the closing bracket. -/
def writeItems : List Json → List Char
  | [] => [']']
  | item :: items => ',' :: (write item ++ writeItems items)

def writeEntries : List (String × Json) → List Char
  | [] => ['\x7d']
  | (key, value) :: entries =>
      ',' :: (quote key ++ ':' :: (write value ++ writeEntries entries))

end

def render (value : Json) : String := String.ofList value.write

end Coauthor.Json
