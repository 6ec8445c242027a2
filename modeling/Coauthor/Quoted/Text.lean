import Coauthor.Quoted.Glyphless

/-!
# Quoted text in messages

A message that cites a text puts it between quotes.  The quote, the backslash, tab,
line feed, carriage return and NUL are escaped by a letter, characters without a
glyph of their own by their code point in braces; all else stands for itself.
-/

namespace Coauthor.Quoted

def hexDigits (value : Nat) : List Char := Nat.toDigits 16 value

def escapeChar (c : Char) : List Char :=
  if c = '"' then ['\\', '"']
  else if c = '\\' then ['\\', '\\']
  else if c = '\n' then ['\\', 'n']
  else if c = '\r' then ['\\', 'r']
  else if c = '\t' then ['\\', 't']
  else if c = '\x00' then ['\\', '0']
  else if 0x20 ≤ c.toNat ∧ c.toNat < 0x7F then [c]
  else if isGlyphless c then '\\' :: 'u' :: '\x7b' :: (hexDigits c.toNat ++ ['\x7d'])
  else [c]

/-- The text between quotes. -/
def quote (text : String) : String :=
  String.ofList ('"' :: (text.toList.flatMap escapeChar ++ ['"']))

end Coauthor.Quoted
