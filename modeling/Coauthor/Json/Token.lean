import Coauthor.Json.Value

/-!
# JSON tokens

The lexical rules of JSON as a machine that reads one character at a time: blanks
are space, tab, line feed and carriage return; a string holds no raw control
character; a number has no leading zero and no bare point or exponent.  An escaped
surrogate without its partner is half a character: the replacement character takes its
place, and the string is not whole.
-/

namespace Coauthor.Json

inductive Token where
  | openArray
  | closeArray
  | openObject
  | closeObject
  | comma
  | colon
  | value (value : Json)
  /-- A string, and whether it is made of whole characters only. -/
  | string (value : String) (whole : Bool)
  deriving Repr, Inhabited

namespace Token

def isBlank (c : Char) : Bool := c = ' ' || c = '\t' || c = '\n' || c = '\r'

def hexDigit? (c : Char) : Option Nat :=
  if '0' ≤ c ∧ c ≤ '9' then some (c.toNat - '0'.toNat)
  else if 'a' ≤ c ∧ c ≤ 'f' then some (c.toNat - 'a'.toNat + 10)
  else if 'A' ≤ c ∧ c ≤ 'F' then some (c.toNat - 'A'.toNat + 10)
  else none

def isHighSurrogate (unit : Nat) : Bool := 0xD800 ≤ unit && unit < 0xDC00

def isLowSurrogate (unit : Nat) : Bool := 0xDC00 ≤ unit && unit < 0xE000

def replacement : Char := Char.ofNat 0xFFFD

/-- The character of a code unit on its own, if it is not half of one. -/
def ofUnit? (unit : Nat) : Option Char :=
  if isHighSurrogate unit || isLowSurrogate unit then none else some (Char.ofNat unit)

def ofSurrogates (high low : Nat) : Char :=
  Char.ofNat (0x10000 + (high - 0xD800) * 0x400 + (low - 0xDC00))

/-- The string of the letters that were read, where `none` is half a character. -/
def ofLetters (letters : List (Option Char)) : Token :=
  .string (String.ofList (letters.map (·.getD replacement))) (letters.all Option.isSome)

/-- The character that a one-letter escape stands for. -/
def escaped? : Char → Option Char
  | '"' => some '"'
  | '\\' => some '\\'
  | '/' => some '/'
  | 'b' => some '\x08'
  | 'f' => some '\x0c'
  | 'n' => some '\n'
  | 'r' => some '\r'
  | 't' => some '\t'
  | _ => none

def takeDigits (chars : List Char) : List Char × List Char :=
  (chars.takeWhile Char.isDigit, chars.dropWhile Char.isDigit)

/-- The rest of a number after its integer part. -/
def fraction? (chars : List Char) : Option (List Char) :=
  match chars with
  | '.' :: rest =>
      let (digits, rest) := takeDigits rest
      if digits.isEmpty then none else some rest
  | _ => some chars

def exponent? (chars : List Char) : Option (List Char) :=
  let digits (rest : List Char) :=
    let (digits, rest) := takeDigits rest
    if digits.isEmpty then none else some rest
  match chars with
  | 'e' :: '+' :: rest | 'e' :: '-' :: rest | 'E' :: '+' :: rest | 'E' :: '-' :: rest =>
      digits rest
  | 'e' :: rest | 'E' :: rest => digits rest
  | _ => some chars

def natOfDigits (digits : List Char) : Nat :=
  digits.foldl (fun total digit => total * 10 + (digit.toNat - '0'.toNat)) 0

/-- The number spelled by all of `chars`. -/
def number? (chars : List Char) : Option Json := do
  let (negative, unsigned) := match chars with
    | '-' :: rest => (true, rest)
    | _ => (false, chars)
  let (digits, rest) := takeDigits unsigned
  match digits with
  | [] => none
  | '0' :: _ :: _ => none
  | _ =>
    let ending ← fraction? rest >>= exponent?
    if !ending.isEmpty then none
    else
      let magnitude := natOfDigits digits
      let value : Int := if negative then -magnitude else magnitude
      if rest.isEmpty && minInt ≤ value && value ≤ maxInt && !(negative && magnitude = 0) then
        return .int value
      else return .fraction (String.ofList chars)

/-- Where the machine stands between two characters. -/
inductive State where
  | between
  /-- Inside a word, with the letters read so far, latest first. -/
  | word (letters : List Char)
  | number (letters : List Char)
  /-- Inside a string, with the letters read so far, latest first. -/
  | string (read : List (Option Char))
  | escape (read : List (Option Char))
  /-- Inside a numeric escape, after a high surrogate if there was one. -/
  | unit (read : List (Option Char)) (high : Option Nat) (digits code : Nat)
  /-- Behind an escaped high surrogate. -/
  | afterHigh (read : List (Option Char)) (high : Nat)
  | escapeAfterHigh (read : List (Option Char)) (high : Nat)
  deriving Repr, Inhabited

/-- The tokens read so far, latest first, and the state of the machine. -/
structure Lexer where
  tokens : List Token
  state : State
  deriving Repr, Inhabited

namespace Lexer

def word? (letters : List Char) : Option Json :=
  if letters = "null".toList then some .null
  else if letters = "true".toList then some (.bool true)
  else if letters = "false".toList then some (.bool false)
  else none

def emit (lexer : Lexer) (token : Token) : Lexer :=
  { tokens := token :: lexer.tokens, state := .between }

/-- Ends a word or a number, which only the character behind it can end. -/
def close (lexer : Lexer) : Option Lexer :=
  match lexer.state with
  | .between => some lexer
  | .word letters => (word? letters.reverse).map fun word => lexer.emit (.value word)
  | .number letters => (number? letters.reverse).map fun number => lexer.emit (.value number)
  | _ => none

def isNumberLetter (c : Char) : Bool :=
  c.isDigit || c = '-' || c = '+' || c = '.' || c = 'e' || c = 'E'

def stepBetween (lexer : Lexer) (c : Char) : Option Lexer :=
  if isBlank c then some lexer
  else match c with
    | '[' => some (lexer.emit .openArray)
    | ']' => some (lexer.emit .closeArray)
    | '\x7b' => some (lexer.emit .openObject)
    | '\x7d' => some (lexer.emit .closeObject)
    | ',' => some (lexer.emit .comma)
    | ':' => some (lexer.emit .colon)
    | '"' => some { lexer with state := .string [] }
    | _ =>
      if c.isDigit || c = '-' then some { lexer with state := .number [c] }
      else if c.isLower then some { lexer with state := .word [c] }
      else none

def stepString (lexer : Lexer) (read : List (Option Char)) (c : Char) : Option Lexer :=
  match c with
  | '"' => some (lexer.emit (ofLetters read.reverse))
  | '\\' => some { lexer with state := .escape read }
  | _ => if c.toNat < 0x20 then none else some { lexer with state := .string (some c :: read) }

def stepEscape (lexer : Lexer) (read : List (Option Char)) (c : Char) : Option Lexer :=
  if c = 'u' then some { lexer with state := .unit read none 0 0 }
  else (escaped? c).map fun char => { lexer with state := .string (some char :: read) }

/-- Ends a numeric escape. -/
def finishUnit (read : List (Option Char)) (high : Option Nat) (unit : Nat) : State :=
  match high with
  | none => if isHighSurrogate unit then .afterHigh read unit else .string (ofUnit? unit :: read)
  | some high =>
      if isLowSurrogate unit then .string (some (ofSurrogates high unit) :: read)
      else if isHighSurrogate unit then .afterHigh (none :: read) unit
      else .string (ofUnit? unit :: none :: read)

def stepUnit (lexer : Lexer) (read : List (Option Char)) (high : Option Nat) (digits code : Nat)
    (c : Char) : Option Lexer :=
  (hexDigit? c).map fun digit =>
    let code := code * 16 + digit
    if digits = 3 then { lexer with state := finishUnit read high code }
    else { lexer with state := .unit read high (digits + 1) code }

def step (lexer : Lexer) (c : Char) : Option Lexer :=
  match lexer.state with
  | .between => lexer.stepBetween c
  | .word letters =>
      if c.isLower then some { lexer with state := .word (c :: letters) }
      else lexer.close >>= (·.stepBetween c)
  | .number letters =>
      if isNumberLetter c then some { lexer with state := .number (c :: letters) }
      else lexer.close >>= (·.stepBetween c)
  | .string read => lexer.stepString read c
  | .escape read => lexer.stepEscape read c
  | .unit read high digits code => lexer.stepUnit read high digits code c
  | .afterHigh read high =>
      if c = '\\' then some { lexer with state := .escapeAfterHigh read high }
      else lexer.stepString (none :: read) c
  | .escapeAfterHigh read high =>
      if c = 'u' then some { lexer with state := .unit read (some high) 0 0 }
      else lexer.stepEscape (none :: read) c

end Lexer

/-- The tokens of a text, if it holds nothing else. -/
def ofText? (text : List Char) : Option (List Token) := do
  let lexer ← text.foldlM Lexer.step ⟨[], .between⟩
  let lexer ← lexer.close
  return lexer.tokens.reverse

end Token

end Coauthor.Json
