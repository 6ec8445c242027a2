/-!
# SHA-1

The digest by which commits are named: a message is padded to blocks of sixteen
32-bit words, each block is stretched to eighty words, and the words are mixed one
after the other into five registers.
-/

namespace Coauthor.Sha1

structure Registers where
  a : UInt32
  b : UInt32
  c : UInt32
  d : UInt32
  e : UInt32
  deriving DecidableEq, Repr, Inhabited

namespace Registers

def initial : Registers :=
  ⟨0x67452301, 0xEFCDAB89, 0x98BADCFE, 0x10325476, 0xC3D2E1F0⟩

def add (x y : Registers) : Registers :=
  ⟨x.a + y.a, x.b + y.b, x.c + y.c, x.d + y.d, x.e + y.e⟩

def words (x : Registers) : List UInt32 := [x.a, x.b, x.c, x.d, x.e]

end Registers

def rotate (word : UInt32) (left : UInt32) : UInt32 :=
  (word <<< left) ||| (word >>> (32 - left))

/-- The eight bytes of a length, the highest first. -/
def lengthBytes (length : Nat) : List UInt8 :=
  [56, 48, 40, 32, 24, 16, 8, 0].map fun shift => (length >>> shift).toUInt8

/-- The message, a one bit, zeros, and the length in bits, in whole blocks. -/
def pad (message : List UInt8) : List UInt8 :=
  let zeros := (119 - message.length % 64) % 64
  message ++ 0x80 :: (List.replicate zeros 0 ++ lengthBytes (message.length * 8))

def wordsOf : List UInt8 → List UInt32
  | b₀ :: b₁ :: b₂ :: b₃ :: rest =>
      ((b₀.toUInt32 <<< 24) ||| (b₁.toUInt32 <<< 16) ||| (b₂.toUInt32 <<< 8) ||| b₃.toUInt32) ::
        wordsOf rest
  | _ => []

/-- Adds `count` words to a schedule that is kept with the latest word first. -/
def stretch : Nat → List UInt32 → List UInt32
  | 0, schedule => schedule
  | count + 1, schedule =>
      let word (back : Nat) := schedule.getD (back - 1) 0
      stretch count (rotate (word 3 ^^^ word 8 ^^^ word 14 ^^^ word 16) 1 :: schedule)

/-- The mixing function and the constant of a round. -/
def roundParts (round : Nat) (x : Registers) : UInt32 × UInt32 :=
  if round < 20 then ((x.b &&& x.c) ||| (~~~x.b &&& x.d), 0x5A827999)
  else if round < 40 then (x.b ^^^ x.c ^^^ x.d, 0x6ED9EBA1)
  else if round < 60 then ((x.b &&& x.c) ||| (x.b &&& x.d) ||| (x.c &&& x.d), 0x8F1BBCDC)
  else (x.b ^^^ x.c ^^^ x.d, 0xCA62C1D6)

def mixRound (round : Nat) (word : UInt32) (x : Registers) : Registers :=
  let (mixed, constant) := roundParts round x
  ⟨rotate x.a 5 + mixed + x.e + constant + word, x.a, rotate x.b 30, x.c, x.d⟩

def mixRounds : Nat → List UInt32 → Registers → Registers
  | _, [], x => x
  | round, word :: rest, x => mixRounds (round + 1) rest (mixRound round word x)

def mixBlock (x : Registers) (block : List UInt32) : Registers :=
  x.add (mixRounds 0 (stretch 64 block.reverse).reverse x)

/-- Mixes in `count` blocks of sixteen words. -/
def mixBlocks : Nat → List UInt32 → Registers → Registers
  | 0, _, x => x
  | count + 1, words, x => mixBlocks count (words.drop 16) (mixBlock x (words.take 16))

def digest (message : List UInt8) : Registers :=
  let words := wordsOf (pad message)
  mixBlocks (words.length / 16) words .initial

def hexDigit (digit : UInt32) : Char := Nat.digitChar digit.toNat

def hexWord (word : UInt32) : List Char :=
  ([28, 24, 20, 16, 12, 8, 4, 0] : List UInt32).map fun shift => hexDigit ((word >>> shift) &&& 0xF)

/-- The digest in forty hexadecimal digits. -/
def hexDigest (message : List UInt8) : String :=
  String.ofList ((digest message).words.flatMap hexWord)

end Coauthor.Sha1
