/-
Scanners of data scripts. They work on the UTF-8 bytes that are left of a script; every byte they
stop at is ASCII, so they never stop inside a character.
-/
import CoveragePages.Text.Blank

namespace CoveragePages.Script

/-! ## Trivia -/

/-- What the trivia scanner stands in. -/
inductive Trivia where
  | space
  | lineComment
  | blockComment
  deriving DecidableEq

/-- The byte of an ASCII character. -/
def byte (c : Char) : UInt8 := c.toNat.toUInt8

/-- Whether a byte is white space between tokens. -/
def isSpace (b : UInt8) : Bool :=
  b == byte ' ' || b == byte '\t' || b == byte '\r' || b == byte '\n'

/-- Skips trivia: white space, line comments and block comments. A comment that is not closed
lasts until the end of the text. -/
def skipTriviaIn : Trivia → List UInt8 → List UInt8
  | _, [] => []
  | .space, [b] => if isSpace b then [] else [b]
  | .space, b :: c :: rest =>
    if b = byte '/' ∧ c = byte '/' then skipTriviaIn .lineComment rest
    else if b = byte '/' ∧ c = byte '*' then skipTriviaIn .blockComment rest
    else if isSpace b then skipTriviaIn .space (c :: rest)
    else b :: c :: rest
  | .lineComment, b :: rest =>
    skipTriviaIn (if b = byte '\n' then .space else .lineComment) rest
  | .blockComment, [_] => []
  | .blockComment, b :: c :: rest =>
    if b = byte '*' ∧ c = byte '/' then skipTriviaIn .space rest
    else skipTriviaIn .blockComment (c :: rest)

/-- What is left after the trivia at the start. -/
def skipTrivia (bs : List UInt8) : List UInt8 := skipTriviaIn .space bs

/-! ## Names -/

/-- Whether a byte can start a name. -/
def isNameStart (b : UInt8) : Bool :=
  b == byte '_' || b == byte '$' || (byte 'a' ≤ b && b ≤ byte 'z') ||
    (byte 'A' ≤ b && b ≤ byte 'Z')

/-- Whether a byte can stand in a name after its start. -/
def isNamePart (b : UInt8) : Bool := isNameStart b || (byte '0' ≤ b && b ≤ byte '9')

/-- What is left after the name at the start; everything if there is no name. -/
def skipName : List UInt8 → List UInt8
  | [] => []
  | b :: rest => if isNameStart b then rest.dropWhile isNamePart else b :: rest

/-! ## Values -/

/-- Where a scanner stands with respect to string literals. -/
inductive Quoting where
  | outside
  | inside
  | escaped
  deriving DecidableEq

/-- The state after a character with a code point, or after a byte. -/
def Quoting.next : Quoting → Nat → Quoting
  | outside, code => if code = '"'.toNat then inside else outside
  | inside, code =>
    if code = '\\'.toNat then escaped else if code = '"'.toNat then outside else inside
  | escaped, _ => inside

/-- The bracket depth after a byte; a bracket that closes nothing is not counted. -/
def depthAfter (depth : Nat) (b : UInt8) : Nat :=
  if b = byte '[' ∨ b = byte '\x7b' then depth + 1
  else if b = byte ']' ∨ b = byte '\x7d' then depth - 1
  else depth

/-- What is left from the end of a value on: the first semicolon outside strings and brackets, or
the end of the text. There is no end if the text stops inside a string or bracket. -/
def skipValueIn : Quoting → Nat → List UInt8 → Option (List UInt8)
  | .outside, 0, [] => some []
  | _, _, [] => none
  | .outside, depth, b :: rest =>
    if b = byte ';' ∧ depth = 0 then some (b :: rest)
    else skipValueIn (Quoting.outside.next b.toNat) (depthAfter depth b) rest
  | quoting, depth, b :: rest => skipValueIn (quoting.next b.toNat) depth rest

/-- What is left from the end of the value at the start on. -/
def skipValue? (bs : List UInt8) : Option (List UInt8) := skipValueIn .outside 0 bs

/-! ## Trailing commas -/

/-- Whether a text goes on with a closing bracket, after white space. -/
def closesNext (cs : List Char) : Bool :=
  match Text.trimStart cs with
  | ']' :: _ | '\x7d' :: _ => true
  | _ => false

/-- Leaves out the commas outside strings that stand before a closing bracket. -/
def dropTrailingCommasIn : Quoting → List Char → List Char
  | _, [] => []
  | quoting, c :: rest =>
    if quoting = .outside ∧ c = ',' ∧ closesNext rest then dropTrailingCommasIn .outside rest
    else c :: dropTrailingCommasIn (quoting.next c.toNat) rest

/-- Leaves out the trailing commas of a value. -/
def dropTrailingCommas (cs : List Char) : List Char := dropTrailingCommasIn .outside cs

end CoveragePages.Script
