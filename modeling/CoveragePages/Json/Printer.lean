/-
JSON text. `compact` writes a value on one line without spaces, `pretty` over several lines with an
indent of two. Numbers that are not integers take the fewest digits that read back, and those that
have no digits are written `null`.
-/
import CoveragePages.Decimal.Shortest
import CoveragePages.Json.Basic

namespace CoveragePages.Json

/-! ## Leaves -/

/-- The layout of numbers: positional from `0.00001` to below `10 ^ 16`, with `.0` after whole
numbers, and a signed exponent elsewhere. -/
def numberLayout : Decimal.Layout where
  tie := .toEven
  positional := some (-4, 16)
  whole := ".0"
  words := ⟨"null", "null", "null"⟩

def integerText (i : Int) : List Char :=
  (if i < 0 then ['-'] else []) ++ Nat.toDigits 10 i.natAbs

/-- A character inside a string. -/
def escapedChar (c : Char) : List Char :=
  match c with
  | '"' => ['\\', '"']
  | '\\' => ['\\', '\\']
  | '\x08' => ['\\', 'b']
  | '\x0c' => ['\\', 'f']
  | '\n' => ['\\', 'n']
  | '\r' => ['\\', 'r']
  | '\t' => ['\\', 't']
  | c =>
    if c.toNat < 0x20 then
      ['\\', 'u', '0', '0', Nat.digitChar (c.toNat / 16), Nat.digitChar (c.toNat % 16)]
    else [c]

/-- A string between quotes. -/
def stringText (s : String) : List Char := '"' :: s.toList.flatMap escapedChar ++ ['"']

/-- The text of a value that holds no other value. -/
def leafText : Json → List Char
  | null => "null".toList
  | bool true => "true".toList
  | bool false => "false".toList
  | integer i => integerText i
  | float x => (numberLayout.text x).toList
  | string s => stringText s
  | array _ | object _ => []

/-! ## On one line -/

mutual

/-- The characters of a value on one line. -/
def compactChars : Json → List Char
  | array items => '[' :: compactItems items ++ [']']
  | object members => '\x7b' :: compactMembers members ++ ['\x7d']
  | null => leafText null
  | bool b => leafText (bool b)
  | integer i => leafText (integer i)
  | float x => leafText (float x)
  | string s => leafText (string s)

/-- The items of an array, separated by commas. -/
def compactItems : List Json → List Char
  | [] => []
  | [item] => compactChars item
  | item :: rest => compactChars item ++ ',' :: compactItems rest

/-- The members of an object, separated by commas. -/
def compactMembers : List (String × Json) → List Char
  | [] => []
  | [(key, value)] => stringText key ++ ':' :: compactChars value
  | (key, value) :: rest =>
    stringText key ++ ':' :: compactChars value ++ ',' :: compactMembers rest

end

/-- The text of a value on one line. -/
def compact (value : Json) : String := String.ofList (compactChars value)

/-! ## Over several lines -/

/-- A line break and the indent of a nesting depth. -/
def lineBreak (depth : Nat) : List Char := '\n' :: List.replicate (2 * depth) ' '

mutual

/-- The characters of a value that starts at some nesting depth. -/
def prettyChars (depth : Nat) : Json → List Char
  | array items =>
    if items.isEmpty then ['[', ']']
    else '[' :: prettyItems (depth + 1) items ++ lineBreak depth ++ [']']
  | object members =>
    if members.isEmpty then ['\x7b', '\x7d']
    else '\x7b' :: prettyMembers (depth + 1) members ++ lineBreak depth ++ ['\x7d']
  | null => leafText null
  | bool b => leafText (bool b)
  | integer i => leafText (integer i)
  | float x => leafText (float x)
  | string s => leafText (string s)

/-- The items of an array, each on a line of its own. -/
def prettyItems (depth : Nat) : List Json → List Char
  | [] => []
  | [item] => lineBreak depth ++ prettyChars depth item
  | item :: rest => lineBreak depth ++ prettyChars depth item ++ ',' :: prettyItems depth rest

/-- The members of an object, each on a line of its own. -/
def prettyMembers (depth : Nat) : List (String × Json) → List Char
  | [] => []
  | [(key, value)] => lineBreak depth ++ stringText key ++ ':' :: ' ' :: prettyChars depth value
  | (key, value) :: rest =>
    lineBreak depth ++ stringText key ++ ':' :: ' ' :: prettyChars depth value ++
      ',' :: prettyMembers depth rest

end

/-- The text of a value over several lines. -/
def pretty (value : Json) : String := String.ofList (prettyChars 0 value)

end CoveragePages.Json
