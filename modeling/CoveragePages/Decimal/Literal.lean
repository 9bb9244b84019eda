/-
Reading decimal text into binary64 numbers. `nearest` is the correctly rounded value of a decimal;
`read?` reads the literals a person types: digits with an optional point and exponent, or the words
for infinity and not-a-number in any case.
-/
import CoveragePages.Binary64.Basic
import CoveragePages.Decimal.Shortest

namespace CoveragePages.Decimal

open Binary64

/-! ## Value of a decimal -/

/-- The number nearest to `digits · 10 ^ exponent`. Past 400 places on either side of the point
the answer is an infinity or zero, so the power of ten is not computed there. -/
def nearest (negative : Bool) (digits : Nat) (exponent : Int) : Binary64 :=
  if digits = 0 then zero negative
  else
    let point := exponent + digitCount digits
    if 400 < point then infinity negative
    else if point < -400 then zero negative
    else
      let (scale, divisor) := powerOfTen exponent
      ofRatio negative (digits * scale) divisor

/-! ## Digits of a text -/

/-- The value of a decimal digit. -/
def digitValue (c : Char) : Nat := c.toNat - '0'.toNat

/-- The number that a run of digits spells. -/
def digitsValue (ds : List Char) : Nat := ds.foldl (fun n c => n * 10 + digitValue c) 0

/-- Splits a text into its leading decimal digits and the rest. -/
def spanDigits (cs : List Char) : List Char × List Char := cs.span Char.isDigit

/-! ## Literals -/

/-- Why a text is not a literal. -/
inductive Refusal where
  | empty
  | invalid
  deriving DecidableEq

def Refusal.message : Refusal → String
  | empty => "cannot parse float from empty string"
  | invalid => "invalid float literal"

/-- Splits a leading sign from a text. -/
def splitSign : List Char → Bool × List Char
  | '-' :: cs => (true, cs)
  | '+' :: cs => (false, cs)
  | cs => (false, cs)

/-- Reads the exponent that may follow the digits; the text must end with it. -/
def readExponent? : List Char → Option Int
  | [] => some 0
  | e :: cs =>
    if e = 'e' ∨ e = 'E' then
      let (negative, cs) := splitSign cs
      if cs ≠ [] ∧ cs.all Char.isDigit then
        some (if negative then -(digitsValue cs : Int) else digitsValue cs)
      else none
    else none

/-- Reads a literal without its sign. -/
def readMagnitude? (negative : Bool) (cs : List Char) : Option Binary64 :=
  let word := cs.map Char.toLower
  if word = "inf".toList ∨ word = "infinity".toList then some (infinity negative)
  else if word = "nan".toList then some .nan
  else
    let (whole, rest) := spanDigits cs
    let (fraction, rest) := match rest with
      | '.' :: rest => spanDigits rest
      | rest => ([], rest)
    if whole = [] ∧ fraction = [] then none
    else do
      let exponent ← readExponent? rest
      some (nearest negative (digitsValue (whole ++ fraction)) (exponent - fraction.length))

/-- Reads a literal. -/
def read? (text : String) : Except Refusal Binary64 :=
  match text.toList with
  | [] => .error .empty
  | cs =>
    let (negative, rest) := splitSign cs
    match readMagnitude? negative rest with
    | some x => .ok x
    | none => .error .invalid

end CoveragePages.Decimal
