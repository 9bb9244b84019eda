/-
Decimal text with one digit after the point: `fixedOne` rounds the exact value half to even,
`roundedUpOne` rounds exact ties upwards. A tie at the first decimal is an odd number of quarters,
since no other binary fraction lies halfway between two tenths.
-/
import CoveragePages.Binary64.Basic

namespace CoveragePages.Decimal

open Binary64

/-- A count of tenths as a decimal with one digit after the point. -/
def tenthsText (tenths : Nat) : String :=
  toString (tenths / 10) ++ "." ++ toString (tenths % 10)

/-- The words for numbers without digits. -/
structure Words where
  nan : String
  infinity : String
  negativeInfinity : String

/-- The plain words `NaN` and `inf`. -/
def Words.short : Words := ⟨"NaN", "inf", "-inf"⟩

/-- The text of a number, given the text of each finite rank. -/
def Words.text (words : Words) (finite : Nat → String) : Binary64 → String
  | .nan => words.nan
  | .ranked negative rank _ =>
    if rank = infinityRank then if negative then words.negativeInfinity else words.infinity
    else (if negative then "-" else "") ++ finite rank

/-- A value with one digit after the point, exact ties going to the even digit. -/
def fixedOne (words : Words) : Binary64 → String :=
  words.text fun rank => tenthsText (roundHalfEven (units rank * 10) unitsPerOne)

/-- Whether a number is a positive odd whole number. -/
def isOdd : Binary64 → Bool
  | .nan => false
  | .ranked negative rank _ =>
    !negative && rank != infinityRank && units rank % unitsPerOne == 0 &&
      units rank / unitsPerOne % 2 == 1

/-- The least whole number that is at least the size of a number. -/
def ceiling : Binary64 → Nat
  | .nan => 0
  | .ranked _ rank _ => (units rank + (unitsPerOne - 1)) / unitsPerOne

/-- A value with one digit after the point, positive exact ties going up. -/
def roundedUpOne (words : Words) (x : Binary64) : String :=
  if isOdd (x * ofNat 4) then tenthsText (ceiling (x * ofNat 10))
  else fixedOne words x

end CoveragePages.Decimal
