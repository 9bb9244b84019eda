/-
The fewest decimal digits that read back as a binary64 number, and the two ways of laying them
out. A decimal reads back as a number exactly when it lies between the midpoints to the
neighbouring ranks, the midpoints included for an even rank; all comparisons are exact, in half
units.
-/
import CoveragePages.Binary64.Basic
import CoveragePages.Decimal.Fixed

namespace CoveragePages.Decimal

open Binary64

/-! ## Digits -/

/-- Which of two equally near decimals is taken. -/
inductive Tie where
  | toEven
  | upwards
  deriving DecidableEq

/-- The decimal `digits · 10 ^ exponent`. -/
structure Digits where
  digits : Nat
  exponent : Int
  deriving DecidableEq

/-- How many decimal digits a natural number has. -/
def digitCount (n : Nat) : Nat := (Nat.toDigits 10 n).length

/-- `10 ^ exponent` as the quotient of two natural numbers. -/
def powerOfTen (exponent : Int) : Nat × Nat :=
  (Nat.pow 10 exponent.toNat, Nat.pow 10 (-exponent).toNat)

/-- The position of the decimal point of a positive number: `p` with
`10 ^ (p - 1) ≤ value < 10 ^ p`. No finite number is as small as `10 ^ -400`. -/
def pointPosition (rank : Nat) : Int :=
  (digitCount (units rank * Nat.pow 10 400 / unitsPerOne) : Int) - 400

/-- Whether `d · 10 ^ exponent` reads back as the number of a positive rank. -/
def readsBack (rank d : Nat) (exponent : Int) : Bool :=
  let (scale, divisor) := powerOfTen exponent
  let decimal := d * scale * (2 * unitsPerOne)
  let below := (units (rank - 1) + units rank) * divisor
  let above := (units rank + units (rank + 1)) * divisor
  if rank % 2 = 0 then below ≤ decimal && decimal ≤ above
  else below < decimal && decimal < above

/-- The multiple of `10 ^ exponent` that is nearest to a positive number among its two neighbours
on that grid that read back. -/
def nearestOnGrid? (tie : Tie) (rank : Nat) (exponent : Int) : Option Digits :=
  let (scale, divisor) := powerOfTen exponent
  let num := units rank * divisor
  let den := scale * unitsPerOne
  let lower := num / den
  let twice := 2 * (num % den)
  let upperIsNearer :=
    den < twice || (twice == den && (tie == .upwards || lower % 2 == 1))
  match readsBack rank lower exponent, readsBack rank (lower + 1) exponent with
  | true, true => some ⟨if upperIsNearer then lower + 1 else lower, exponent⟩
  | true, false => some ⟨lower, exponent⟩
  | false, true => some ⟨lower + 1, exponent⟩
  | false, false => none

/-- The decimal with the fewest digits that reads back as the number of a positive rank, the
nearest of those. Seventeen digits are always enough; the coarsest grid is there for numbers just
below a power of ten. -/
def shortest (tie : Tie) (rank : Nat) : Digits :=
  let point := pointPosition rank
  let grids := (List.range 18).map fun (n : Nat) => point - n
  (grids.findSome? (nearestOnGrid? tie rank)).getD ⟨0, 0⟩

/-! ## Layout -/

/-- How the digits of a number are written out. -/
structure Layout where
  tie : Tie
  /-- The least and the greatest point position without an exponent, when there is a limit. -/
  positional : Option (Int × Int)
  /-- What follows a whole number. -/
  whole : String
  words : Words

/-- The layout of plain text: never an exponent, and nothing after a whole number. -/
def Layout.plain : Layout := ⟨.upwards, none, "", .short⟩

/-- A run of zeros. -/
def zeros (n : Nat) : List Char := List.replicate n '0'

/-- Digits with the point after the first `point` of them, filled up with zeros. -/
def positionalText (whole : String) (ds : List Char) (point : Int) : String :=
  if point ≤ 0 then String.ofList ('0' :: '.' :: zeros (-point).toNat ++ ds)
  else
    let n := point.toNat
    if n < ds.length then String.ofList (ds.take n ++ '.' :: ds.drop n)
    else String.ofList (ds ++ zeros (n - ds.length)) ++ whole

/-- Digits with the point after the first one and a power of ten behind them. -/
def exponentText (ds : List Char) (point : Int) : String :=
  let power := point - 1
  let mantissa := match ds with
    | d :: rest@(_ :: _) => d :: '.' :: rest
    | _ => ds
  String.ofList mantissa ++ "e" ++ (if power < 0 then "-" else "+") ++ toString power.natAbs

/-- The text of the finite number of a rank. -/
def Layout.magnitudeText (layout : Layout) (rank : Nat) : String :=
  if rank = 0 then "0" ++ layout.whole
  else
    let d := shortest layout.tie rank
    let ds := Nat.toDigits 10 d.digits
    let point := d.exponent + ds.length
    match layout.positional with
    | none => positionalText layout.whole ds point
    | some (least, greatest) =>
      if least ≤ point ∧ point ≤ greatest then positionalText layout.whole ds point
      else exponentText ds point

def Layout.text (layout : Layout) : Binary64 → String :=
  layout.words.text layout.magnitudeText

end CoveragePages.Decimal
