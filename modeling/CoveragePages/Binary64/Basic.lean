/-
Binary64 numbers as ranks. The non-negative binary64 numbers, counted upwards from zero, are the
natural numbers up to `infinityRank`; a number is a sign and such a rank, or not a number at all.
Every finite number is a whole multiple of the smallest positive one, so `units` gives its exact
size as a natural number, and rounding, products and quotients are exact integer arithmetic
followed by one rounding to the nearest rank.
-/

namespace CoveragePages

/-! ## The type -/

/-- How many neighbouring numbers are evenly spaced. -/
abbrev Binary64.blockSize : Nat := Nat.pow 2 52

/-- The rank of the infinities, one above the greatest finite number. -/
def Binary64.infinityRank : Nat := 2047 * blockSize

/-- A binary64 number: not a number, or a sign and a rank among the non-negative numbers. -/
inductive Binary64 where
  | nan
  | ranked (negative : Bool) (rank : Nat) (le : rank ≤ Binary64.infinityRank)
  deriving DecidableEq

namespace Binary64

/-- The number of the given sign and rank; ranks past the infinities count as infinite. -/
def ofRank (negative : Bool) (rank : Nat) : Binary64 :=
  ranked negative (min rank infinityRank) (Nat.min_le_right ..)

/-- Zero of the given sign. -/
def zero (negative : Bool) : Binary64 := ofRank negative 0

/-- Infinity of the given sign. -/
def infinity (negative : Bool) : Binary64 := ofRank negative infinityRank

/-- Whether this is not a number. -/
def isNaN : Binary64 → Bool
  | nan => true
  | ranked .. => false

/-! ## Exact size -/

/-- How many units, the smallest positive number, make up one. -/
def unitsPerOne : Nat := Nat.pow 2 1074

/-- The exact size, in units, of the number with a rank. The ranks of the first two blocks are
spaced by one unit; each block after them doubles the spacing of the block before it. -/
def units (rank : Nat) : Nat :=
  if rank < blockSize then rank
  else (blockSize + rank % blockSize) * Nat.pow 2 (rank / blockSize - 1)

/-! ## Rounding -/

/-- The whole number nearest to `num / den`, the even one of two equally near. -/
def roundHalfEven (num den : Nat) : Nat :=
  let whole := num / den
  let twice := 2 * (num % den)
  if twice < den then whole
  else if den < twice then whole + 1
  else whole + whole % 2

/-- The rank nearest to `num / den` units, the even one of two equally near. -/
def nearestRank (num den : Nat) : Nat :=
  let whole := num / den
  let shift := if whole < 2 * blockSize then 0 else whole.log2 - 52
  min (shift * blockSize + roundHalfEven num (den * Nat.pow 2 shift)) infinityRank

/-- The number nearest to `num / den`. -/
def ofRatio (negative : Bool) (num den : Nat) : Binary64 :=
  ofRank negative (nearestRank (num * unitsPerOne) den)

/-- The number nearest to a natural number. -/
def ofNat (n : Nat) : Binary64 := ofRatio false n 1

/-- The number nearest to an integer. -/
def ofInt (i : Int) : Binary64 := ofRatio (i < 0) i.natAbs 1

/-! ## Order -/

/-- Places a sign and a rank on the number line; both zeros share a place. -/
def place (negative : Bool) (rank : Nat) : Int :=
  if negative then -(rank : Int) else rank

/-- Whether `x` is at most `y`; false as soon as one of them is not a number. -/
def le : Binary64 → Binary64 → Bool
  | ranked s a _, ranked t b _ => decide (place s a ≤ place t b)
  | _, _ => false

/-- Whether `x` is below `y`; false as soon as one of them is not a number. -/
def lt : Binary64 → Binary64 → Bool
  | ranked s a _, ranked t b _ => decide (place s a < place t b)
  | _, _ => false

instance : LE Binary64 := ⟨fun x y => x.le y = true⟩

instance : LT Binary64 := ⟨fun x y => x.lt y = true⟩

instance (x y : Binary64) : Decidable (x ≤ y) := inferInstanceAs (Decidable (x.le y = true))

instance (x y : Binary64) : Decidable (x < y) := inferInstanceAs (Decidable (x.lt y = true))

/-! ## Arithmetic -/

/-- The product, rounded once. Zero times an infinity is not a number. -/
def mul : Binary64 → Binary64 → Binary64
  | ranked s a _, ranked t b _ =>
    if a = infinityRank ∨ b = infinityRank then
      if a = 0 ∨ b = 0 then nan else infinity (s != t)
    else ofRank (s != t) (nearestRank (units a * units b) unitsPerOne)
  | _, _ => nan

/-- The quotient, rounded once. Zero by zero and infinity by infinity are not numbers; anything
else by zero is infinite. -/
def div : Binary64 → Binary64 → Binary64
  | ranked s a _, ranked t b _ =>
    if a = infinityRank then
      if b = infinityRank then nan else infinity (s != t)
    else if b = infinityRank then zero (s != t)
    else if b = 0 then
      if a = 0 then nan else infinity (s != t)
    else ofRank (s != t) (nearestRank (units a * unitsPerOne) (units b))
  | _, _ => nan

instance : Mul Binary64 := ⟨mul⟩

instance : Div Binary64 := ⟨div⟩

end Binary64

end CoveragePages
