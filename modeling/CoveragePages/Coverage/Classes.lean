/-
Coverage ratios and the classes they fall into. A page header tells low, medium and high coverage
apart, a table row uncovered, partly covered and covered lines; the two draw the line at the low
limit differently.
-/
import CoveragePages.Coverage.Limits

namespace CoveragePages

/-! ## Ratios -/

/-- The covered part of the instrumented lines, in percent. Nothing of nothing is not a number, and
something of nothing is infinite. -/
def coverageRatio (covered instrumented : UInt64) : Binary64 :=
  Binary64.ofNat covered.toNat / Binary64.ofNat instrumented.toNat * Binary64.ofNat 100

/-- A ratio as it is displayed: one digit after the point, positive exact halves rounded up. -/
def percentText (ratio : Binary64) : String :=
  Decimal.roundedUpOne ⟨"NaN", "Infinity", "-Infinity"⟩ ratio ++ "%"

/-! ## Classes of a page -/

/-- The class of a coverage ratio. -/
inductive CoverageClass where
  | low
  | medium
  | high
  deriving DecidableEq

namespace CoverageClass

/-- The class of a ratio: low up to the low limit, high from the high limit on, medium otherwise.
What is not a number is medium. -/
def ofRatio (ratio : Binary64) (limits : Limits) : CoverageClass :=
  if ratio ≤ limits.low then low
  else if limits.high ≤ ratio then high
  else medium

/-- The class of a covered part of instrumented lines. -/
def ofCounts (covered instrumented : UInt64) (limits : Limits) : CoverageClass :=
  ofRatio (coverageRatio covered instrumented) limits

/-- The class attribute that a page styles the class with. -/
def css : CoverageClass → String
  | low => "coverPerLeftLo"
  | medium => "coverPerLeftMed"
  | high => "coverPerLeftHi"

def name : CoverageClass → String
  | low => "low"
  | medium => "medium"
  | high => "high"

def toJson (c : CoverageClass) : Json := .string c.name

def reader : Json.Reader CoverageClass :=
  Json.readVariant [("low", low), ("medium", medium), ("high", high)]

end CoverageClass

/-! ## Classes of a row -/

/-- The class of a table row or of a line of code. -/
inductive RowClass where
  | uncovered
  | partly
  | covered
  deriving DecidableEq

namespace RowClass

/-- The class of a ratio: covered from the high limit on, partly covered above the low limit. -/
def ofRatio (ratio : Binary64) (limits : Limits) : RowClass :=
  if limits.high ≤ ratio then covered
  else if limits.low < ratio then partly
  else uncovered

/-- The class attribute that a page styles the class with. -/
def css : RowClass → String
  | uncovered => "lineNoCov"
  | partly => "linePartCov"
  | covered => "lineCov"

end RowClass

end CoveragePages
