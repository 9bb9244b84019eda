/-
Coverage limits: the two percentages that part low from medium and medium from high coverage. A
pair that a person sets must lie within 0 to 100, the low limit below the high one; the pair that
comes with the data of a page is taken as it is.
-/
import CoveragePages.Json.Decode
import CoveragePages.Text.Blank

namespace CoveragePages

/-- A low and a high limit, in percent. -/
structure Limits where
  low : Binary64
  high : Binary64
  deriving DecidableEq

namespace Limits

/-- The limits that hold when nothing else is said: 25 and 75. -/
def standard : Limits := ⟨Binary64.ofNat 25, Binary64.ofNat 75⟩

/-! ## Valid limits -/

/-- Why a pair is not accepted as limits. -/
inductive Refusal where
  | outside (name : String) (value : Binary64)
  | notBelow (low high : Binary64)

/-- A number in plain digits. -/
def plain (x : Binary64) : String := Decimal.Layout.plain.text x

def Refusal.message : Refusal → String
  | .outside name value =>
    "limits." ++ name ++ " must be within 0..=100 (got " ++ plain value ++ ")"
  | .notBelow low high =>
    "limits.low (" ++ plain low ++ ") must be less than limits.high (" ++ plain high ++ ")"

/-- Whether a number lies within 0 to 100. -/
def isPercentage (x : Binary64) : Bool :=
  decide (Binary64.ofNat 0 ≤ x) && decide (x ≤ Binary64.ofNat 100)

/-- Accepts a pair of percentages whose low limit is below its high one. -/
def check (limits : Limits) : Except Refusal Unit :=
  if !isPercentage limits.low then .error (.outside "low" limits.low)
  else if !isPercentage limits.high then .error (.outside "high" limits.high)
  else if limits.high ≤ limits.low then .error (.notBelow limits.low limits.high)
  else .ok ()

/-! ## Limits as text -/

/-- Why a text is not a pair of limits. -/
inductive TextRefusal where
  | noComma (text : String)
  | badNumber (name part : String) (cause : Decimal.Refusal)
  | invalid (cause : Refusal)

/-- Reads one limit of a pair. -/
def parsePart (name : String) (part : List Char) : Except TextRefusal Binary64 :=
  match Decimal.read? (String.ofList (Text.trim part)) with
  | .ok x => .ok x
  | .error cause => .error (.badNumber name (String.ofList part) cause)

/-- Reads a pair of limits, `LOW,HIGH`. -/
def parse (text : String) : Except TextRefusal Limits := do
  match Text.breakOn? [','] text.toList with
  | none => .error (.noComma text)
  | some (low, high) =>
    let limits : Limits := ⟨← parsePart "low" low, ← parsePart "high" high⟩
    match limits.check with
    | .ok () => return limits
    | .error cause => .error (.invalid cause)

/-! ## Limits in JSON -/

def toJson (limits : Limits) : Json :=
  .object [("percent_low", .float limits.low), ("percent_high", .float limits.high)]

/-- A draft of limits. -/
structure Draft where
  low : Option Binary64 := none
  high : Option Binary64 := none

/-- The shape of limits whose fields have the given names. -/
def shape (title low high : String) (strict : Bool) : Json.Shape Draft Limits where
  title := title
  fields :=
    [.of low Json.readFloat fun d x => { d with low := some x },
      .of high Json.readFloat fun d x => { d with high := some x }]
  empty := {}
  finish d := do return ⟨← Json.required low d.low, ← Json.required high d.high⟩
  strict := strict
  lenient := false
  named := true

/-- Reads limits as `toJson` writes them. -/
def reader : Json.Reader Limits :=
  (shape "struct Thresholds" "percent_low" "percent_high" false).read

end Limits

end CoveragePages
