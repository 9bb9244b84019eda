/-
Why a JSON text is not read. A fault is a place where the text stops being JSON; a mismatch is a
value of another shape than the one asked for.
-/
import CoveragePages.Json.Printer
import CoveragePages.Text.Quoted
import CoveragePages.Text.Search

namespace CoveragePages.Json

/-! ## Faults of the text -/

/-- What makes a text malformed at some place. -/
inductive Fault where
  | endOfValue
  | endOfList
  | endOfObject
  | endOfString
  | noColon
  | noListSeparator
  | noObjectSeparator
  | noWord
  | noValue
  | badEscape
  | badNumber
  | numberOutOfRange
  | controlCharacter
  | keyNotString
  | loneSurrogate
  | halfSurrogatePair
  | trailingComma
  | trailingCharacters
  | tooDeep
  deriving DecidableEq

/-- Whether the text ends too early, as opposed to going on in a wrong way. -/
def Fault.isEarlyEnd : Fault → Bool
  | .endOfValue | .endOfList | .endOfObject | .endOfString => true
  | _ => false

def Fault.message : Fault → String
  | .endOfValue => "EOF while parsing a value"
  | .endOfList => "EOF while parsing a list"
  | .endOfObject => "EOF while parsing an object"
  | .endOfString => "EOF while parsing a string"
  | .noColon => "expected `:`"
  | .noListSeparator => "expected `,` or `]`"
  | .noObjectSeparator => "expected `,` or `\x7d`"
  | .noWord => "expected ident"
  | .noValue => "expected value"
  | .badEscape => "invalid escape"
  | .badNumber => "invalid number"
  | .numberOutOfRange => "number out of range"
  | .controlCharacter => "control character (\\u0000-\\u001F) found while parsing a string"
  | .keyNotString => "key must be a string"
  | .loneSurrogate => "lone leading surrogate in hex escape"
  | .halfSurrogatePair => "unexpected end of hex escape"
  | .trailingComma => "trailing comma"
  | .trailingCharacters => "trailing characters"
  | .tooDeep => "recursion limit exceeded"

/-! ## Mismatches of shape -/

/-- What stands where something else was asked for. -/
inductive Found where
  | null
  | bool (value : Bool)
  | integer (value : Int)
  | float (value : Binary64)
  | string (value : String)
  | sequence
  | map

def Found.message : Found → String
  | .null => "null"
  | .bool true => "boolean `true`"
  | .bool false => "boolean `false`"
  | .integer i => "integer `" ++ String.ofList (integerText i) ++ "`"
  | .float x => "floating point `" ++ numberLayout.text x ++ "`"
  | .string s => "string " ++ Text.quoted s
  | .sequence => "sequence"
  | .map => "map"

/-- How a value differs from what was asked for. -/
inductive Mismatch where
  | wrongType (found : Found) (expected : String)
  | wrongValue (found : Found) (expected : String)
  | wrongLength (length : Nat) (expected : String)
  | missingField (name : String)
  | duplicateField (name : String)
  | unknownField (name : String) (known : List String)
  | unknownVariant (name : String) (known : List String)
  | refused (reason : String)

/-- A name between backquotes. -/
def tick (name : String) : String := "`" ++ name ++ "`"

/-- The names that were possible. -/
def choices : List String → String
  | [] => "there are no fields"
  | [a] => "expected " ++ tick a
  | [a, b] => "expected " ++ tick a ++ " or " ++ tick b
  | names => "expected one of " ++ Text.join ", " (names.map tick)

def Mismatch.message : Mismatch → String
  | .wrongType found expected => "invalid type: " ++ found.message ++ ", expected " ++ expected
  | .wrongValue found expected => "invalid value: " ++ found.message ++ ", expected " ++ expected
  | .wrongLength length expected =>
    "invalid length " ++ toString length ++ ", expected " ++ expected
  | .missingField name => "missing field " ++ tick name
  | .duplicateField name => "duplicate field " ++ tick name
  | .unknownField name known => "unknown field " ++ tick name ++ ", " ++ choices known
  | .unknownVariant name known => "unknown variant " ++ tick name ++ ", " ++ choices known
  | .refused reason => reason

/-! ## Refusals -/

/-- Why a text is not read as a value of some type. -/
inductive Refusal where
  | fault (fault : Fault)
  | mismatch (mismatch : Mismatch)

def Refusal.message : Refusal → String
  | .fault f => f.message
  | .mismatch m => m.message

end CoveragePages.Json
