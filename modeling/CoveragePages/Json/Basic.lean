/-
JSON values. Objects keep their members in a list; a value that was read has them under distinct
keys in key order, a value made for printing has them in the order they are to appear in.
-/
import CoveragePages.Binary64.Basic
import CoveragePages.Dict

namespace CoveragePages

/-- A JSON value. Integers are exact and apart from all other numbers. -/
inductive Json where
  | null
  | bool (value : Bool)
  | integer (value : Int)
  | float (value : Binary64)
  | string (value : String)
  | array (items : List Json)
  | object (members : List (String × Json))

namespace Json

/-- A value that may be absent; absence is `null`. -/
def ofOption {α : Type} (encode : α → Json) : Option α → Json
  | none => null
  | some a => encode a

/-- A natural number. -/
def ofNat (n : Nat) : Json := integer n

/-- A list of texts. -/
def ofStrings (texts : List String) : Json := array (texts.map string)

/-- The number that a value is, if it is one. -/
def toNumber? : Json → Option Binary64
  | integer i => some (Binary64.ofInt i)
  | float x => some x
  | _ => none

mutual

/-- The value with the members of every object in key order. -/
def sortKeys : Json → Json
  | array items => array (sortItems items)
  | object members => object (sortMembers members)
  | null => null
  | bool b => bool b
  | integer i => integer i
  | float x => float x
  | string s => string s

/-- `sortKeys` on the items of an array. -/
def sortItems : List Json → List Json
  | [] => []
  | item :: rest => sortKeys item :: sortItems rest

/-- `sortKeys` on the members of an object. -/
def sortMembers : List (String × Json) → List (String × Json)
  | [] => []
  | (key, value) :: rest => Dict.insert (sortMembers rest) key (sortKeys value)

end

end Json

end CoveragePages
