/-
The outline of a JSON text: a tree that keeps what a value drops, such as repeated keys, numbers
that are out of range and the place where the text stops being JSON. Every text has an outline, and
a reader that walks it from left to right meets what is wrong with the text in the order of the
text.
-/
import CoveragePages.Json.Refusal

namespace CoveragePages.Json

/-- Where a text stops being JSON: the fault that a reader reports there, the one that is reported
when the value is only skipped, and the one that is reported when only the name of a variant, or an
object with one, may stand there. -/
structure Break where
  fault : Fault
  skipping : Fault
  naming : Fault

/-- A break with the same fault for every reader. -/
def Break.of (fault : Fault) : Break := ⟨fault, fault, fault⟩

/-- How the outline of an array or object ends: with its bracket, or where the text breaks off
after an item. -/
inductive Ending where
  | closed
  | broken (place : Break)

/-- A number as it is written: it may be too large for any value. -/
inductive Numeral where
  | integer (value : Int)
  | float (value : Binary64)
  | outOfRange

/-- The outline of a value. A string holds its characters, or the fault of an escape that names no
character. A key is a string, or a break. -/
inductive Tree where
  | null
  | bool (value : Bool)
  | number (value : Numeral)
  | string (value : Except Fault String)
  | array (items : List Tree) (ending : Ending)
  | object (members : List (Tree × Tree)) (ending : Ending)
  | broken (place : Break)

namespace Tree

/-! ## Outlines of values -/

mutual

/-- The outline of a value. -/
def ofJson : Json → Tree
  | .null => null
  | .bool b => bool b
  | .integer i => number (.integer i)
  | .float x => number (.float x)
  | .string s => string (.ok s)
  | .array items => array (ofItems items) .closed
  | .object members => object (ofMembers members) .closed

/-- The outlines of the items of an array. -/
def ofItems : List Json → List Tree
  | [] => []
  | item :: rest => ofJson item :: ofItems rest

/-- The outlines of the members of an object. -/
def ofMembers : List (String × Json) → List (Tree × Tree)
  | [] => []
  | (key, value) :: rest => (string (.ok key), ofJson value) :: ofMembers rest

end

/-! ## What stands in a place -/

/-- The refusal of an outline where something else is expected. A scalar is read to its end before
it is refused. -/
def unexpected (expected : String) : Tree → Refusal
  | null => .mismatch (.wrongType .null expected)
  | bool b => .mismatch (.wrongType (.bool b) expected)
  | number (.integer i) => .mismatch (.wrongType (.integer i) expected)
  | number (.float x) => .mismatch (.wrongType (.float x) expected)
  | number .outOfRange => .fault .numberOutOfRange
  | string (.ok s) => .mismatch (.wrongType (.string s) expected)
  | string (.error fault) => .fault fault
  | array _ _ => .mismatch (.wrongType .sequence expected)
  | object _ _ => .mismatch (.wrongType .map expected)
  | broken b => .fault b.fault

def readKey : Tree → Except Refusal String
  | string (.ok s) => .ok s
  | string (.error fault) => .error (.fault fault)
  | broken b => .error (.fault b.fault)
  | _ => .error (.fault .keyNotString)

end Tree

/-- The end of an array or object, when its items have been read. -/
def Ending.read : Ending → Except Refusal Unit
  | .closed => .ok ()
  | .broken b => .error (.fault b.fault)

/-- The end of an array or object, when its items have been skipped. -/
def Ending.skip : Ending → Except Refusal Unit
  | .closed => .ok ()
  | .broken b => .error (.fault b.skipping)

namespace Tree

mutual

/-- Passes over a value. Its numbers may be out of range and its escapes may name no character. -/
def skip : Tree → Except Refusal Unit
  | array items ending => do skipItems items; ending.skip
  | object members ending => do skipMembers members; ending.skip
  | broken b => .error (.fault b.skipping)
  | null | bool _ | number _ | string _ => .ok ()

/-- Passes over the items of an array. -/
def skipItems : List Tree → Except Refusal Unit
  | [] => .ok ()
  | item :: rest => do skip item; skipItems rest

/-- Passes over the members of an object. -/
def skipMembers : List (Tree × Tree) → Except Refusal Unit
  | [] => .ok ()
  | (key, value) :: rest => do skip key; skip value; skipMembers rest

end

end Tree

end CoveragePages.Json
