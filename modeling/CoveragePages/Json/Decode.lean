/-
Readers of typed values. A reader walks an outline from left to right and stops at the first thing
that is wrong, be it a fault of the text or a mismatch of shape. Records are read by their `Shape`,
from an object or from an array of their fields in order.
-/
import CoveragePages.Json.Scan

namespace CoveragePages.Json

/-! ## Where an outline comes from -/

/-- Where an outline comes from: a text, with the nesting depth it may still have, or a value that
was read before. -/
inductive Origin where
  | text (depth : Nat)
  | value

/-- The deepest nesting that a text may have. -/
def maxDepth : Nat := 127

/-- The origin of the items of an array or object. -/
def Origin.enter : Origin → Except Refusal Origin
  | text 0 => .error (.fault .tooDeep)
  | text (depth + 1) => .ok (text depth)
  | value => .ok value

/-- A reader of values of a type. -/
abbrev Reader (α : Type) := Origin → Tree → Except Refusal α

/-! ## Scalars -/

/-- Reads a string. -/
def readString : Reader String
  | _, .string (.ok s) => .ok s
  | _, t => .error (t.unexpected "a string")

/-- Reads a natural number below a limit. -/
def readNat (limit : Nat) (expected : String) : Reader Nat
  | _, .number (.integer i) =>
    if 0 ≤ i ∧ i < limit then .ok i.toNat
    else .error (.mismatch (.wrongValue (.integer i) expected))
  | _, t => .error (t.unexpected expected)

/-- Reads a number. -/
def readFloat : Reader Binary64
  | _, .number (.integer i) => .ok (Binary64.ofInt i)
  | _, .number (.float x) => .ok x
  | _, t => .error (t.unexpected "f64")

/-- Reads `null`. -/
def readUnit : Reader Unit
  | _, .null => .ok ()
  | _, t => .error (t.unexpected "unit")

/-- Reads a value that may be `null`. -/
def readOption {α : Type} (read : Reader α) : Reader (Option α)
  | _, .null => .ok none
  | origin, t => return some (← read origin t)

/-! ## Lists -/

/-- Reads the items of a list, then its end. -/
def readItems {α : Type} (read : Reader α) (origin : Origin) (ending : Ending) :
    List Tree → Except Refusal (List α)
  | [] => do ending.read; return []
  | item :: rest => do return (← read origin item) :: (← readItems read origin ending rest)

/-- Reads a list. -/
def readList {α : Type} (read : Reader α) : Reader (List α)
  | origin, .array items ending => do readItems read (← origin.enter) ending items
  | _, t => .error (t.unexpected "a sequence")

/-! ## Values of any shape -/

mutual

/-- Reads a value of any shape. -/
def readAny (origin : Origin) : Tree → Except Refusal Json
  | .array items ending => do
    let values ← readAnyItems (← origin.enter) items
    ending.read
    return .array values
  | .object members ending => do
    let values ← readAnyMembers (← origin.enter) members []
    ending.read
    return .object values
  | .null => .ok .null
  | .bool b => .ok (.bool b)
  | .number (.integer i) => .ok (.integer i)
  | .number (.float x) => .ok (.float x)
  | .number .outOfRange => .error (.fault .numberOutOfRange)
  | .string (.ok s) => .ok (.string s)
  | .string (.error f) => .error (.fault f)
  | .broken b => .error (.fault b.fault)

/-- Reads the items of an array of any shape. -/
def readAnyItems (origin : Origin) : List Tree → Except Refusal (List Json)
  | [] => .ok []
  | item :: rest => do return (← readAny origin item) :: (← readAnyItems origin rest)

/-- Reads the members of an object of any shape; of two under one key the later one counts. -/
def readAnyMembers (origin : Origin) :
    List (Tree × Tree) → Dict Json → Except Refusal (Dict Json)
  | [], d => .ok d
  | (key, value) :: rest, d => do
    let key ← key.readKey
    let value ← readAny origin value
    readAnyMembers origin rest (Dict.insert d key value)

end

/-- Reads an object of any shape. -/
def readObject : Reader (Dict Json)
  | origin, .object members ending => do
    let values ← readAnyMembers (← origin.enter) members []
    ending.read
    return values
  | _, t => .error (t.unexpected "a map")

/-! ## Variants -/

/-- The meaning of the name of a variant. -/
def variant {α : Type} (variants : Dict α) (name : String) : Except Refusal α :=
  match variants.lookup name with
  | some a => .ok a
  | none => .error (.mismatch (.unknownVariant name (variants.map (·.1))))

/-- The end of an object that holds nothing but a variant. -/
def readVariantEnd (others : List (Tree × Tree)) (ending : Ending) : Except Refusal Unit :=
  match others, ending with
  | [], .closed => .ok ()
  | [], .broken b => .error (.fault (if b.fault.isEarlyEnd then .endOfObject else .noValue))
  | _ :: _, _ => .error (.fault .noValue)

/-- Reads one of some named variants: its name, or an object with `null` under its name. -/
def readVariant {α : Type} (variants : Dict α) : Reader α
  | _, .string (.ok name) => variant variants name
  | _, .string (.error f) => .error (.fault f)
  | _, .broken b => .error (.fault b.naming)
  | origin, .object ((key, value) :: others) ending => do
    let origin ← origin.enter
    let a ← variant variants (← key.readKey)
    readUnit origin value
    readVariantEnd others ending
    return a
  | origin, .object [] ending => do
    let _ ← origin.enter
    match ending with
    | .closed => .error (.fault .noValue)
    | .broken _ => .error (.fault .endOfValue)
  | _, _ => .error (.fault .noValue)

/-! ## Records -/

/-- A field of a record: its name, and how its value is read into a draft of the record. -/
structure Field (δ : Type) where
  name : String
  read : Origin → Tree → δ → Except Refusal δ

/-- A field that is read by a reader and stored by a setter. -/
def Field.of {α δ : Type} (name : String) (read : Reader α) (store : δ → α → δ) : Field δ :=
  ⟨name, fun origin t draft => return store draft (← read origin t)⟩

/-- How a record is read: from an empty draft, field by field. -/
structure Shape (δ α : Type) where
  /-- The record's name in messages. -/
  title : String
  fields : List (Field δ)
  empty : δ
  /-- The record of a draft, when no required field is missing. -/
  finish : δ → Except Mismatch α
  /-- Whether unknown fields are refused. -/
  strict : Bool
  /-- Whether every field may be left out. -/
  lenient : Bool
  /-- Whether the record may be an object; if not, it is always an array. -/
  named : Bool

namespace Shape

variable {α δ : Type}

/-- The record of a draft. -/
def complete (shape : Shape δ α) (draft : δ) : Except Refusal α :=
  match shape.finish draft with
  | .ok a => .ok a
  | .error m => .error (.mismatch m)

/-- Reads the fields of an array in order, as long as both last. -/
def readFields (shape : Shape δ α) (origin : Origin) (ending : Ending) (length : Nat) :
    List (Field δ) → List Tree → δ → Except Refusal α
  | [], [], draft => do ending.read; shape.complete draft
  | [], _ :: _, _ => match origin with
    | .text _ => .error (.fault .trailingCharacters)
    | .value => .error (.mismatch (.wrongLength length "fewer elements in array"))
  | _ :: _, [], draft => do
    ending.read
    if shape.lenient then shape.complete draft
    else .error (.mismatch (.wrongLength length
      (shape.title ++ " with " ++ toString shape.fields.length ++ " elements")))
  | field :: fields, item :: items, draft => do
    let draft ← field.read origin item draft
    readFields shape origin ending length fields items draft

/-- Reads the members of an object; each field may come once. -/
def readMembers (shape : Shape δ α) (origin : Origin) :
    List (Tree × Tree) → List String → δ → Except Refusal δ
  | [], _, draft => .ok draft
  | (key, value) :: rest, seen, draft => do
    let name ← key.readKey
    match shape.fields.find? (·.name == name) with
    | some field =>
      if name ∈ seen then .error (.mismatch (.duplicateField name))
      else
        let draft ← field.read origin value draft
        readMembers shape origin rest (name :: seen) draft
    | none =>
      if shape.strict then
        .error (.mismatch (.unknownField name (shape.fields.map (·.name))))
      else do
        value.skip
        readMembers shape origin rest seen draft

def read (shape : Shape δ α) : Reader α
  | origin, .array items ending => do
    shape.readFields (← origin.enter) ending items.length shape.fields items shape.empty
  | origin, .object members ending =>
    if shape.named then do
      let draft ← shape.readMembers (← origin.enter) members [] shape.empty
      ending.read
      shape.complete draft
    else .error ((Tree.object members ending).unexpected shape.title)
  | _, t => .error (t.unexpected shape.title)

end Shape

/-- The value of a required field. -/
def required {α : Type} (name : String) : Option α → Except Mismatch α
  | some a => .ok a
  | none => .error (.missingField name)

/-! ## Entry points -/

/-- Reads a text. -/
def readText {α : Type} (read : Reader α) (text : String) : Except Refusal α := do
  let outlined := outline text.toList
  let a ← read (.text maxDepth) outlined.root
  if outlined.trailing then .error (.fault .trailingCharacters) else .ok a

/-- Reads a value that was read before. -/
def readValue {α : Type} (read : Reader α) (value : Json) : Except Refusal α :=
  read .value (Tree.ofJson value)

/-- Reads a text as a value of any shape. -/
def parse (text : String) : Except Refusal Json := readText readAny text

end CoveragePages.Json
