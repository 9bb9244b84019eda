/-
Records that take no other members than their fields. What such a record is read from is told without
its reader: an object that has some of the fields, each once and in any order, or an array of the first
of them. The record is then the one that its fields, one after the other, make of an empty draft.
-/
import CoveragePages.Proofs.Json.Shape

namespace CoveragePages.Json

variable {α δ : Type}

/-- An outline of a record with the given members, all of them among the named fields: an object, or an array of the
first fields in order. An array has all the fields, unless they may be left out. -/
structure IsRecord (names : List String) (lenient : Bool) (members : List (String × Tree)) (t : Tree) : Prop where
  nodup : (members.map (·.1)).Nodup
  known : ∀ m ∈ members, m.1 ∈ names
  outline : t = .object (members.map asMember) .closed ∨
    t = .array (members.map (·.2)) .closed ∧ members.map (·.1) <+: names ∧
      (lenient = true ∨ members.length = names.length)

namespace Shape

variable {shape : Shape δ α} {o o' : Origin}

/-- The names of the fields. -/
def names (shape : Shape δ α) : List String := shape.fields.map (·.name)

end Shape

end CoveragePages.Json
