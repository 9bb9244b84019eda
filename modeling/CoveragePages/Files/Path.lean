/-
Paths as bytes. The components of a path are the parts between its slashes; empty parts and single
dots do not count, but for a dot at the very start. Most paths are texts, but the names of a file
system need not be.
-/
import CoveragePages.Text.Bytes
import CoveragePages.Text.Search

namespace CoveragePages

/-- A path, as it is written. -/
structure Path where
  bytes : List UInt8
  deriving DecidableEq

namespace Path

/-- The path with a text. -/
def ofText (text : String) : Path := ⟨Text.bytes text.toList⟩

/-- The path as it is displayed. -/
def text (p : Path) : String := Text.display p.bytes

/-- The most bytes that a path may have. -/
def maxBytes : Nat := 4095

/-- The most bytes that a name in a path may have. -/
def maxNameBytes : Nat := 255

/-- A part of a path between slashes. -/
abbrev Part := List UInt8

/-- The byte between two parts. -/
abbrev slash : UInt8 := 47

/-- The byte before an extension. -/
abbrev dot : UInt8 := 46

/-- The part that stays where it is. -/
abbrev here : Part := [dot]

/-- The part that goes up. -/
abbrev up : Part := [dot, dot]

/-- The name with a text. -/
abbrev nameOf (text : String) : Part := Text.bytes text.toList

/-- Whether the path starts at the root. -/
def isAbsolute (p : Path) : Bool := p.bytes.head? == some slash

/-- The pieces of a path between its slashes. -/
def pieces (p : Path) : List Part := Text.splitOn slash p.bytes

/-- Parts without those at the end that do not count; `leading` says that a dot at the start of the
parts counts. -/
def trimParts (leading : Bool) : List Part → List Part
  | [] => []
  | part :: rest =>
    match trimParts false rest with
    | [] => if part = [] ∨ (part = here ∧ !leading) then [] else [part]
    | rest => part :: rest

/-- The parts of a path after the root, up to its last component. -/
def parts (p : Path) : List Part :=
  if p.isAbsolute then trimParts false p.pieces.tail else trimParts true p.pieces

/-- The path of some parts, from the root or from the current directory. -/
def ofParts (root : Bool) (parts : List Part) : Path :=
  let body := [slash].intercalate parts
  ⟨if root then slash :: body else body⟩

/-- The path of some parts, in place of the parts of this one. -/
def withParts (p : Path) (parts : List Part) : Path := ofParts p.isAbsolute parts

/-- The last component, if it is a name. -/
def fileName? (p : Path) : Option Part :=
  match p.parts.getLast? with
  | some part => if part = here ∨ part = up then none else some part
  | none => none

/-- The path without its last component. -/
def parent? (p : Path) : Option Path :=
  if p.parts = [] then none
  else some (p.withParts (trimParts (!p.isAbsolute) p.parts.dropLast))

/-- A name up to its last dot, unless the dot starts it. -/
def stem (name : Part) : Part :=
  match Text.breakOnLast? dot name with
  | some (before, _) => if before = [] then name else before
  | none => name

/-- The path with the extension of its name replaced, or added. -/
def withExtension (p : Path) (extension : String) : Path :=
  match p.fileName? with
  | none => p
  | some name => p.withParts (p.parts.dropLast ++ [stem name ++ dot :: nameOf extension])

/-- A path taken from another one. -/
def join (base p : Path) : Path :=
  if p.isAbsolute then p
  else if base.bytes = [] then p
  else if base.bytes.getLast? = some slash then ⟨base.bytes ++ p.bytes⟩
  else ⟨base.bytes ++ slash :: p.bytes⟩

/-- The relative path of some names. -/
def ofNames (names : List Part) : Path := ofParts false names

end Path

/-- Where something stands in a file system: the names that lead to it from the root. -/
abbrev Location := List Path.Part

end CoveragePages
