/-
Patterns over bytes, and which byte strings they match. Matching marks positions of the string, from
its start to its end: a pattern takes the positions where it may start to those where it may stop.
-/

namespace CoveragePages.Glob

/-- A set of bytes: those in some closed ranges, or all others. -/
structure ByteSet where
  negated : Bool
  ranges : List (UInt8 × UInt8)
  deriving DecidableEq

namespace ByteSet

/-- The set of all bytes. -/
def all : ByteSet := ⟨true, []⟩

/-- The set of one byte. -/
def singleton (b : UInt8) : ByteSet := ⟨false, [(b, b)]⟩

/-- Whether a byte is in the set. -/
def contains (s : ByteSet) (b : UInt8) : Bool :=
  (s.ranges.any fun r => r.1 ≤ b && b ≤ r.2) != s.negated

end ByteSet

/-- A pattern over bytes. -/
inductive Pattern where
  /-- Only the empty string. -/
  | empty
  /-- One byte of a set. -/
  | one (set : ByteSet)
  /-- Any string. -/
  | anything
  | seq (first second : Pattern)
  | either (left right : Pattern)
  deriving DecidableEq

namespace Pattern

/-! ## Building -/

/-- One pattern after the other. -/
def andThen : Pattern → Pattern → Pattern
  | empty, q => q
  | p, empty => p
  | p, q => seq p q

/-- Some patterns in a row. -/
def row (patterns : List Pattern) : Pattern := patterns.foldr andThen empty

/-- The pattern of one byte string. -/
def bytes (bs : List UInt8) : Pattern := row (bs.map fun b => one (.singleton b))

/-- One of some patterns; the empty string if there are none. -/
def oneOf : List Pattern → Pattern
  | [] => empty
  | [p] => p
  | p :: rest => either p (oneOf rest)

/-! ## Matching -/

/-- The positions from the first marked one on; `seen` says that one was marked before. -/
def markOnward (seen : Bool) : List Bool → List Bool
  | [] => []
  | mark :: marks => (seen || mark) :: markOnward (seen || mark) marks

/-- The positions of a byte string where the pattern may stop, given those where it may start. A
string has one position more than bytes. -/
def stops (bs : List UInt8) : Pattern → List Bool → List Bool
  | empty, starts => starts
  | one set, starts => false :: List.zipWith (fun mark b => mark && set.contains b) starts bs
  | anything, starts => markOnward false starts
  | seq p q, starts => q.stops bs (p.stops bs starts)
  | either p q, starts => List.zipWith or (p.stops bs starts) (q.stops bs starts)

/-- Whether the pattern matches a whole byte string. -/
def matchesBytes (p : Pattern) (bs : List UInt8) : Bool :=
  (p.stops bs (true :: bs.map fun _ => false)).getLast? == some true

end Pattern

end CoveragePages.Glob
