/-
Globs: patterns for paths. `?` stands for one byte and `*` for any number of them, separators
included; `**` as a whole component stands for any number of components; `[...]` is a class of
bytes, a braced list offers alternatives, and a backslash takes the next character as it is.
-/
import CoveragePages.Glob.Pattern
import CoveragePages.Text.Bytes

namespace CoveragePages

/-! ## Tokens -/

/-- A token of a glob. -/
inductive Glob.Token where
  | literal (c : Char)
  | any
  | zeroOrMore
  /-- `**` at the start, with its separator. -/
  | leadingDirectories
  /-- `**` at the end, with its separator. -/
  | trailingPath
  /-- `**` in the middle, with its separators. -/
  | innerDirectories
  | charClass (negated : Bool) (ranges : List (Char × Char))
  | alternatives (branches : List (List Glob.Token))

/-- A glob: its text and its tokens. -/
structure Glob where
  text : String
  tokens : List Glob.Token

namespace Glob

/-! ## Meaning -/

/-- The byte that parts the components of a path. -/
def separator : Pattern := .bytes (Text.bytes ['/'])

/-- The ranges of bytes that a range of characters stands for. A character is its bytes, and a
range runs from the last byte of its first character to the first byte of its last one. -/
def byteRanges (range : Char × Char) : List (UInt8 × UInt8) :=
  let single (b : UInt8) : UInt8 × UInt8 := (b, b)
  let first := Text.bytes [range.1]
  let last := Text.bytes [range.2]
  if range.1 = range.2 then first.map single
  else match first.reverse, last with
    | b :: before, c :: rest => before.map single ++ (b, c) :: rest.map single
    | _, _ => []

mutual

/-- The pattern of a token. -/
def Token.pattern : Token → Pattern
  | .literal c => .bytes (Text.bytes [c])
  | .any => .one .all
  | .zeroOrMore => .anything
  | .leadingDirectories =>
    .either .empty (.either separator (.row [.anything, separator]))
  | .trailingPath => .row [separator, .anything]
  | .innerDirectories => .either separator (.row [separator, .anything, separator])
  | .charClass negated ranges => .one ⟨negated, ranges.flatMap byteRanges⟩
  | .alternatives branches => .oneOf ((branchPatterns branches).filter (· ≠ .empty))

/-- The pattern of some tokens in a row. -/
def tokensPattern : List Token → Pattern
  | [] => .empty
  | token :: rest => token.pattern.andThen (tokensPattern rest)

/-- The patterns of some alternatives. -/
def branchPatterns : List (List Token) → List Pattern
  | [] => []
  | branch :: rest => tokensPattern branch :: branchPatterns rest

end

/-- The pattern of a glob. Leading directories alone match every path. -/
def pattern (glob : Glob) : Pattern :=
  match glob.tokens with
  | [.leadingDirectories] => .anything
  | tokens => tokensPattern tokens

end Glob

end CoveragePages
