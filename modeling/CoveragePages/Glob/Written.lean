/-
Globs written out as patterns over bytes. What is written nests: a group, a choice, a class, a
repetition and several items in a row each hold what they are made of one level deeper, and a
pattern that nests too deep is not accepted.
-/
import CoveragePages.Glob.Means

namespace CoveragePages.Glob

/-! ## Writing -/

/-- A piece of a written pattern. -/
structure Written where
  /-- Puts the piece before a text. -/
  write : List Char → List Char
  /-- How many items stand in a row. -/
  items : Nat
  /-- How deep the deepest item nests. -/
  depth : Nat

namespace Written

/-- Nothing written. -/
def nothing : Written := ⟨id, 0, 0⟩

/-- One item, as a text. -/
def item (text : String) (depth : Nat) : Written := ⟨(text.toList ++ ·), 1, depth⟩

/-- One piece after another. -/
def andThen (w v : Written) : Written := ⟨w.write ∘ v.write, w.items + v.items, max w.depth v.depth⟩

/-- Some pieces in a row. -/
def row (pieces : List Written) : Written := pieces.foldr andThen nothing

/-- How deep the piece nests as a whole. -/
def nesting (w : Written) : Nat := if 1 < w.items then w.depth + 1 else w.depth

/-- Puts some branches before a text, with bars between them. -/
def writeBranches : List Written → List Char → List Char
  | [], after => after
  | [w], after => w.write after
  | w :: rest, after => w.write ('|' :: writeBranches rest after)

/-- A group of branches. A group of nothing is nothing. -/
def group (branches : List Written) : Written :=
  let write (after : List Char) := "(?:".toList ++ writeBranches branches (')' :: after)
  match branches with
  | [] => nothing
  | [w] => ⟨write, 1, w.nesting + 1⟩
  | ws => ⟨write, 1, (ws.map nesting).foldl max 0 + 2⟩

end Written

/-- The characters that are written behind a backslash. -/
def specialCharacters : List Char :=
  ['\\', '.', '+', '*', '?', '(', ')', '|', '[', ']', '\x7b', '\x7d', '^', '$', '#', '&', '-', '~']

/-- The text of one byte. -/
def byteText (b : UInt8) : List Char :=
  if b < 0x80 then
    let c := Char.ofNat b.toNat
    if c ∈ specialCharacters then ['\\', c] else [c]
  else '\\' :: 'x' :: Nat.toDigits 16 b.toNat

/-- The text of a character, byte by byte. -/
def charText (c : Char) : List Char := (Text.bytes [c]).flatMap byteText

/-- The text of a range of characters. -/
def rangeText (range : Char × Char) : List Char :=
  if range.1 = range.2 then charText range.1
  else charText range.1 ++ '-' :: charText range.2

/-- A class as it is written. Its members nest deeper if there are several. -/
def writtenClass (negated : Bool) (ranges : List (Char × Char)) : Written :=
  let start := if negated then ['[', '^'] else ['[']
  .item (String.ofList (start ++ ranges.flatMap rangeText ++ [']']))
    (if 1 < (ranges.flatMap byteRanges).length then 2 else 1)

mutual

/-- A token as it is written. -/
def Token.written : Token → Written
  | .literal c => .row ((Text.bytes [c]).map fun b => .item (String.ofList (byteText b)) 0)
  | .any => .item "." 0
  | .zeroOrMore => .item ".*" 1
  | .leadingDirectories => .item "(?:/?|.*/)" 4
  | .trailingPath => .andThen (.item "/" 0) (.item ".*" 1)
  | .innerDirectories => .item "(?:/|/.*/)" 4
  | .charClass negated ranges => writtenClass negated ranges
  | .alternatives branches => .group ((writtenBranches branches).filter fun w => 0 < w.items)

/-- Some tokens as they are written in a row. -/
def writtenTokens : List Token → Written
  | [] => .nothing
  | token :: rest => token.written.andThen (writtenTokens rest)

/-- Some alternatives as they are written. -/
def writtenBranches : List (List Token) → List Written
  | [] => []
  | branch :: rest => writtenTokens branch :: writtenBranches rest

end

/-- The glob as it is written: bytes, not characters, and from the start of a path to its end.
Leading directories alone match every path. -/
def written (glob : Glob) : Written :=
  let body := match glob.tokens with
    | [.leadingDirectories] => Token.zeroOrMore.written
    | tokens => writtenTokens tokens
  .row [.item "(?-u)" 0, .item "^" 0, body, .item "$" 0]

/-! ## Nesting -/

/-- How deep a written pattern may nest. -/
def maxNesting : Nat := 250

/-- Whether the glob's pattern nests too deep. -/
def tooDeep (glob : Glob) : Bool := maxNesting < glob.written.nesting

/-- Why globs are not accepted together. The patterns of globs that are tested by the pattern alone
are read in one go, and counted; those of globs that are tested by an extension first are read
before them, each on its own. -/
inductive SetRefusal where
  | tooDeep (index : Nat)
  | tooDeepAlone (written : String)
  deriving DecidableEq

/-- What is said of a pattern that nests too deep. -/
def unreadPattern (index : Nat) : String := "error parsing pattern " ++ toString index

def SetRefusal.message : SetRefusal → String
  | tooDeep index => unreadPattern index
  | tooDeepAlone written => "error parsing glob '" ++ written ++ "': " ++ unreadPattern 0

/-- Accepts globs of which no pattern that is used nests too deep. -/
def checkNesting (globs : List Glob) : Except SetRefusal Unit :=
  match (globs.filter (·.means = .nameAndPattern)).find? tooDeep with
  | some glob => .error (.tooDeepAlone (String.ofList (glob.written.write [])))
  | none => match (globs.filter (·.means = .pattern)).findIdx? tooDeep with
    | some index => .error (.tooDeep index)
    | none => .ok ()

end CoveragePages.Glob
