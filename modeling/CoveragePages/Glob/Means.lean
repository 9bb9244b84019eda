/-
How a path is tested against a glob. Many globs only ask for a text, or for a text at the start or
end of a path, or for the name or extension of its last component; the others need their pattern.
A path that ends in `..` has no name, so globs that are tested by the name never match it.
-/
import CoveragePages.Files.Path
import CoveragePages.Glob.Basic

namespace CoveragePages.Glob

/-! ## Means -/

/-- By what means a path is tested against a glob. -/
inductive Means where
  /-- By a text that the path is, starts with or ends with. -/
  | text
  /-- By the name of the path, or its extension. -/
  | name
  /-- By the extension of the path, and then by the pattern. -/
  | nameAndPattern
  /-- By the pattern. -/
  | pattern
  deriving DecidableEq

/-- The text of tokens that are all literal. -/
def literalText? : List Token → Option (List Char)
  | [] => some []
  | .literal c :: rest => return c :: (← literalText? rest)
  | _ :: _ => none

/-- Whether tokens, given from the last one on, end in an extension: a dot, and then literal
characters of the same component. -/
def endsInExtension : List Token → Bool
  | .literal c :: rest => c == '.' || (c != '/' && endsInExtension rest)
  | _ => false

/-- Whether tokens, given from the last one on, are a literal text and then anything. -/
def isOpenText : List Token → Bool
  | .zeroOrMore :: before | .trailingPath :: before => (literalText? before).isSome
  | _ => false

/-- The means for a star before a literal text. An extension has one dot, its first character. -/
def starMeans : List Char → Means
  | [] | ['/'] => .pattern
  | '.' :: rest => if '.' ∈ rest ∨ '/' ∈ rest then .text else .name
  | _ => .text

/-- The means for a literal text, which may stand behind leading directories. -/
def literalMeans (leading : Bool) (text : List Char) : Means :=
  if text = [] then .pattern
  else if leading ∧ '/' ∉ text then .name
  else .text

/-- The means for tokens that are neither a literal text nor a star before one. -/
def mixedMeans (tokens : List Token) : Means :=
  if isOpenText tokens.reverse then .text
  else if endsInExtension tokens.reverse then .nameAndPattern
  else .pattern

/-- By what means a path is tested against the glob. -/
def means (glob : Glob) : Means :=
  let (leading, body) := match glob.tokens with
    | .leadingDirectories :: body => (true, body)
    | body => (false, body)
  match literalText? body, body with
  | some text, _ => literalMeans leading text
  | none, .zeroOrMore :: rest => match literalText? rest with
    | some text => starMeans text
    | none => mixedMeans glob.tokens
  | none, _ => mixedMeans glob.tokens

/-- Whether the means need a path that has a name. -/
def Means.needName : Means → Bool
  | name | nameAndPattern => true
  | text | pattern => false

/-! ## Matching -/

/-- Whether the last component of a path is a name. -/
def hasName (path : Path) : Bool := path.pieces.getLast? != some Path.up

/-- Whether the glob matches a whole path. -/
def matchesPath (glob : Glob) (path : Path) : Bool :=
  (hasName path || !glob.means.needName) && glob.pattern.matchesBytes path.bytes

end CoveragePages.Glob
