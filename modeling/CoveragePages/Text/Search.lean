/-
Finding and replacing parts of a text, as lists of characters. Splitting does for lists of any kind,
such as the bytes of a path.
-/

namespace CoveragePages.Text

/-- Splits a text at the first place where a pattern stands, into what is before it and what is
after it. -/
def breakOn? (pattern : List Char) : List Char → Option (List Char × List Char)
  | [] => if pattern = [] then some ([], []) else none
  | c :: cs =>
    if pattern.isPrefixOf (c :: cs) then some ([], (c :: cs).drop pattern.length)
    else (breakOn? pattern cs).map fun (before, after) => (c :: before, after)

section

variable {α : Type} [DecidableEq α]

/-- Splits a text at every place where a character stands. -/
def splitOn (separator : α) : List α → List (List α)
  | [] => [[]]
  | c :: cs =>
    if c = separator then [] :: splitOn separator cs
    else match splitOn separator cs with
      | [] => [[c]]
      | part :: parts => (c :: part) :: parts

/-- Splits a text at the last place where a character stands. -/
def breakOnLast? (separator : α) (cs : List α) : Option (List α × List α) :=
  if separator ∈ cs then
    let after := (cs.reverse.takeWhile (· ≠ separator)).reverse
    some (cs.take (cs.length - after.length - 1), after)
  else none

end

/-- Replaces a character by a text wherever it stands. -/
def replaceChar (old : Char) (new : List Char) (cs : List Char) : List Char :=
  cs.flatMap fun c => if c = old then new else [c]

/-- What follows a pattern at the start of a text, if the pattern is there. -/
def dropStart? (pattern cs : List Char) : Option (List Char) :=
  if pattern.isPrefixOf cs then some (cs.drop pattern.length) else none

/-- A text without the pattern at its end, if the pattern is there. -/
def dropEnd? (pattern cs : List Char) : Option (List Char) :=
  if pattern.isSuffixOf cs then some (cs.take (cs.length - pattern.length)) else none

/-- Texts joined by a separator. -/
def join (separator : String) : List String → String
  | [] => ""
  | [s] => s
  | s :: rest => s ++ separator ++ join separator rest

end CoveragePages.Text
