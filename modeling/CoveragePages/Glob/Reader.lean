/-
Reading globs. The reader goes over the text once, keeping the groups of alternatives that are open
and the last character it passed, which decides what `**` means.
-/
import CoveragePages.Glob.Basic

namespace CoveragePages.Glob

/-! ## Refusals -/

/-- Why a text is not a glob. -/
inductive Flaw where
  | unclosedClass
  | badRange (first last : Char)
  | unopenedGroup
  | unclosedGroup
  | danglingEscape
  | endless
  deriving DecidableEq

def Flaw.message : Flaw → String
  | .unclosedClass => "unclosed character class; missing ']'"
  | .badRange first last =>
    "invalid range; '" ++ String.singleton first ++ "' > '" ++ String.singleton last ++ "'"
  | .unopenedGroup =>
    "unopened alternate group; missing '\x7b' (maybe escape '\x7d' with '[\x7d]'?)"
  | .unclosedGroup =>
    "unclosed alternate group; missing '\x7d' (maybe escape '\x7b' with '[\x7b]'?)"
  | .danglingEscape => "dangling '\\'"
  | .endless => "tokens do not end"

/-- A text and its flaw. -/
structure Refusal where
  text : String
  flaw : Flaw
  deriving DecidableEq

def Refusal.message (r : Refusal) : String :=
  "error parsing glob '" ++ r.text ++ "': " ++ r.flaw.message

/-! ## Classes -/

/-- Closes the last range of a class with a character. The ranges come latest first. -/
def closeRange (c : Char) : List (Char × Char) → Except Flaw (List (Char × Char))
  | [] => .ok [(c, c)]
  | (first, _) :: rest =>
    if c < first then .error (.badRange first c) else .ok ((first, c) :: rest)

/-- Reads the members of a class, up to its bracket. A bracket or dash at the start is a member,
and so is a dash at the end. -/
def readMembers (first inRange : Bool) (ranges : List (Char × Char)) :
    List Char → Except Flaw (List (Char × Char) × List Char)
  | [] => .error .unclosedClass
  | c :: rest =>
    if c = ']' ∧ !first then
      let ranges := if inRange then ('-', '-') :: ranges else ranges
      .ok (ranges.reverse, rest)
    else if c = '-' ∧ !first ∧ !inRange then readMembers false true ranges rest
    else if inRange then do
      readMembers false false (← closeRange c ranges) rest
    else readMembers false false ((c, c) :: ranges) rest

/-- Reads a class after its opening bracket. -/
def readClass (cs : List Char) : Except Flaw (Token × List Char) := do
  let (negated, cs) := match cs with
    | '!' :: rest | '^' :: rest => (true, rest)
    | cs => (false, cs)
  let (ranges, rest) ← readMembers true false [] cs
  return (.charClass negated ranges, rest)

/-! ## Groups -/

/-- The branches of a group that is being read; the tokens of the last one come latest first. -/
structure Group where
  done : List (List Token)
  tokens : List Token

/-- What has been read: the innermost open group, and those around it. The outermost one is the
glob itself. -/
structure Reading where
  here : Group
  around : List Group
  /-- The last character passed. -/
  last : Option Char

namespace Reading

/-- The start of a reading. -/
def start : Reading := ⟨⟨[], []⟩, [], none⟩

/-- Adds a token. -/
def push (r : Reading) (t : Token) : Reading :=
  { r with here := { r.here with tokens := t :: r.here.tokens } }

/-- Replaces the last token. -/
def replaceLast (r : Reading) (t : Token) : Reading :=
  { r with here := { r.here with tokens := t :: r.here.tokens.tail } }

/-- Notes the last character passed. -/
def pass (r : Reading) (c : Char) : Reading := { r with last := some c }

/-- Opens a group. -/
def openGroup (r : Reading) : Reading :=
  { r with here := ⟨[], []⟩, around := r.here :: r.around }

/-- Starts the next branch of the open group. -/
def nextBranch (r : Reading) : Reading :=
  { r with here := ⟨r.here.done ++ [r.here.tokens.reverse], []⟩ }

/-- Closes the open group. -/
def closeGroup (r : Reading) : Except Flaw Reading :=
  match r.around with
  | [] => .error .unopenedGroup
  | outer :: around =>
    let branches := r.here.done ++ [r.here.tokens.reverse]
    .ok ({ r with here := outer, around := around }.push (.alternatives branches))

/-- Whether a group is open. -/
def inGroup (r : Reading) : Bool := !r.around.isEmpty

/-- Adds two stars that are no component of their own. -/
def pushTwoStars (r : Reading) : Reading := (r.push .zeroOrMore).push .zeroOrMore

/-- Adds `**` after other tokens, where it is a component of its own: the separator before it has
been added as a token already. -/
def pushComponent (r : Reading) (atEnd : Bool) : Reading :=
  match r.here.tokens with
  | .leadingDirectories :: _ => r
  | .trailingPath :: _ => r
  | _ => r.replaceLast (if atEnd then .trailingPath else .innerDirectories)

/-- Reads `**` after its two stars, given the character before them. -/
def readStars (r : Reading) (before : Option Char) (cs : List Char) : Reading × List Char :=
  let r := r.pass '*'
  if r.here.tokens.isEmpty then
    match cs with
    | [] => (r.push .leadingDirectories, [])
    | '/' :: rest => ((r.push .leadingDirectories).pass '/', rest)
    | cs => (r.pushTwoStars, cs)
  else if before ≠ some '/' ∧ !(r.inGroup && (before == some ',' || before == some '\x7b')) then
    (r.pushTwoStars, cs)
  else match cs with
    | [] => (r.pushComponent true, [])
    | '/' :: rest => ((r.pushComponent false).pass '/', rest)
    | c :: rest =>
      if r.inGroup ∧ (c = ',' ∨ c = '\x7d') then (r.pushComponent true, c :: rest)
      else (r.pushTwoStars, c :: rest)

/-- Reads one token or delimiter, whose first character is given. -/
def readNext (r : Reading) (c : Char) (cs : List Char) : Except Flaw (Reading × List Char) :=
  match c with
  | '?' => .ok ((r.push .any).pass c, cs)
  | '*' =>
    match cs with
    | '*' :: rest => .ok (r.readStars r.last rest)
    | cs => .ok ((r.push .zeroOrMore).pass c, cs)
  | '[' => do
    let (t, rest) ← readClass cs
    return ((r.push t).pass ']', rest)
  | '\x7b' => .ok (r.openGroup.pass c, cs)
  | '\x7d' => do return ((← r.closeGroup).pass c, cs)
  | ',' => .ok ((if r.inGroup then r.nextBranch else r.push (.literal c)).pass c, cs)
  | '\\' =>
    match cs with
    | [] => .error .danglingEscape
    | d :: rest => .ok ((r.push (.literal d)).pass d, rest)
  | c => .ok ((r.push (.literal c)).pass c, cs)

/-- Reads a text. Each round passes a character, so as much fuel as the text is long is enough. -/
def readAll : Nat → Reading → List Char → Except Flaw Reading
  | _, r, [] => .ok r
  | 0, _, _ :: _ => .error .endless
  | fuel + 1, r, c :: cs => do
    let (r, rest) ← r.readNext c cs
    readAll fuel r rest

end Reading

/-- Reads a glob. -/
def parse (text : String) : Except Refusal Glob :=
  match Reading.readAll text.length .start text.toList with
  | .error flaw => .error ⟨text, flaw⟩
  | .ok r =>
    if r.inGroup then .error ⟨text, .unclosedGroup⟩
    else .ok ⟨text, r.here.tokens.reverse⟩

end CoveragePages.Glob
