/-
Reading data scripts: statements `var NAME = VALUE;`, whose values are JSON that may have a comma
before a closing bracket. Positions are numbers of bytes, and the texts between them are checked
slices: a slice off a character boundary would be an error of its own.
-/
import CoveragePages.Json.Decode
import CoveragePages.Script.Scan

namespace CoveragePages.Script

/-! ## Refusals -/

/-- Why a text is not read as a script. -/
inductive Refusal where
  | noKeyword (line : Nat) (found : String)
  | noName (line : Nat)
  | noEquals (name : String) (line : Nat)
  | unterminated (name : String)
  | badValue (name : String) (line : Nat) (cause : Json.Refusal)
  /-- A slice that leaves the text or cuts a character. -/
  | badSlice (start stop : Nat)
  /-- Statements that do not come to an end. -/
  | endless

/-- The text of a refusal, without its cause. -/
def Refusal.message : Refusal → String
  | noKeyword line found =>
    "expected `var` at line " ++ toString line ++ ", found " ++ Text.quoted found
  | noName line => "expected variable name at line " ++ toString line
  | noEquals name line => "expected `=` after `" ++ name ++ "` at line " ++ toString line
  | unterminated name => "unterminated value for `" ++ name ++ "`"
  | badValue name line _ => "invalid value for `" ++ name ++ "` at line " ++ toString line
  | badSlice start stop => "no slice from " ++ toString start ++ " to " ++ toString stop
  | endless => "statements do not end"

/-! ## Places in a script -/

/-- A script as characters and as bytes. -/
structure Source where
  chars : List Char
  bytes : List UInt8
  /-- How many bytes there are. -/
  size : Nat := bytes.length
  size_eq : size = bytes.length := by rfl

/-- The script of a text. -/
def Source.of (text : String) : Source :=
  { chars := text.toList, bytes := Text.bytes text.toList }

namespace Source

/-- The byte offset at which the bytes that are left start. -/
def offset (source : Source) (left : List UInt8) : Nat := source.size - left.length

/-- The text between two places, each given by what is left from there on. -/
def between (source : Source) (start stop : List UInt8) : Except Refusal (List Char) :=
  let a := source.offset start
  let b := source.offset stop
  match Text.slice? source.chars a b with
  | some cs => .ok cs
  | none => .error (.badSlice a b)

/-- The line, counted from one, of a place. -/
def lineOf (source : Source) (left : List UInt8) : Except Refusal Nat := do
  return (← source.between source.bytes left).count '\n' + 1

/-- The first characters from a place on, for messages. -/
def snippet (source : Source) (left : List UInt8) : Except Refusal String := do
  return String.ofList ((← source.between left []).take 16)

end Source

/-! ## Statements -/

/-- A variable and its value. -/
abbrev Assignment := String × Json

/-- The keywords that start a statement. -/
def keywords : List String := ["var", "let", "const"]

/-- Reads one statement up to the end of its value. -/
def readStatement (source : Source) (left : List UInt8) :
    Except Refusal (Assignment × List UInt8) := do
  let afterKeyword := skipName left
  let keyword ← source.between left afterKeyword
  if String.ofList keyword ∉ keywords then
    .error (.noKeyword (← source.lineOf left) (← source.snippet left))
  else
    let nameStart := skipTrivia afterKeyword
    let afterName := skipName nameStart
    if afterName.length = nameStart.length then .error (.noName (← source.lineOf nameStart))
    else
      let name := String.ofList (← source.between nameStart afterName)
      match skipTrivia afterName with
      | [] => .error (.noEquals name (← source.lineOf []))
      | b :: valueStart =>
        if b ≠ byte '=' then .error (.noEquals name (← source.lineOf (b :: valueStart)))
        else
          match skipValue? valueStart with
          | none => .error (.unterminated name)
          | some afterValue =>
            let raw ← source.between valueStart afterValue
            match Json.parse (String.ofList (Text.trim (dropTrailingCommas raw))) with
            | .ok value => return ((name, value), afterValue)
            | .error cause => .error (.badValue name (← source.lineOf valueStart) cause)

/-- Reads all statements. Each round takes at least one byte, so as much fuel as there are bytes,
and one, is enough. -/
def readStatements (source : Source) : Nat → List UInt8 → Except Refusal (List Assignment)
  | 0, _ => .error .endless
  | fuel + 1, left =>
    match skipTrivia left with
    | [] => .ok []
    | b :: rest =>
      if b = byte ';' then readStatements source fuel rest
      else do
        let (assignment, left) ← readStatement source (b :: rest)
        return assignment :: (← readStatements source fuel left)

/-- The assignments of a script, in order. -/
def parse (text : String) : Except Refusal (List Assignment) :=
  let source := Source.of text
  readStatements source (source.size + 1) source.bytes

/-! ## Telling scripts from documents -/

/-- What follows the trivia at the start of a script, if that is a slice. -/
def afterTrivia? (text : String) : Option (List Char) :=
  let source := Source.of text
  Text.dropBytes? source.chars (source.offset (skipTrivia source.bytes))

/-- Whether a text starts with a keyword and white space, after trivia. -/
def looksLikeScript (text : String) : Bool :=
  match afterTrivia? text with
  | none => false
  | some rest => keywords.any fun keyword =>
    match Text.dropStart? keyword.toList rest with
    | some (c :: _) => Text.isBlank c
    | _ => false

end CoveragePages.Script
