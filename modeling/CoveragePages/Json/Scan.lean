/-
From JSON text to its outline. `scanValue` takes one value off the front of a text; its answer is
the outline and what follows, or the break at which the text stops. The depth of recursion is
bounded by twice the length of the text, which is passed along as fuel.
-/
import CoveragePages.Decimal.Literal
import CoveragePages.Json.Tree
import CoveragePages.Text.Bytes

namespace CoveragePages.Json

open Binary64 Decimal

/-! ## Blanks and words -/

/-- Whether JSON allows a character between its tokens. -/
def isSpace (c : Char) : Bool := c == ' ' || c == '\n' || c == '\t' || c == '\r'

/-- A text without the space at its start. -/
def skipSpace (cs : List Char) : List Char := cs.dropWhile isSpace

/-- What follows the rest of a word. -/
def scanWord : List Char → List Char → Except Fault (List Char)
  | [], cs => .ok cs
  | _ :: _, [] => .error .endOfValue
  | w :: word, c :: cs => if w = c then scanWord word cs else .error .noWord

/-! ## Strings -/

/-- A part of a string: a character, or a 16-bit unit given by an escape. -/
inductive Piece where
  | char (c : Char)
  | unit (code : Nat)

/-- The value of a hexadecimal digit. -/
def hexValue? (c : Char) : Option Nat :=
  if c.isDigit then some (c.toNat - '0'.toNat)
  else if 'a' ≤ c ∧ c ≤ 'f' then some (c.toNat - 'a'.toNat + 10)
  else if 'A' ≤ c ∧ c ≤ 'F' then some (c.toNat - 'A'.toNat + 10)
  else none

/-- The value of four hexadecimal digits. -/
def hexUnit? (a b c d : Char) : Option Nat := do
  return (((← hexValue? a) * 16 + (← hexValue? b)) * 16 + (← hexValue? c)) * 16 + (← hexValue? d)

/-- The character that a one-letter escape stands for. -/
def escapeLetter? : Char → Option Char
  | '"' => some '"'
  | '\\' => some '\\'
  | '/' => some '/'
  | 'b' => some '\x08'
  | 'f' => some '\x0c'
  | 'n' => some '\n'
  | 'r' => some '\r'
  | 't' => some '\t'
  | _ => none

/-- The fault of a `u` escape without four hexadecimal digits behind it. -/
def hexFault (rest : List Char) : Fault :=
  if Text.byteLength (rest.take 4) < 4 then .endOfString else .badEscape

/-- The parts of a string after its opening quote, and what follows its closing quote. -/
def scanPieces : List Char → List Piece × Except Fault (List Char)
  | [] => ([], .error .endOfString)
  | '"' :: rest => ([], .ok rest)
  | '\\' :: 'u' :: a :: b :: c :: d :: rest =>
    match hexUnit? a b c d with
    | some code => let (pieces, after) := scanPieces rest; (.unit code :: pieces, after)
    | none => ([], .error (hexFault [a, b, c, d]))
  | ['\\'] => ([], .error .endOfString)
  | '\\' :: c :: rest =>
    match escapeLetter? c with
    | some c => let (pieces, after) := scanPieces rest; (.char c :: pieces, after)
    | none => ([], .error (if c = 'u' then hexFault rest else .badEscape))
  | c :: rest =>
    if c.toNat < 0x20 then ([], .error .controlCharacter)
    else let (pieces, after) := scanPieces rest; (.char c :: pieces, after)

/-- Whether a 16-bit unit is the first half of a surrogate pair. -/
def isHighSurrogate (code : Nat) : Bool := 0xd800 ≤ code && code ≤ 0xdbff

/-- Whether a 16-bit unit is the second half of a surrogate pair. -/
def isLowSurrogate (code : Nat) : Bool := 0xdc00 ≤ code && code ≤ 0xdfff

/-- The characters of a string, given how it ends. A surrogate stands for a character only in a
pair. -/
def joinPieces (ended : Option Fault) : List Piece → Except Fault (List Char)
  | [] => match ended with
    | none => .ok []
    | some fault => .error fault
  | .char c :: rest => do return c :: (← joinPieces ended rest)
  | .unit high :: .unit low :: rest =>
    if isLowSurrogate high then .error .loneSurrogate
    else if isHighSurrogate high then
      if isLowSurrogate low then do
        let code := 0x10000 + (high - 0xd800) * 0x400 + (low - 0xdc00)
        return Char.ofNat code :: (← joinPieces ended rest)
      else .error .loneSurrogate
    else do return Char.ofNat high :: (← joinPieces ended (.unit low :: rest))
  | .unit code :: rest =>
    if isLowSurrogate code then .error .loneSurrogate
    else if isHighSurrogate code then
      .error (match rest, ended with
        | [], some fault => fault
        | _, _ => .halfSurrogatePair)
    else do return Char.ofNat code :: (← joinPieces ended rest)

/-! ## Outlines -/

/-- What follows a value, or the break inside it. -/
abbrev After := Except Break (List Char)

/-- A value that breaks off at a place. -/
def breakAt (place : Break) : Tree × After := (.broken place, .error place)

/-- A value that breaks off with the same fault for every reader. -/
def stop (fault : Fault) : Tree × After := breakAt (.of fault)

/-- The outline of a string after its opening quote. -/
def scanString (cs : List Char) : Tree × After :=
  match scanPieces cs with
  | (pieces, .ok rest) => (.string ((joinPieces none pieces).map String.ofList), .ok rest)
  | (pieces, .error skipping) =>
    breakAt (match joinPieces (some skipping) pieces with
      | .ok _ => .of skipping
      | .error fault => ⟨fault, skipping, fault⟩)

/-- The outline of a word, given its first letter's meaning and its other letters. No name starts
like a word. -/
def scanNamed (value : Tree) (word cs : List Char) : Tree × After :=
  match scanWord word cs with
  | .ok rest => (value, .ok rest)
  | .error fault => breakAt ⟨fault, fault, .noValue⟩

/-! ## Numerals -/

/-- Adds digits to a word of 64 bits, up to the first that does not fit. The answer is the word and
the digits that are left. -/
def fillWord : Nat → List Char → Nat × List Char
  | word, [] => (word, [])
  | word, d :: ds =>
    let next := word * 10 + digitValue d
    if next < UInt64.size then fillWord next ds else (word, d :: ds)

/-- The exponent of the greatest power of ten that a number is scaled by at once. -/
def maxPlaces : Nat := 308

/-- A power of ten. -/
def tenTo (places : Nat) : Binary64 := nearest false 1 places

/-- A number divided by the greatest power of ten some times, and then by another power of ten.
Once nothing is left of it, it stays as it is. -/
def shiftDown (places : Nat) : Nat → Binary64 → Binary64
  | 0, x => x / tenTo places
  | times + 1, x =>
    if x = zero false ∨ x = zero true then x else shiftDown places times (x / tenTo maxPlaces)

/-- The numeral of a word that is scaled by a power of ten. Scaling rounds on its own, so this need
not be the number nearest to what the digits say. -/
def scaledNumeral (negative : Bool) (word : Nat) : Int → Numeral
  | .ofNat places =>
    if places ≤ maxPlaces then
      let x := ofRatio negative word 1 * tenTo places
      if x = infinity true ∨ x = infinity false then .outOfRange else .float x
    else if word = 0 then .float (zero negative)
    else .outOfRange
  | .negSucc n =>
    .float (shiftDown (n % maxPlaces + 1) (n / maxPlaces) (ofRatio negative word 1))

/-- The numeral of a word: an integer if it fits 64 bits with its sign. -/
def wordNumeral (negative : Bool) (word : Nat) : Numeral :=
  if negative then
    if word = 0 ∨ UInt64.size / 2 < word then .float (ofRatio true word 1) else .integer (-word)
  else .integer word

/-- The numeral of the parts of a number. Digits before the point that do not fit the word only
count by their places, and those behind it not at all. -/
def numeralOf (negative : Bool) (whole : List Char) (fraction : Option (List Char))
    (exponent : Option Int) : Numeral :=
  let (word, left) := fillWord 0 whole
  match left, fraction, exponent with
  | [], none, none => wordNumeral negative word
  | _, _, _ =>
    let ds := fraction.getD []
    let (word, unread) := fillWord word ds
    scaledNumeral negative word
      (exponent.getD 0 + left.length - (ds.length - unread.length : Nat))

/-! ## Parts of numbers -/

/-- The fault of a missing digit. -/
def digitFault : List Char → Fault
  | [] => .endOfValue
  | _ => .badNumber

/-- The fraction that may follow the digits of a number. -/
def scanFraction : List Char → Except Fault (Option (List Char) × List Char)
  | '.' :: cs =>
    let (ds, rest) := spanDigits cs
    if ds = [] then .error (digitFault rest) else .ok (some ds, rest)
  | cs => .ok (none, cs)

/-- The exponent that may follow the digits of a number. -/
def scanExponent : List Char → Except Fault (Option Int × List Char)
  | [] => .ok (none, [])
  | e :: cs =>
    if e = 'e' ∨ e = 'E' then
      let (negative, cs) := splitSign cs
      let (ds, rest) := spanDigits cs
      if ds = [] then .error (digitFault rest)
      else .ok (some (if negative then -(digitsValue ds : Int) else digitsValue ds), rest)
    else .ok (none, e :: cs)

/-- The digits before the point: a single zero, or digits that do not start with one. -/
def scanWhole (cs : List Char) : Except Fault (List Char × List Char) :=
  match spanDigits cs with
  | ([], rest) => .error (digitFault rest)
  | ('0' :: _ :: _, _) => .error .badNumber
  | (ds, rest) => .ok (ds, rest)

/-- A number without its sign. -/
def scanMagnitude (negative : Bool) (cs : List Char) : Except Fault (Numeral × List Char) := do
  let (whole, rest) ← scanWhole cs
  let (fraction, rest) ← scanFraction rest
  let (exponent, rest) ← scanExponent rest
  return (numeralOf negative whole fraction exponent, rest)

/-- The outline of a number. When a number is only skipped, digits that are missing at the end of
the text are no early end but a bad number. No name starts like a number. -/
def scanNumber (cs : List Char) : Tree × After :=
  let scanned := match cs with
    | '-' :: cs => scanMagnitude true cs
    | cs => scanMagnitude false cs
  match scanned with
  | .ok (numeral, rest) => (.number numeral, .ok rest)
  | .error fault => breakAt ⟨fault, .badNumber, .noValue⟩

/-- Takes a value that is no array or object off the front of a text. -/
def scanScalar : List Char → Tree × After
  | [] => stop .endOfValue
  | '"' :: rest => scanString rest
  | 'n' :: rest => scanNamed .null ['u', 'l', 'l'] rest
  | 't' :: rest => scanNamed (.bool true) ['r', 'u', 'e'] rest
  | 'f' :: rest => scanNamed (.bool false) ['a', 'l', 's', 'e'] rest
  | c :: rest => if c = '-' ∨ c.isDigit then scanNumber (c :: rest) else stop .noValue

/-- Takes a key off the front of a text. After a comma, a key that is skipped ends early where the
object does, and a closing brace in its place is no string. -/
def scanKey : List Char → Tree × After
  | '"' :: rest => scanString rest
  | '\x7d' :: _ => breakAt ⟨.trailingComma, .keyNotString, .trailingComma⟩
  | [] => breakAt ⟨.endOfValue, .endOfObject, .endOfValue⟩
  | _ => stop .keyNotString

mutual

/-- Takes one value off the front of a text. -/
def scanValue : Nat → List Char → Tree × After
  | 0, _ => stop .endOfValue
  | fuel + 1, cs =>
    match skipSpace cs with
    | '[' :: rest =>
      match skipSpace rest with
      | [] => (.array [] (.broken (.of .endOfList)), .error (.of .endOfList))
      | ']' :: rest => (.array [] .closed, .ok rest)
      | rest =>
        let (items, ending, after) := scanItems fuel rest
        (.array items ending, after)
    | '\x7b' :: rest =>
      match skipSpace rest with
      | [] => (.object [] (.broken (.of .endOfObject)), .error (.of .endOfObject))
      | '\x7d' :: rest => (.object [] .closed, .ok rest)
      | rest =>
        let (members, ending, after) := scanMembers fuel rest
        (.object members ending, after)
    | cs => scanScalar cs

/-- Takes the items of an array, from the first one on, off the front of a text. -/
def scanItems : Nat → List Char → List Tree × Ending × After
  | 0, _ => ([], .broken (.of .endOfList), .error (.of .endOfList))
  | fuel + 1, cs =>
    match scanValue fuel cs with
    | (item, .error b) => ([item], .broken b, .error b)
    | (item, .ok rest) =>
      match skipSpace rest with
      | [] => ([item], .broken (.of .endOfList), .error (.of .endOfList))
      | ']' :: rest => ([item], .closed, .ok rest)
      | ',' :: rest =>
        match skipSpace rest with
        | ']' :: _ =>
          let b : Break := ⟨.trailingComma, .noValue, .trailingComma⟩
          ([item, .broken b], .broken b, .error b)
        | rest =>
          let (items, ending, after) := scanItems fuel rest
          (item :: items, ending, after)
      | _ => ([item], .broken (.of .noListSeparator), .error (.of .noListSeparator))

/-- Takes the members of an object, from the first one on, off the front of a text. -/
def scanMembers : Nat → List Char → List (Tree × Tree) × Ending × After
  | 0, _ => ([], .broken (.of .endOfObject), .error (.of .endOfObject))
  | fuel + 1, cs =>
    match scanKey cs with
    | (key, .error b) => ([(key, .broken b)], .broken b, .error b)
    | (key, .ok rest) =>
      match skipSpace rest with
      | ':' :: rest =>
        match scanValue fuel rest with
        | (value, .error b) => ([(key, value)], .broken b, .error b)
        | (value, .ok rest) =>
          match skipSpace rest with
          | [] => ([(key, value)], .broken (.of .endOfObject), .error (.of .endOfObject))
          | '\x7d' :: rest => ([(key, value)], .closed, .ok rest)
          | ',' :: rest =>
            let (members, ending, after) := scanMembers fuel (skipSpace rest)
            ((key, value) :: members, ending, after)
          | _ =>
            ([(key, value)], .broken (.of .noObjectSeparator), .error (.of .noObjectSeparator))
      | rest =>
        let b := Break.of (if rest = [] then .endOfObject else .noColon)
        ([(key, .broken b)], .broken b, .error b)

end

/-- The outline of a text, and whether anything but space follows the value. -/
structure Outline where
  root : Tree
  trailing : Bool

/-- The outline of a text. -/
def outline (cs : List Char) : Outline :=
  match scanValue (2 * cs.length + 2) cs with
  | (root, .ok rest) => ⟨root, skipSpace rest ≠ []⟩
  | (root, .error _) => ⟨root, false⟩

end CoveragePages.Json
