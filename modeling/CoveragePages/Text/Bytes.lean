/-
Texts as UTF-8 bytes, the slices of a text between two byte offsets, and bytes as text. A slice exists
only between character boundaries inside the text. Bytes that are no text are displayed with a
replacement character for each longest part that could start a character.
-/

namespace CoveragePages.Text

/-- The UTF-8 bytes of a text. -/
def bytes (cs : List Char) : List UInt8 := cs.flatMap String.utf8EncodeChar

/-- How many bytes a text takes. -/
def byteLength (cs : List Char) : Nat := (bytes cs).length

/-- The text after its first `n` bytes, if that is a character boundary inside it. -/
def dropBytes? : List Char → Nat → Option (List Char)
  | cs, 0 => some cs
  | [], _ + 1 => none
  | c :: cs, n => if c.utf8Size ≤ n then dropBytes? cs (n - c.utf8Size) else none

/-- The first `n` bytes of a text, if they end at a character boundary inside it. -/
def takeBytes? : List Char → Nat → Option (List Char)
  | _, 0 => some []
  | [], _ + 1 => none
  | c :: cs, n =>
    if c.utf8Size ≤ n then (takeBytes? cs (n - c.utf8Size)).map (c :: ·) else none

/-- The slice of a text between two byte offsets. -/
def slice? (cs : List Char) (start stop : Nat) : Option (List Char) :=
  if start ≤ stop then (dropBytes? cs start).bind fun rest => takeBytes? rest (stop - start)
  else none

/-! ## Bytes as text -/

/-- The text with some bytes, if they are one. -/
def decode? (bs : List UInt8) : Option String := String.fromUTF8? ⟨bs.toArray⟩

/-- A character of which the first bytes were met: how many more it takes, between which bounds the
next one lies, and the bits so far. -/
structure Partial where
  missing : Nat
  low : Nat
  high : Nat
  bits : Nat

/-- What a byte that starts a character of several bytes tells about it. -/
def Partial.start? (b : Nat) : Option Partial :=
  if 0xc2 ≤ b ∧ b ≤ 0xdf then some ⟨1, 0x80, 0xbf, b % 0x20⟩
  else if 0xe0 ≤ b ∧ b ≤ 0xef then
    some ⟨2, if b = 0xe0 then 0xa0 else 0x80, if b = 0xed then 0x9f else 0xbf, b % 0x10⟩
  else if 0xf0 ≤ b ∧ b ≤ 0xf4 then
    some ⟨3, if b = 0xf0 then 0x90 else 0x80, if b = 0xf4 then 0x8f else 0xbf, b % 0x08⟩
  else none

/-- What stands for bytes that are no character. -/
def replacement : Char := '\ufffd'

/-- A byte after bytes that leave no character open: the characters that are complete, and the one
that is open then. -/
def openWith (b : Nat) : List Char × Option Partial :=
  if b < 0x80 then ([Char.ofNat b], none)
  else match Partial.start? b with
    | some p => ([], some p)
    | none => ([replacement], none)

/-- A byte after bytes that may leave a character open. -/
def readByte (pending : Option Partial) (b : Nat) : List Char × Option Partial :=
  match pending with
  | none => openWith b
  | some p =>
    if p.low ≤ b ∧ b ≤ p.high then
      let bits := p.bits * 0x40 + b % 0x40
      if p.missing = 1 then ([Char.ofNat bits], none)
      else ([], some ⟨p.missing - 1, 0x80, 0xbf, bits⟩)
    else
      let (cs, next) := openWith b
      (replacement :: cs, next)

/-- The characters that bytes are displayed as, after bytes that may leave a character open. -/
def displayFrom : Option Partial → List UInt8 → List Char
  | none, [] => []
  | some _, [] => [replacement]
  | pending, b :: bs =>
    let (cs, next) := readByte pending b.toNat
    cs ++ displayFrom next bs

/-- Bytes as a text that may be displayed. -/
def display (bs : List UInt8) : String :=
  match decode? bs with
  | some text => text
  | none => String.ofList (displayFrom none bs)

end CoveragePages.Text
