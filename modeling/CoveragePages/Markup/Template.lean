/-
Row templates: markup with placeholders, a field name between double braces. A row of a record is
the template with each placeholder replaced by the escaped text of its field.
-/
import CoveragePages.Markup.Escape
import CoveragePages.Records.Basic
import CoveragePages.Text.Blank
import CoveragePages.Text.Bytes

namespace CoveragePages

/-! ## Templates -/

/-- A piece of a row template: markup that stands as it is, or a field. -/
inductive RowTemplate.Piece where
  | literal (markup : List Char)
  | field (name : List Char)
  deriving DecidableEq

/-- A row template. -/
structure RowTemplate where
  pieces : List RowTemplate.Piece
  deriving DecidableEq

namespace RowTemplate

/-- What opens a placeholder. -/
def opener : List Char := ['\x7b', '\x7b']

/-- What closes a placeholder. -/
def closer : List Char := ['\x7d', '\x7d']

/-- The placeholder of a field. -/
def placeholder (name : String) : String :=
  String.ofList opener ++ name ++ String.ofList closer

/-! ## Reading -/

/-- Why a text is not a row template; the offset is that of the placeholder, in bytes. -/
inductive Refusal where
  | unterminated (offset : Nat)
  | empty (offset : Nat)
  | endless
  deriving DecidableEq

def Refusal.message : Refusal → String
  | .unterminated offset => "unterminated placeholder at offset " ++ toString offset
  | .empty offset => "empty placeholder at offset " ++ toString offset
  | .endless => "placeholders do not end"

/-- A literal piece, unless it is empty. -/
def literalPieces (markup : List Char) : List Piece :=
  if markup = [] then [] else [.literal markup]

/-- Reads the pieces of a text that starts at some byte offset. Each round passes a placeholder, so
as much fuel as the text is long, and one, is enough. -/
def readPieces : Nat → Nat → List Char → Except Refusal (List Piece)
  | 0, _, _ => .error .endless
  | fuel + 1, offset, cs =>
    match Text.breakOn? opener cs with
    | none => .ok (literalPieces cs)
    | some (before, inside) =>
      let start := offset + Text.byteLength before
      match Text.breakOn? closer inside with
      | none => .error (.unterminated start)
      | some (raw, rest) =>
        let name := Text.trim raw
        if name = [] then .error (.empty start)
        else do
          let next := start + opener.length + Text.byteLength raw + closer.length
          let pieces ← readPieces fuel next rest
          return literalPieces before ++ .field name :: pieces

/-- Reads a template. -/
def parseChars (cs : List Char) : Except Refusal RowTemplate := do
  return ⟨← readPieces (cs.length + 1) 0 cs⟩

/-- Reads a template. -/
def parse (text : String) : Except Refusal RowTemplate := parseChars text.toList

/-! ## Rows -/

/-- The name of a field piece. -/
def Piece.fieldName? : Piece → Option String
  | literal _ => none
  | field name => some (String.ofList name)

/-- The names of the fields, in order. -/
def fields (template : RowTemplate) : List String := template.pieces.filterMap Piece.fieldName?

/-- A piece filled from a record. -/
def Piece.fill (record : Record) : Piece → String
  | literal markup => String.ofList markup
  | field name => Markup.escape (record.fieldText (String.ofList name))

/-- The row of a record. -/
def render (template : RowTemplate) (record : Record) : String :=
  String.join (template.pieces.map (Piece.fill record))

/-- The rows of some records, one after the other. -/
def renderAll (template : RowTemplate) (records : List Record) : String :=
  Text.join "\n" (records.map template.render)

/-! ## The templates of the report -/

/-- The row of a file or merged run on an index page. -/
def indexRow : String :=
  Text.join "\n"
    ["<tr>",
      "    <td class=\"coverFile\"><a href=\"" ++ placeholder "link" ++ "\" title=\"" ++
        placeholder "title" ++ "\">" ++ placeholder "summary_name" ++ "</a></td>",
      "    <td class=\"coverPer\"><span class=\"" ++ placeholder "covered_class" ++ "\">" ++
        placeholder "covered" ++ "%</span></td>",
      "    <td class=\"coverNum\">" ++ placeholder "covered_lines" ++ "</td>",
      "    <td class=\"coverNum\">" ++ placeholder "uncovered_lines" ++ "</td>",
      "    <td class=\"coverNum\">" ++ placeholder "total_lines" ++ "</td>",
      "</tr>"]

/-- The row of a line on a source page. -/
def sourceRow : String :=
  Text.join "\n"
    ["<tr class=\"" ++ placeholder "class" ++ "\">",
      "    <td class=\"lineNum\">" ++ placeholder "lineNum" ++ "</td>",
      "    <td class=\"hits\">" ++ placeholder "hits" ++ "</td>",
      "    <td class=\"lineSrc\"><pre>" ++ placeholder "line" ++ "</pre></td>",
      "</tr>"]

/-- The template text of a slot, for the slots of the report's pages. -/
def builtin? (slot : String) : Option String :=
  if slot = "main-data" ∨ slot = "merged-data" then some indexRow
  else if slot = "source-code" then some sourceRow
  else none

end RowTemplate

end CoveragePages
