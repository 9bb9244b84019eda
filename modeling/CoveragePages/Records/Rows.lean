/-
The records that rows are made of: the summary of a file or merged run on an index page, and a line
of an annotated source file.
-/
import CoveragePages.Coverage.Classes
import CoveragePages.Records.Basic

namespace CoveragePages

/-! ## Summaries -/

/-- The summary of one file, or of one merged run. -/
structure FileSummary where
  link : String
  title : String
  name : String
  coveredLines : UInt64
  totalLines : UInt64

namespace FileSummary

/-- The covered part of the lines, in percent; zero if there are no lines. -/
def percent (file : FileSummary) : Binary64 :=
  if file.totalLines = 0 then Binary64.ofNat 0
  else coverageRatio file.coveredLines file.totalLines

/-- The row of the summary. More covered lines than lines leave no line uncovered. -/
def toRecord (file : FileSummary) (limits : Limits) : Record :=
  Record.empty
    |>.insertText "link" file.link
    |>.insertText "title" file.title
    |>.insertText "summary_name" file.name
    |>.insertText "covered_class" (RowClass.ofRatio file.percent limits).css
    |>.insertText "covered" (Decimal.fixedOne .short file.percent)
    |>.insertText "covered_lines" (toString file.coveredLines.toNat)
    |>.insertText "uncovered_lines" (toString (file.totalLines.toNat - file.coveredLines.toNat))
    |>.insertText "total_lines" (toString file.totalLines.toNat)

end FileSummary

/-! ## Lines of code -/

/-- How often a line ran, and how often it could have, if that is known. -/
structure LineHits where
  hits : UInt32
  possible : Option UInt32

/-- The class of a line: covered if it ran as often as possible, or at all when that is not known,
and partly covered if it ran at all. -/
def LineHits.rowClass (h : LineHits) : RowClass :=
  match h.possible with
  | none => if 0 < h.hits then .covered else .uncovered
  | some possible =>
    if h.hits = possible then .covered
    else if 0 < h.hits then .partly
    else .uncovered

/-- A line of a source file; only lines with code have hits. -/
structure SourceLine where
  number : UInt32
  text : String
  hits : Option LineHits

namespace SourceLine

/-- A line number, aligned to the right in five places. -/
def numberText (n : UInt32) : String :=
  let ds := Nat.toDigits 10 n.toNat
  String.ofList (List.replicate (5 - ds.length) ' ' ++ ds)

/-- The row of a line. -/
def toRecord (line : SourceLine) : Record :=
  let record := Record.empty
    |>.insertText "lineNum" (numberText line.number)
    |>.insertText "line" line.text
  match line.hits with
  | none => record
  | some h =>
    let record := record
      |>.insertText "class" h.rowClass.css
      |>.insertText "hits" (toString h.hits.toNat)
    match h.possible with
    | none => record
    | some possible => record.insertText "possible_hits" (toString possible.toNat)

end SourceLine

end CoveragePages
