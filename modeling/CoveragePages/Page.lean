/-
The data of one page, as it is supplied: every item may be missing. A page is rendered from a
context, which has all the items that its kind of page needs.
-/
import CoveragePages.Header
import CoveragePages.Records.Basic
import CoveragePages.Script.Reader
import CoveragePages.Sorting

namespace CoveragePages

/-! ## Page data -/

/-- The items that were supplied for a page. -/
structure PageData where
  header : Option Header := none
  data : Option (List Record) := none
  mergedData : Option (List Record) := none
  percentLow : Option Binary64 := none
  percentHigh : Option Binary64 := none

namespace PageData

def toJson (page : PageData) : Json :=
  .object
    [("header", .ofOption Header.toJson page.header),
      ("data", .ofOption Record.listToJson page.data),
      ("merged_data", .ofOption Record.listToJson page.mergedData),
      ("percent_low", .ofOption .float page.percentLow),
      ("percent_high", .ofOption .float page.percentHigh)]

/-- Reads a list of records. -/
def readRecords : Json.Reader (List Record) := Json.readList Record.reader

/-- The shape of a page document. The page data is its own draft. -/
def shape : Json.Shape PageData PageData where
  title := "struct PageData"
  fields :=
    [.of "header" (Json.readOption Header.reader) fun p x => { p with header := x },
      .of "data" (Json.readOption readRecords) fun p x => { p with data := x },
      .of "merged_data" (Json.readOption readRecords) fun p x => { p with mergedData := x },
      .of "percent_low" (Json.readOption Json.readFloat) fun p x => { p with percentLow := x },
      .of "percent_high" (Json.readOption Json.readFloat) fun p x => { p with percentHigh := x }]
  empty := {}
  finish := .ok
  strict := false
  lenient := true
  named := true

def reader : Json.Reader PageData := shape.read

/-! ## The two encodings -/

/-- Why a text is not read as page data. -/
inductive Refusal where
  | script (cause : Script.Refusal)
  | badVariable (name : String) (cause : Json.Refusal)
  | notNumber (name : String) (value : Json)
  | document (cause : Json.Refusal)

/-- Reads the value of a variable. -/
def readVariable {α : Type} (name : String) (read : Json.Reader α) (value : Json) :
    Except Refusal α :=
  match Json.readValue read value with
  | .ok a => .ok a
  | .error cause => .error (.badVariable name cause)

/-- Takes the value of a variable as a number. -/
def numberVariable (name : String) (value : Json) : Except Refusal Binary64 :=
  match value.toNumber? with
  | some x => .ok x
  | none => .error (.notNumber name value)

/-- The page data after an assignment. Variables of other names are passed over. -/
def assign (page : PageData) (assignment : Script.Assignment) : Except Refusal PageData :=
  match assignment with
  | (name, value) =>
    if name = "header" then do
      return { page with header := some (← readVariable name Header.reader value) }
    else if name = "data" then do
      return { page with data := some (← readVariable name readRecords value) }
    else if name = "merged_data" then do
      return { page with mergedData := some (← readVariable name readRecords value) }
    else if name = "percent_low" then do
      return { page with percentLow := some (← numberVariable name value) }
    else if name = "percent_high" then do
      return { page with percentHigh := some (← numberVariable name value) }
    else .ok page

/-- Reads a data script. -/
def ofScript (text : String) : Except Refusal PageData :=
  match Script.parse text with
  | .error cause => .error (.script cause)
  | .ok assignments => assignments.foldlM assign {}

/-- Reads a JSON document. -/
def ofDocument (text : String) : Except Refusal PageData :=
  match Json.readText reader text with
  | .ok page => .ok page
  | .error cause => .error (.document cause)

/-- Reads either encoding, told apart by how the text starts. -/
def parse (text : String) : Except Refusal PageData :=
  if Script.looksLikeScript text then ofScript text else ofDocument text

/-- The page data with its limits replaced. -/
def withLimits (page : PageData) (limits : Limits) : PageData :=
  { page with percentLow := some limits.low, percentHigh := some limits.high }

end PageData

/-! ## Contexts -/

/-- Everything an index page is rendered from. -/
structure IndexContext where
  header : Header
  main : Dataset
  merged : Dataset
  limits : Limits
  sort : SortIntent

/-- Everything a source page is rendered from. -/
structure SourceContext where
  header : Header
  source : Dataset
  limits : Limits

namespace PageData

/-- An item that a page needs. -/
inductive Item where
  | header
  | data
  | mergedData
  | percentLow
  | percentHigh
  deriving DecidableEq

/-- The name that an item is supplied under. -/
def Item.name : Item → String
  | header => "header"
  | data => "data"
  | mergedData => "merged_data"
  | percentLow => "percent_low"
  | percentHigh => "percent_high"

/-- The value of an item, or which item is missing. -/
def need {α : Type} (item : Item) : Option α → Except Item α
  | some a => .ok a
  | none => .error item

/-- The limits of a page. -/
def limits (page : PageData) : Except Item Limits := do
  return ⟨← need .percentLow page.percentLow, ← need .percentHigh page.percentHigh⟩

/-- The context of an index page, or the first item that is missing. -/
def indexContext (page : PageData) (sort : SortIntent) : Except Item IndexContext := do
  let header ← need .header page.header
  let main ← need .data page.data
  let merged ← need .mergedData page.mergedData
  let limits ← page.limits
  return ⟨header, ⟨.main, main⟩, ⟨.merged, merged⟩, limits, sort⟩

/-- The context of a source page, or the first item that is missing. -/
def sourceContext (page : PageData) : Except Item SourceContext := do
  let header ← need .header page.header
  let source ← need .data page.data
  let limits ← page.limits
  return ⟨header, ⟨.source, source⟩, limits⟩

end PageData

end CoveragePages
