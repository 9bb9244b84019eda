/-
Display surfaces: whatever a render plan is applied to. A surface offers four operations, each of
which may fail on its own and says why.
-/
import CoveragePages.Records.Basic
import CoveragePages.Sorting

namespace CoveragePages

/-- Why an operation on a surface fails. A surface may also lack data of the page. -/
inductive SurfaceError where
  | noElement (id : String)
  | noSlot (slot : String)
  | missingData (name : String)
  deriving DecidableEq

def SurfaceError.message : SurfaceError → String
  | noElement id => "element not found: #" ++ id
  | noSlot slot => "template slot not found: " ++ slot
  | missingData name => "missing page data: " ++ name

/-- The operations of a display surface with states in `σ`. Each takes the state to the next one
and answers with a result or an error. -/
class DisplaySurface (σ : Type) where
  /-- Sets the text of an element. -/
  setText (target text : String) (state : σ) : σ × Except SurfaceError Unit
  /-- Sets the class of an element. -/
  setClass (target cls : String) (state : σ) : σ × Except SurfaceError Unit
  /-- Fills a slot with a row for each record, and answers with the number of rows. -/
  bindTemplate (slot : String) (records : List Record) (state : σ) : σ × Except SurfaceError Nat
  /-- Starts sorting a table. -/
  activateSort (table : String) (intent : SortIntent) (state : σ) : σ × Except SurfaceError Unit

/-! ## Targets and kinds of pages -/

namespace Target

/-- The element that shows the covered percentage. -/
def percentCovered : String := "header-percent-covered"

/-- The element that shows the command. -/
def command : String := "header-command"

/-- The title of the window. -/
def windowTitle : String := "window-title"

/-- The element that shows the date. -/
def date : String := "header-date"

/-- The element that shows the covered lines. -/
def covered : String := "header-covered"

/-- The element that shows the instrumented lines. -/
def instrumented : String := "header-instrumented"

/-- The table of an index page. -/
def indexTable : String := "index-table"

/-- The elements that show the header. -/
def headerIds : List String :=
  [percentCovered, command, windowTitle, date, covered, instrumented]

end Target

/-- The kinds of pages. -/
inductive PageKind where
  | index
  | source
  deriving DecidableEq

namespace PageKind

def name : PageKind → String
  | index => "index"
  | source => "source"

/-- The ids of the elements of a page. -/
def ids : PageKind → List String
  | index => Target.headerIds ++ [Target.indexTable]
  | source => Target.headerIds

/-- The slots of a page. -/
def slots : PageKind → List String
  | index => [DatasetRole.main.slot, DatasetRole.merged.slot]
  | source => [DatasetRole.source.slot]

end PageKind

end CoveragePages
