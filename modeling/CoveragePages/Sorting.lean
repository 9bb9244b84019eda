/-
How the table of an index page is sorted when it opens. The options are those of the table sorter
that runs in the browser, under its own names.
-/
import CoveragePages.Json.Decode

namespace CoveragePages

/-- The direction of a sort. -/
inductive SortDirection where
  | descending
  | ascending
  deriving DecidableEq

namespace SortDirection

/-- The number that the table sorter knows the direction by. -/
def code : SortDirection → Nat
  | descending => 0
  | ascending => 1

/-- The direction that a number stands for. -/
def ofCode? : Nat → Option SortDirection
  | 0 => some descending
  | 1 => some ascending
  | _ => none

/-- Reads a direction from its number, which must fit a byte. -/
def reader : Json.Reader SortDirection := fun origin t => do
  let code ← Json.readNat UInt8.size "u8" origin t
  match ofCode? code with
  | some direction => return direction
  | none => .error (.mismatch (.refused ("invalid sort direction " ++ toString code)))

end SortDirection

/-- A column and the direction it is sorted in. -/
structure SortKey where
  column : UInt64
  direction : SortDirection
  deriving DecidableEq

namespace SortKey

def toJson (key : SortKey) : Json :=
  .array [.ofNat key.column.toNat, .ofNat key.direction.code]

/-- A draft of a key. -/
structure Draft where
  column : Option Nat := none
  direction : Option SortDirection := none

/-- The shape of a key: an array of column and direction. -/
def shape : Json.Shape Draft SortKey where
  title := "tuple struct SortKey"
  fields :=
    [.of "0" (Json.readNat UInt64.size "usize") fun d x => { d with column := some x },
      .of "1" SortDirection.reader fun d x => { d with direction := some x }]
  empty := {}
  finish d := do
    return ⟨.ofNat (← Json.required "0" d.column), ← Json.required "1" d.direction⟩
  strict := false
  lenient := false
  named := false

def reader : Json.Reader SortKey := shape.read

end SortKey

/-- What the table sorter is started with. -/
structure SortIntent where
  theme : String
  keys : List SortKey
  /-- The class of the rows that stay where they are. -/
  infoBlock : String
  widgets : List String
  deriving DecidableEq

namespace SortIntent

/-- The widget that keeps the order over page loads. -/
def saveWidget : String := "saveSort"

/-- The sort of a page for which nothing else is said: by coverage, the second column. -/
def standard : SortIntent where
  theme := "blue"
  keys := [⟨1, .descending⟩]
  infoBlock := "tablesorter-no-sort"
  widgets := [saveWidget]

/-- The sort with another theme. -/
def withTheme (intent : SortIntent) (theme : String) : SortIntent := { intent with theme }

/-- The sort by one column alone. -/
def withColumn (intent : SortIntent) (column : UInt64) : SortIntent :=
  { intent with keys := [⟨column, .descending⟩] }

/-- Whether the order is kept over page loads. -/
def persists (intent : SortIntent) : Bool := intent.widgets.contains saveWidget

/-- The options of the table sorter, as JSON. -/
def toJson (intent : SortIntent) : Json :=
  .object
    [("theme", .string intent.theme),
      ("sortList", .array (intent.keys.map SortKey.toJson)),
      ("cssInfoBlock", .string intent.infoBlock),
      ("widgets", .ofStrings intent.widgets)]

/-- The options of the table sorter, as text. -/
def optionsText (intent : SortIntent) : String := intent.toJson.compact

/-- A draft of the options. -/
structure Draft where
  theme : Option String := none
  keys : Option (List SortKey) := none
  infoBlock : Option String := none
  widgets : Option (List String) := none

def shape : Json.Shape Draft SortIntent where
  title := "struct SortIntent"
  fields :=
    [.of "theme" Json.readString fun d x => { d with theme := some x },
      .of "sortList" (Json.readList SortKey.reader) fun d x => { d with keys := some x },
      .of "cssInfoBlock" Json.readString fun d x => { d with infoBlock := some x },
      .of "widgets" (Json.readList Json.readString) fun d x => { d with widgets := some x }]
  empty := {}
  finish d := do
    return {
      theme := ← Json.required "theme" d.theme
      keys := ← Json.required "sortList" d.keys
      infoBlock := ← Json.required "cssInfoBlock" d.infoBlock
      widgets := ← Json.required "widgets" d.widgets }
  strict := false
  lenient := false
  named := true

def reader : Json.Reader SortIntent := shape.read

end SortIntent

end CoveragePages
