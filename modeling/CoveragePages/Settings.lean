/-
Settings of a report: limits that replace those of the pages, the theme and column of the table
sorter, and globs of data files to leave out. Settings are read from a file, checked, and resolved
into the form that pages are rendered under.
-/
import CoveragePages.Glob.Reader
import CoveragePages.Glob.Written
import CoveragePages.Coverage.Limits
import CoveragePages.Sorting

namespace CoveragePages

/-! ## Settings as written -/

/-- The settings of a file; each may be missing. -/
structure Settings where
  limits : Option Limits := none
  theme : Option String := none
  sortColumn : Option UInt64 := none
  exclude : List String := []

namespace Settings

def toJson (s : Settings) : Json :=
  .object
    [("limits", .ofOption
        (fun l => .object [("low", .float l.low), ("high", .float l.high)]) s.limits),
      ("theme", .ofOption .string s.theme),
      ("sort_column", .ofOption (fun n => .ofNat n.toNat) s.sortColumn),
      ("exclude", .ofStrings s.exclude)]

/-- Reads limits as settings write them. -/
def readLimits : Json.Reader Limits := (Limits.shape "struct LimitConfig" "low" "high" true).read

/-- Reads the number of a column. -/
def readColumn : Json.Reader UInt64 := fun origin t =>
  return .ofNat (← Json.readNat UInt64.size "usize" origin t)

/-- The shape of settings. They are their own draft. -/
def shape : Json.Shape Settings Settings where
  title := "struct CovReportConfig"
  fields :=
    [.of "limits" (Json.readOption readLimits) fun s x => { s with limits := x },
      .of "theme" (Json.readOption Json.readString) fun s x => { s with theme := x },
      .of "sort_column" (Json.readOption readColumn) fun s x => { s with sortColumn := x },
      .of "exclude" (Json.readList Json.readString) fun s x => { s with exclude := x }]
  empty := {}
  finish := .ok
  strict := true
  lenient := true
  named := true

def reader : Json.Reader Settings := shape.read

/-! ## Checking -/

/-- How many columns an index table has. -/
def indexColumns : Nat := 5

/-- Why settings are not accepted. -/
inductive Refusal where
  | limits (cause : Limits.Refusal)
  | blankTheme
  | noSuchColumn (column : UInt64)
  | badGlob (text : String) (cause : Glob.Refusal)
  | globs (cause : Glob.SetRefusal)

/-- Accepts the limits of settings. -/
def checkLimits : Option Limits → Except Refusal Unit
  | none => .ok ()
  | some limits => match limits.check with
    | .ok () => .ok ()
    | .error cause => .error (.limits cause)

/-- Accepts a theme that is not blank. -/
def checkTheme : Option String → Except Refusal Unit
  | none => .ok ()
  | some theme => if Text.trim theme.toList = [] then .error .blankTheme else .ok ()

/-- Accepts a column of the table. -/
def checkColumn : Option UInt64 → Except Refusal Unit
  | none => .ok ()
  | some column => if indexColumns ≤ column.toNat then .error (.noSuchColumn column) else .ok ()

/-- Reads a glob of data files to leave out. -/
def readGlob (text : String) : Except Refusal Glob :=
  match Glob.parse text with
  | .ok glob => .ok glob
  | .error cause => .error (.badGlob text cause)

/-- Accepts settings, or says what is wrong with them first: limits, theme, column, globs. The
answer is the globs. -/
def check (s : Settings) : Except Refusal (List Glob) := do
  checkLimits s.limits
  checkTheme s.theme
  checkColumn s.sortColumn
  s.exclude.mapM readGlob

end Settings

/-! ## Settings as used -/

/-- Settings that were accepted, with their globs read. -/
structure ResolvedSettings where
  limits : Option Limits
  theme : Option String
  sortColumn : Option UInt64
  exclude : List Glob
  /-- The file that the settings come from. -/
  file : Option String

namespace ResolvedSettings

/-- The texts of the globs, in order. -/
def excludeTexts (s : ResolvedSettings) : List String := s.exclude.map (·.text)

/-- Whether a data file is to be left out. -/
def excludes (s : ResolvedSettings) (path : Path) : Bool :=
  s.exclude.any fun glob => glob.matchesPath path

/-- How index pages are sorted. -/
def sortIntent (s : ResolvedSettings) : SortIntent :=
  let intent := match s.theme with
    | some theme => SortIntent.standard.withTheme theme
    | none => .standard
  match s.sortColumn with
  | some column => intent.withColumn column
  | none => intent

/-- The settings under limits that were given besides, if any. -/
def withLimits (s : ResolvedSettings) : Option Limits → ResolvedSettings
  | some limits => { s with limits := some limits }
  | none => s

end ResolvedSettings

namespace Settings

/-- Accepts globs for use together. -/
def checkNesting (globs : List Glob) : Except Refusal Unit :=
  match Glob.checkNesting globs with
  | .ok () => .ok ()
  | .error cause => .error (.globs cause)

/-- Accepts settings and makes them ready for use. -/
def resolve (s : Settings) : Except Refusal ResolvedSettings := do
  let exclude ← s.check
  checkNesting exclude
  return { limits := s.limits, theme := s.theme, sortColumn := s.sortColumn, exclude, file := none }

end Settings

end CoveragePages
