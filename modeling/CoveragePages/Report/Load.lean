/-
Loading settings and pages from files. An explicit settings file counts before the ones that are
looked for; the first file that exists is the one that is used, and must be readable. Limits of the
settings replace those of a page.
-/
import CoveragePages.Failure

namespace CoveragePages

/-- A computation on a file system that may fail. -/
abbrev Task (m : Type → Type) (α : Type) := ExceptT Failure m α

namespace Task

/-- The result of a part of a task, or its failure in some context. -/
def lift {m : Type → Type} [Monad m] {ε α : Type} (failure : ε → Failure) :
    Except ε α → Task m α
  | .ok a => return a
  | .error e => throw (failure e)

/-- A file operation, whose error fails the task in a context. -/
def file {m : Type → Type} [Monad m] {α : Type} (context : Context)
    (operation : m (Except FileError α)) : Task m α := do
  Task.lift (fun e => (Failure.of (.file e)).within context) (← operation)

end Task

section

variable {m : Type → Type} [Monad m] [FileStore m]

def readText (path : Path) : m (Except FileError String) := do
  match ← FileStore.readFile path with
  | .error e => return .error e
  | .ok content =>
    match String.fromUTF8? content with
    | some text => return .ok text
    | none => return .error .notText

/-! ## Settings -/

/-- Loads the settings of a file. -/
def loadSettingsFile (path : Path) : Task m Settings := do
  let text ← Task.file (.readingSettings path) (readText path)
  let settings ← Task.lift (fun e => (Failure.of (.json e)).within (.parsingSettings path))
    (Json.readText Settings.reader text)
  let _ ← Task.lift (fun e => (Failure.ofSettings e).within (.checkingSettings path)) settings.check
  return settings

/-- The names of settings files that are looked for, in order. -/
def settingsFileNames : List String := [".covreportrc.json", "covreport.config.json"]

/-- The first of some files that exists. -/
def firstExisting : List Path → m (Option Path)
  | [] => return none
  | path :: rest => do
    match ← FileStore.kind? path with
    | some _ => return some path
    | none => firstExisting rest

/-- The file that settings are loaded from: the explicit one, or the first one found in the root
directory. -/
def settingsFile (root : Path) : Option Path → m (Option Path)
  | some path => return some path
  | none => firstExisting (settingsFileNames.map fun name => root.join (.ofText name))

/-- Loads and resolves the settings; without a file there are none. -/
def loadSettings (root : Path) (explicit : Option Path) : Task m ResolvedSettings := do
  let file : Option Path ← (settingsFile root explicit : m (Option Path))
  let settings ← match file with
    | some path => loadSettingsFile path
    | none => pure {}
  let resolved ← Task.lift Failure.ofSettings settings.resolve
  return { resolved with file := file.map (·.text) }

/-! ## Pages -/

/-- Loads the data of a page. -/
def loadPageFile (path : Path) : Task m PageData := do
  let text ← Task.file (.readingPage path) (readText path)
  Task.lift (fun e => (Failure.ofPageData e).within (.parsingPage path)) (PageData.parse text)

/-- Loads the data of a page, under the limits of the settings if there are any. -/
def loadPage (path : Path) (settings : ResolvedSettings) : Task m PageData := do
  let page ← loadPageFile path
  match settings.limits with
  | some limits => return page.withLimits limits
  | none => return page

/-- Loads the context of an index page. -/
def loadIndexContext (path : Path) (settings : ResolvedSettings) : Task m IndexContext := do
  let page ← loadPage path settings
  Task.lift (fun item => .of (.missingItem item)) (page.indexContext settings.sortIntent)

/-- Loads the context of a source page. -/
def loadSourceContext (path : Path) (settings : ResolvedSettings) : Task m SourceContext := do
  let page ← loadPage path settings
  Task.lift (fun item => .of (.missingItem item)) page.sourceContext

/-- Loads a page and makes the plan for it. -/
def loadPlan (kind : PageKind) (path : Path) (settings : ResolvedSettings) : Task m RenderPlan :=
  match kind with
  | .index => return (← loadIndexContext path settings).plan
  | .source => return (← loadSourceContext path settings).plan

end

end CoveragePages
