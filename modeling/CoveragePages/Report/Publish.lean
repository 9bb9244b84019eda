/-
Writing pages. A page is written to a temporary file beside its place and then renamed, so that its
place holds either what was there before or the whole page. A build renders every data file below a
directory.
-/
import CoveragePages.Report.Load

namespace CoveragePages

/-! ## Publishing a document -/

/-- The temporary file of a page. -/
def temporaryPath (out : Path) : Path := out.withExtension "html.tmp"

/-- The steps that put a document in its place. -/
def publishSteps (out : Path) (document : String) : List FileStep :=
  (out.parent?.map FileStep.createDirectories).toList ++
    [.write (temporaryPath out) document.toUTF8, .rename (temporaryPath out) out]

/-- What a step of publishing does. -/
def FileStep.context : FileStep → Context
  | createDirectories path => .creatingDirectory path
  | write path _ => .writingTemporary path
  | rename _ target => .renamingTo target

section

variable {m : Type → Type} [Monad m] [FileStore m]

/-- Carries out steps in order, up to the first that fails. -/
def performAll (steps : List FileStep) : Task m Unit :=
  steps.forM fun step => Task.file step.context (FileStore.perform step)

/-- Renders a page and writes it. Nothing is written if the page does not load. -/
def renderPage (data : Path) (kind : PageKind) (out : Path) (settings : ResolvedSettings) :
    Task m ApplyReport := do
  let plan ← loadPlan kind data settings
  let (document, report) ← Task.lift Failure.ofHtmlPage plan.document
  performAll (publishSteps out document)
  return report

end

/-! ## Data files -/

/-- The place of a page whose data is in a file, unless another one is given. -/
def defaultOutput (data : Path) : Path := data.withExtension "html"

/-- The name of the data file of an index page. -/
def indexDataName : String := "index.json"

/-- Whether a character is an ASCII hexadecimal digit. -/
def isHexDigit (c : Char) : Bool :=
  c.isDigit || ('a' ≤ c && c ≤ 'f') || ('A' ≤ c && c ≤ 'F')

/-- Whether a file holds page data by its name: `index.json`, or `FILE.CRC.json` with a hexadecimal
checksum. -/
def isPageDataName (name : String) : Bool :=
  name == indexDataName ||
    match Text.dropEnd? ".json".toList name.toList with
    | none => false
    | some stem =>
      match Text.breakOnLast? '.' stem with
      | some (file, crc) => !file.isEmpty && !crc.isEmpty && crc.all isHexDigit
      | none => false

/-- The kind of page that a data file is for. -/
def PageKind.ofDataFile (names : Location) : PageKind :=
  if names.getLast? = some (Path.nameOf indexDataName) then .index else .source

/-- Whether a build renders the file with some names. A file with a name that is no text is left out. -/
def isBuilt (settings : ResolvedSettings) (names : Location) : Bool :=
  (names.getLast?.any fun name => (Text.decode? name).any isPageDataName) &&
    !settings.excludes (.ofNames names)

/-! ## Building -/

/-- What became of the pages of a build, in order. -/
structure BuildSummary where
  written : List (Path × ApplyReport)
  failed : List (Path × Failure)

section

variable {m : Type → Type} [Monad m] [FileStore m]

/-- The data files below a directory, each as the names that lead to it. -/
def findDataFiles (directory : Path) (settings : ResolvedSettings) : m (List Location) := do
  return (← FileStore.filesBelow directory).filter (isBuilt settings)

/-- The place of the page of a data file. -/
def outputPath (outDirectory : Path) (names : Location) : Path :=
  defaultOutput (outDirectory.join (.ofNames names))

/-- Renders some data files, one after the other. A page that fails stops no other. -/
def renderFiles (directory outDirectory : Path) (settings : ResolvedSettings) :
    List Location → m BuildSummary
  | [] => return ⟨[], []⟩
  | names :: rest => do
    let out := outputPath outDirectory names
    let result ← (renderPage (directory.join (.ofNames names)) (.ofDataFile names) out settings).run
    let summary ← renderFiles directory outDirectory settings rest
    match result with
    | .ok report => return { summary with written := (out, report) :: summary.written }
    | .error f => return { summary with failed := (out, f) :: summary.failed }

/-- Renders every data file below a directory. -/
def buildReports (directory outDirectory : Path) (settings : ResolvedSettings) :
    m BuildSummary := do
  renderFiles directory outDirectory settings (← findDataFiles directory settings)

end

end CoveragePages
