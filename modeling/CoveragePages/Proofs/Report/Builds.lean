/-
Builds. A build that renders its pages one after the other is one of the schedules, where each page takes
all of its turns in a row, so that the order of turns does not count is a statement about all of them.
-/
import CoveragePages.Proofs.Report.Interleaving

namespace CoveragePages

open CoveragePages.Path

/-! ## The build one after the other -/

/-- What became of pages that ended with some results. -/
def BuildSummary.of (results : List (Path × Except Failure ApplyReport)) : BuildSummary where
  written := results.filterMap fun (out, result) => match result with
    | .ok report => some (out, report)
    | .error _ => none
  failed := results.filterMap fun (out, result) => match result with
    | .ok _ => none
    | .error f => some (out, f)

namespace Build

variable (b : Build)

/-- The results of the pages, one after the other. -/
def results : List (Except Failure ApplyReport) := (((b.files.map b.page).mapM Process.onDisk).run b.disk).1

section

variable {b} {base : Location} (site : b.Site base)

include site

end

/-! ## The order of turns -/

section

variable {b} {base : Location} (site : b.Site base) {schedule schedule' : List Nat}

include site

end

end Build

/-- A directory with two data files: one of an index page, and one of a source page that does not load. -/
def sampleBuild : Build where
  disk := { entries := [([nameOf "d"], .directory), ([nameOf "d", nameOf "index.json"], .file bareText.toUTF8),
    ([nameOf "d", nameOf "a.c.1f.json"], .file "[]".toUTF8)] }
  directory := .ofText "/d"
  outDirectory := .ofText "/o"
  settings := sampleSettings.withLimits (some .standard)

/-- Whether the data of a page loads. -/
def Build.loads (b : Build) (names : Location) : Bool :=
  ((loadPlan (.ofDataFile names) (b.data names) b.settings : Task (StateM Disk) RenderPlan).run
    b.disk).1.toOption.isSome

theorem Build.document_of_loads {b : Build} {names : Location} (h : b.loads names = true) :
    ∃ document report, b.document names = .ok (document, report) := by
  cases hdocument : b.document names with
  | ok result => exact ⟨result.1, result.2, rfl⟩
  | error f =>
    rw [Build.loads, Build.document_error.1 hdocument] at h
    cases h

theorem sampleBuild_loads : sampleBuild.loads [nameOf "index.json"] = true ∧
    sampleBuild.loads [nameOf "a.c.1f.json"] = false := by
  decide +kernel

/-- A page with a directory of its own. -/
def samplePage : Path := .ofText "/o/index.html"

theorem samplePage_parent : samplePage.parent? = some (.ofText "/o") := by decide

/-- A disk with a data file, and with more. -/
def dataDisk (more : List (Location × Entry)) : Disk where
  entries := [([nameOf "d"], .directory), ([nameOf "d", nameOf "index.json"], .file bareText.toUTF8)] ++ more

/-- A page from before. -/
def oldPage : ByteArray := "old".toUTF8

/-- A disk where something is at the place of the page and of its temporary file. -/
def placedDisk (page draft : Entry) : Disk :=
  dataDisk [([nameOf "o"], .directory), ([nameOf "o", nameOf "s"], .directory),
  ([nameOf "o", nameOf "index.html"], page), ([nameOf "o", nameOf "index.html.tmp"], draft)]

/-- The temporary file is a device. -/
def deviceDraft : Disk := placedDisk (.file oldPage) .device

theorem toUTF8_ne_empty {document : String} (h : document ≠ "") : document.toUTF8 ≠ ByteArray.empty := fun hempty =>
  h (String.toByteArray_inj.1 (hempty.trans rfl))

/-- A device takes the document, and then its place. -/
theorem deviceDraft_run (content : ByteArray) :
    ∃ now, deviceDraft.write (temporaryPath samplePage) content = .ok deviceDraft ∧
    deviceDraft.rename (temporaryPath samplePage) samplePage = .ok now ∧
      now.readFile samplePage = .ok ByteArray.empty := by
  have hlocate : deviceDraft.locate true (temporaryPath samplePage) =
      .ok (.name [nameOf "o"] (nameOf "index.html.tmp") false) := by decide
  have hrename : (deviceDraft.rename (temporaryPath samplePage) samplePage).toOption.map (·.readFile samplePage) =
      some (.ok ByteArray.empty) := by decide
  cases hnow : deviceDraft.rename (temporaryPath samplePage) samplePage with
  | error e => rw [hnow] at hrename; cases hrename
  | ok now =>
    rw [hnow] at hrename
    refine ⟨now, ?_, rfl, Option.some.inj hrename⟩
    rw [Disk.write, hlocate]
    rfl

end CoveragePages
