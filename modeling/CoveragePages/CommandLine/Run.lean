/-
Running commands. A run works on a file system and collects what is written to the two output
streams; a failure is reported at the end and sets the exit code.
-/
import CoveragePages.CommandLine.Arguments
import CoveragePages.Report.Publish
import CoveragePages.Surface.Recorder

namespace CoveragePages

/-! ## Output -/

/-- What a run writes. -/
structure Console where
  out : String := ""
  err : String := ""

/-- How a run ends. -/
structure Outcome where
  exit : Nat
  console : Console

/-- A computation that writes to a console and may fail. -/
abbrev Run (m : Type → Type) (α : Type) := ExceptT Failure (StateT Console m) α

section

variable {m : Type → Type} [Monad m]

/-- Writes a text to the output. -/
def say (text : String) : Run m Unit := modify fun c => { c with out := c.out ++ text }

/-- Writes a line to the error output. -/
def note (line : String) : Run m Unit := modify fun c => { c with err := c.err ++ line ++ "\n" }

/-- Runs a task, which writes nothing. -/
def Task.onConsole {α : Type} (task : Task m α) : Run m α := ExceptT.mk (StateT.lift task.run)

end

/-! ## Texts -/

/-- A text with every line but the first one indented. -/
def indentRest (indent text : String) : String :=
  Text.join ("\n" ++ indent) ((Text.splitOn '\n' text.toList).map String.ofList)

/-- A cause in a list of several, under its number. -/
def numberedCause (number : Nat) (text : String) : String :=
  "    " ++ toString number ++ ": " ++ indentRest "       " text

/-- The causes below the first text of a failure. -/
def causeLines : List String → List String
  | [] => []
  | [text] => ["", "Caused by:", "    " ++ indentRest "    " text]
  | texts => "" :: "Caused by:" :: texts.mapIdx numberedCause

/-- The report of a failure that ends a run. -/
def Failure.report (f : Failure) : String :=
  match f.chain with
  | [] => "Error: "
  | first :: rest => Text.join "\n" (("Error: " ++ first) :: causeLines rest)

/-- The limits as `config show` displays them. -/
def limitLines : Option Limits → List String
  | some limits => ["  low: " ++ Limits.plain limits.low, "  high: " ++ Limits.plain limits.high]
  | none => ["  from page data"]

/-- The settings as `config show` displays them. -/
def ResolvedSettings.describe (s : ResolvedSettings) : String :=
  let source := match s.file with
    | some file => "  Source: " ++ file
    | none => "  Source: defaults (no config file found)"
  let intent := s.sortIntent
  let column := match intent.keys with
    | key :: _ => ["  initial column: " ++ toString key.column.toNat]
    | [] => []
  let globs := if s.exclude.isEmpty then ["  (none)"] else s.excludeTexts.map ("  " ++ ·)
  String.join ((["Configuration:", source, "", "Limits:"] ++ limitLines s.limits ++
    ["", "Sorting:", "  theme: " ++ intent.theme] ++ column ++
    ["", "Exclude:"] ++ globs).map (· ++ "\n"))

/-- The warning about a page that was not applied in full. -/
def warning? (out : Path) (report : ApplyReport) : Option String :=
  if report.isComplete then none
  else
    let problems := report.errors.map SurfaceError.message
    let reason := if problems.isEmpty then "steps skipped" else Text.join "; " problems
    some ("warning: " ++ out.text ++ " rendered partially (" ++ reason ++ ")")

/-- A plan, and the report of a dry run on a surface that only records. -/
def RenderPlan.dryRun (plan : RenderPlan) : ApplyReport :=
  (plan.apply (Recorder.ofPage plan.page)).2

/-- What `plan` displays of a plan. -/
def RenderPlan.describe (plan : RenderPlan) : String :=
  let both := Json.object [("plan", plan.toJson), ("report", plan.dryRun.toJson)]
  both.sortKeys.pretty ++ "\n"

/-! ## Commands -/

section

variable {m : Type → Type} [Monad m] [FileStore m]

/-- The current directory. -/
def currentDirectory : Task m Path := do
  let look : m (Except FileError Path) := FileStore.currentDirectory
  Task.lift (fun e => .of (.file e)) (← look)

/-- Loads the settings that an invocation asks for. -/
def settingsOf (explicit : Option Path) (limits : Option Limits) : Task m ResolvedSettings := do
  let root ← currentDirectory
  let settings ← ExceptT.adapt (Failure.within .loadingSettings) (loadSettings root explicit)
  return settings.withLimits limits

/-- Loads the settings that pages are rendered under, and says where they are from. -/
def announceSettings (invocation : Invocation) : Run m ResolvedSettings := do
  let settings ← (settingsOf invocation.settings invocation.limits).onConsole
  if let some file := settings.file then note ("Using config: " ++ file)
  return settings

/-- Writes the warning about a page, if there is one. -/
def noteWarning (out : Path) (report : ApplyReport) : Run m Unit :=
  match warning? out report with
  | some line => note line
  | none => return ()

/-- Renders one page. -/
def runRender (invocation : Invocation) (kind : PageKind) (data : Path) (output : Option Path) :
    Run m Unit := do
  let settings ← announceSettings invocation
  let out := output.getD (defaultOutput data)
  let report ← (renderPage data kind out settings).onConsole
  noteWarning out report
  note ("HTML report written to: " ++ out.text)

/-- Displays the plan of a page. -/
def runPlan (invocation : Invocation) (data : Path) (kind : PageKind) : Run m Unit := do
  let settings ← announceSettings invocation
  let plan ← (loadPlan kind data settings).onConsole
  say plan.describe

/-- Renders every page below a directory. -/
def runBuild (invocation : Invocation) (directory : Path) (output : Option Path) :
    Run m Unit := do
  let kind : Option EntryKind ← (FileStore.kind? directory : m (Option EntryKind))
  if kind ≠ some .directory then throw (.of (.notDirectory directory))
  let settings ← announceSettings invocation
  let outDirectory := output.getD directory
  let summary : BuildSummary ← (buildReports directory outDirectory settings : m BuildSummary)
  for (out, report) in summary.written do
    noteWarning out report
  note ("Rendered " ++ toString summary.written.length ++ " page(s) into " ++ outDirectory.text)
  if !summary.failed.isEmpty then
    for (out, f) in summary.failed do
      note ("  " ++ out.text ++ ": " ++ f.message)
    throw (.of (.pagesFailed summary.failed.length))

/-- Checks the settings. The answer is whether they are valid. -/
def runValidate (path : Option Path) : Run m Bool := do
  let root ← currentDirectory.onConsole
  let settings : Except Failure ResolvedSettings ←
    ((loadSettings root path).run : m (Except Failure ResolvedSettings))
  match settings with
  | .ok settings =>
    match settings.file with
    | some file => say ("Config valid: " ++ file ++ "\n")
    | none => say "No config file found. Using defaults.\n"
    return true
  | .error f =>
    note ("Config validation failed: " ++ f.message)
    return false

/-- Displays the settings. -/
def runShow (invocation : Invocation) (path : Option Path) : Run m Unit := do
  let settings ← (settingsOf path invocation.limits).onConsole
  say settings.describe

/-- Runs a command. The answer is whether it went well. -/
def runCommand (invocation : Invocation) : Run m Bool := do
  match invocation.command with
  | .render kind data output => runRender invocation kind data output; return true
  | .plan data kind => runPlan invocation data kind; return true
  | .build directory output _ => runBuild invocation directory output; return true
  | .validate path => runValidate path
  | .show_ path => runShow invocation path; return true

/-- Runs a command and reports its failure. -/
def Invocation.run (invocation : Invocation) : m Outcome := do
  let (result, console) ← (runCommand invocation).run.run {}
  match result with
  | .ok true => return ⟨0, console⟩
  | .ok false => return ⟨1, console⟩
  | .error f => return ⟨1, { console with err := console.err ++ f.report ++ "\n" }⟩

/-- Runs the program. Arguments that are not understood are an error of their own. -/
def runProgram (arguments : List String) : m Outcome :=
  match Arguments.read arguments with
  | .ok invocation => invocation.run
  | .error refusal => return ⟨2, { err := "error: " ++ refusal.message ++ "\n" }⟩

end

end CoveragePages
