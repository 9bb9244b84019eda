/-
The program: it runs on the file system it is started in, and then writes what the run collected.
-/
import CoveragePages.CommandLine.Run

namespace CoveragePages

/-! ## Errors of the system -/

/-- The number of an error of the system. Some operations report it with a minus sign. -/
def errorNumber (code : UInt32) : UInt32 := min code (0 - code)

/-- The reason behind an error of the system. -/
def FileError.ofSystem (e : IO.Error) : FileError :=
  match e with
  | .noFileOrDirectory .. => .notFound
  | .alreadyExists .. => .alreadyExists
  | .resourceBusy .. => .busy
  | .inappropriateType _ code _ =>
    if errorNumber code = 20 then .notDirectory
    else if errorNumber code = 21 then .isDirectory
    else .other (toString e)
  | .invalidArgument _ code _ =>
    if errorNumber code = 36 then .nameTooLong
    else if errorNumber code = 40 then .tooManyLinks
    else .other (toString e)
  | _ => .other (toString e)

/-- The answer of an action, or why it failed. -/
def answerOf {α : Type} (action : IO α) : IO (Except FileError α) := do
  match ← action.toBaseIO with
  | .ok a => return .ok a
  | .error e => return .error (.ofSystem e)

/-! ## The file system -/

/-- What a path leads to, if anything. -/
def entryKind? (path : Path) : IO (Option EntryKind) := do
  let file := { ← IO.currentDir with toString := path.text }
  let .ok found ← answerOf file.metadata | return none
  match found.type with
  | .dir => return some .directory
  | .file => return some .file
  | _ => return some .other

/-- The regular files below a directory, with some names put in front of each. What cannot be
looked at is passed over, and so is what has a name that is no text. -/
partial def filesUnder (directory : String) (names : Location) : IO (List Location) := do
  let here ← IO.currentDir
  let .ok entries ← answerOf { here with toString := directory }.readDir | return []
  let mut files := []
  for name in (entries.map (·.fileName)).toList.mergeSort (· ≤ ·) do
    let path := directory ++ "/" ++ name
    let .ok found ← answerOf { here with toString := path }.symlinkMetadata | continue
    match found.type with
    | .dir => files := files ++ (← filesUnder path (names ++ [Path.nameOf name]))
    | .file => files := files ++ [names ++ [Path.nameOf name]]
    | _ => continue
  return files

/-- Makes one directory, unless it is there. The answer may still be that it lies in none. -/
def makeDirectory (path : Path) : IO (Except FileError Unit) := do
  match ← answerOf (IO.FS.createDir path.text) with
  | .ok () => return .ok ()
  | .error e =>
    if (← entryKind? path) = some .directory then return .ok () else return .error e

/-- Makes a directory and those it lies in. -/
partial def makeDirectories (path : Path) : IO (Except FileError Unit) := do
  if path.bytes.isEmpty then return .ok ()
  match ← makeDirectory path, path.parent? with
  | .error .notFound, some parent =>
    match ← makeDirectories parent with
    | .ok () => makeDirectory path
    | .error e => return .error e
  | made, _ => return made

/-- The file system that the program is started in. -/
instance : FileStore IO where
  currentDirectory := answerOf do return .ofText (← IO.currentDir).toString
  readFile path := answerOf (IO.FS.readBinFile path.text)
  kind? := entryKind?
  filesBelow path := filesUnder path.text []
  perform
    | .createDirectories path => makeDirectories path
    | .write path content => answerOf (IO.FS.writeBinFile path.text content)
    | .rename source target => answerOf (IO.FS.rename source.text target.text)

end CoveragePages

/-- Runs the program with the arguments it is started with. -/
def main (arguments : List String) : IO UInt32 := do
  let outcome : CoveragePages.Outcome ← CoveragePages.runProgram arguments
  IO.print outcome.console.out
  IO.eprint outcome.console.err
  return outcome.exit.toUInt32
