/-
What the program needs of a file system, and why its operations fail. Changes are steps, as data;
they are carried out one at a time.
-/
import CoveragePages.Files.Path

namespace CoveragePages

/-- Why a file operation fails. -/
inductive FileError where
  | notFound
  | alreadyExists
  | notDirectory
  | isDirectory
  | busy
  | nameTooLong
  | tooManyLinks
  | nulInName
  | notText
  | other (reason : String)
  deriving DecidableEq

def FileError.message : FileError → String
  | notFound => "No such file or directory (os error 2)"
  | alreadyExists => "File exists (os error 17)"
  | notDirectory => "Not a directory (os error 20)"
  | isDirectory => "Is a directory (os error 21)"
  | busy => "Device or resource busy (os error 16)"
  | nameTooLong => "File name too long (os error 36)"
  | tooManyLinks => "Too many levels of symbolic links (os error 40)"
  | nulInName => "file name contained an unexpected NUL byte"
  | notText => "stream did not contain valid UTF-8"
  | other reason => reason

/-- What a path may lead to. -/
inductive EntryKind where
  | file
  | directory
  /-- A device, or whatever else is no file with a content. -/
  | other
  deriving DecidableEq

/-- A change to the file system. -/
inductive FileStep where
  /-- Makes a directory, and those it lies in, unless they are there. -/
  | createDirectories (path : Path)
  /-- Writes a file, in place of the one that is there. -/
  | write (path : Path) (content : ByteArray)
  /-- Renames a file, in place of the one that is there, all at once. -/
  | rename (source target : Path)

/-- A file system that is worked on in a monad. -/
class FileStore (m : Type → Type) where
  /-- The directory that relative paths start from. -/
  currentDirectory : m (Except FileError Path)
  /-- The content of a file. -/
  readFile (path : Path) : m (Except FileError ByteArray)
  /-- What a path leads to, if anything. -/
  kind? (path : Path) : m (Option EntryKind)
  /-- The regular files below a directory, each as the names that lead to it, in the order of the
  names. Links are not followed, and what lies in a directory that cannot be listed is left out. -/
  filesBelow (path : Path) : m (List Location)
  /-- Carries out a change. -/
  perform (step : FileStep) : m (Except FileError Unit)

end CoveragePages
