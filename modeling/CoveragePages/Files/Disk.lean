/-
A file system in memory: entries under the names that lead to them from the root, the files that have
several names, the directories that cannot be listed, and the directory that relative paths start from.
-/
import CoveragePages.Files.Walk

namespace CoveragePages

/-- What is stored under some names. -/
inductive Entry where
  | file (content : ByteArray)
  | directory
  /-- A symbolic link. -/
  | link (target : Path)
  /-- A device that takes whatever is written and has nothing to read. -/
  | device

/-- The kind of an entry. -/
def Entry.kind : Entry → EntryKind
  | file _ => .file
  | directory => .directory
  | link _ | device => .other

/-- A file system in memory. -/
structure Disk where
  entries : List (Location × Entry) := []
  /-- The names of each file that has several. -/
  twins : List (List Location) := []
  /-- The directories that cannot be listed. -/
  closed : List Location := []
  /-- The directory that relative paths start from. -/
  current : Location := []

namespace Disk

/-! ## Entries -/

/-- The entry under some names; the root is a directory. -/
def get? (disk : Disk) (place : Location) : Option Entry :=
  if place = [] then some .directory else disk.entries.lookup place

/-- The disk without an entry. -/
def erase (disk : Disk) (place : Location) : Disk :=
  { disk with entries := disk.entries.filter (·.1 != place) }

/-- The disk with an entry put in, in place of the one that is there. -/
def set (disk : Disk) (place : Location) (entry : Entry) : Disk :=
  { disk with entries := (place, entry) :: (disk.erase place).entries }

/-- The names of a file. -/
def namesOf (disk : Disk) (place : Location) : List Location :=
  place :: (disk.twins.filter (·.contains place)).flatten

/-- The disk with a content in a file, under all of its names. -/
def fill (disk : Disk) (place : Location) (content : ByteArray) : Disk :=
  (disk.namesOf place).foldl (fun disk name => disk.set name (.file content)) disk

/-- The disk with an entry under other names, in place of the one that is there. Nothing is done if
both are names of one file. -/
def move (disk : Disk) (source target : Location) (entry : Entry) : Disk :=
  if (disk.namesOf source).contains target then disk
  else
    let rename (names : List Location) : List Location :=
      (names.filter (· != target)).map fun place => if place = source then target else place
    { (disk.erase source).set target entry with twins := disk.twins.map rename }

/-! ## Where a path leads -/

/-- What a walk meets. -/
def look (disk : Disk) : Look := fun place =>
  match disk.get? place with
  | some .directory => .ok .enter
  | some (.link target) => .ok (.follow target)
  | some (.file _) | some .device => .error .notDirectory
  | none => .error .notFound

/-- Accepts a path that the system can take. -/
def checkPath (path : Path) : Except FileError Unit :=
  if path.bytes = [] then .error .notFound
  else if 0 ∈ path.bytes then .error .nulInName
  else if Path.maxBytes < path.bytes.length then .error .nameTooLong
  else .ok ()

/-- Where a path leads; `follow` says whether a link at its end is followed. -/
def locate (disk : Disk) (follow : Bool) (path : Path) : Except FileError Spot := do
  checkPath path
  disk.look.resolve follow maxLinks (path.startIn disk.current) path.pieces

/-! ## Looking -/

/-- The entry that a path leads to; a slash at the end asks for a directory. -/
def find (disk : Disk) (path : Path) : Except FileError Entry := do
  match ← disk.locate true path with
  | .directory _ => return .directory
  | .name directory name slash =>
    match disk.get? (directory ++ [name]) with
    | none => .error .notFound
    | some .directory => return .directory
    | some entry => if slash then .error .notDirectory else return entry

/-- The content of a file. -/
def readFile (disk : Disk) (path : Path) : Except FileError ByteArray := do
  match ← disk.find path with
  | .file content => return content
  | .directory => .error .isDirectory
  | .link _ => .error .tooManyLinks
  | .device => return ByteArray.empty

/-- What a path leads to, if anything. -/
def kind? (disk : Disk) (path : Path) : Option EntryKind :=
  (disk.find path).toOption.map Entry.kind

/-- Where the directory that a path leads to stands, if there is one. -/
def directory? (disk : Disk) (path : Path) : Option Location :=
  match disk.locate true path with
  | .ok (.directory place) => some place
  | .ok (.name directory name _) =>
    match disk.get? (directory ++ [name]) with
    | some .directory => some (directory ++ [name])
    | _ => none
  | .error _ => none

/-- The order of names, compared from the front. -/
def namesLe : Location → Location → Bool
  | [], _ => true
  | _ :: _, [] => false
  | a :: as, b :: bs => a < b || (a == b && namesLe as bs)

/-- Whether the directory of some names below another one can be listed, and all those between. -/
def lists (disk : Disk) (path : Path) (base names : Location) : Bool :=
  disk.closed.all (fun place => !(base.isPrefixOf place && place.isPrefixOf (base ++ names.dropLast))) &&
    (path.join (.ofNames names.dropLast)).bytes.length ≤ Path.maxBytes

/-- The regular files below a directory. -/
def filesBelow (disk : Disk) (path : Path) : List Location :=
  match disk.directory? path with
  | none => []
  | some base =>
    let below := disk.entries.filterMap fun
      | (place, .file _) =>
        let names := place.drop base.length
        if base.isPrefixOf place && disk.lists path base names then some names else none
      | _ => none
    below.mergeSort namesLe

/-! ## Changing -/

/-- Makes one directory. -/
def makeDirectory (disk : Disk) (path : Path) : Except FileError Disk := do
  match ← disk.locate false path with
  | .directory _ => .error .alreadyExists
  | .name directory name _ =>
    match disk.get? (directory ++ [name]) with
    | some _ => .error .alreadyExists
    | none => return disk.set (directory ++ [name]) .directory

/-- Makes a directory and those it lies in. The answer comes with the disk as far as it got. The
fuel bounds the number of components. -/
def makeDirectories : Nat → Path → Disk → Disk × Except FileError Unit
  | 0, _, disk => (disk, .error (.other "failed to create whole tree"))
  | fuel + 1, path, disk =>
    if path.bytes = [] then (disk, .ok ())
    else
      let there (disk : Disk) (e : FileError) : Disk × Except FileError Unit :=
        if disk.kind? path = some .directory then (disk, .ok ()) else (disk, .error e)
      match disk.makeDirectory path with
      | .ok disk => (disk, .ok ())
      | .error .notFound =>
        match path.parent? with
        | none => (disk, .error (.other "failed to create whole tree"))
        | some parent =>
          match makeDirectories fuel parent disk with
          | (disk, .error e) => (disk, .error e)
          | (disk, .ok ()) =>
            match disk.makeDirectory path with
            | .ok disk => (disk, .ok ())
            | .error e => there disk e
      | .error e => there disk e

/-- Writes a file. A link at the end of the path is followed, be there a file behind it or not. -/
def write (disk : Disk) (path : Path) (content : ByteArray) : Except FileError Disk := do
  match ← disk.locate true path with
  | .directory _ => .error .isDirectory
  | .name directory name slash =>
    let place := directory ++ [name]
    match disk.get? place with
    | none => if slash then .error .isDirectory else return disk.set place (.file content)
    | some .directory => .error .isDirectory
    | some (.file _) => if slash then .error .notDirectory else return disk.fill place content
    | some .device => if slash then .error .notDirectory else return disk
    | some (.link _) => .error .tooManyLinks

/-- Renames a file, a link or a device; a link at the end of a path is not followed. -/
def rename (disk : Disk) (source target : Path) : Except FileError Disk := do
  match ← disk.locate false source, ← disk.locate false target with
  | .name sourceDirectory sourceName sourceSlash, .name targetDirectory targetName targetSlash =>
    match disk.get? (sourceDirectory ++ [sourceName]) with
    | none => .error .notFound
    | some .directory => .error .isDirectory
    | some entry =>
      if sourceSlash || targetSlash then .error .notDirectory
      else match disk.get? (targetDirectory ++ [targetName]) with
        | some .directory => .error .isDirectory
        | _ => return disk.move (sourceDirectory ++ [sourceName]) (targetDirectory ++ [targetName]) entry
  | _, _ => .error .busy

/-- Carries out a change; the answer comes with the disk afterwards. -/
def perform (step : FileStep) (disk : Disk) : Disk × Except FileError Unit :=
  let settle : Except FileError Disk → Disk × Except FileError Unit
    | .ok disk => (disk, .ok ())
    | .error e => (disk, .error e)
  match step with
  | .createDirectories path => makeDirectories (path.parts.length + 1) path disk
  | .write path content => settle (disk.write path content)
  | .rename source target => settle (disk.rename source target)

end Disk

/-- A disk as the state of a program. -/
instance : FileStore (StateM Disk) where
  currentDirectory := return .ok (.ofParts true (← get).current)
  readFile path := return (← get).readFile path
  kind? path := return (← get).kind? path
  filesBelow path := return (← get).filesBelow path
  perform step := do
    let (disk, result) := (← get).perform step
    set disk
    return result

end CoveragePages
