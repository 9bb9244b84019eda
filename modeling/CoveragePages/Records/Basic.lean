/-
Records: one row of data each, with fields of any shape, which pass through to the page untouched.
A dataset is a list of records with the role they play on a page.
-/
import CoveragePages.Json.Decode

namespace CoveragePages

/-! ## Records -/

/-- One row of data. -/
structure Record where
  fields : Dict Json

namespace Record

def empty : Record := ⟨[]⟩

/-- The value of a field. -/
def get? (record : Record) (field : String) : Option Json := record.fields.get? field

/-- The record with a field set. -/
def insert (record : Record) (field : String) (value : Json) : Record :=
  ⟨record.fields.insert field value⟩

/-- The record with a field set to a text. -/
def insertText (record : Record) (field text : String) : Record :=
  record.insert field (.string text)

/-- A field as it is displayed: a string as it is, nothing for `null` or a missing field, and the
JSON text of anything else. -/
def fieldText (record : Record) (field : String) : String :=
  match record.get? field with
  | none | some .null => ""
  | some (.string s) => s
  | some value => value.compact

def toJson (record : Record) : Json := .object record.fields

def reader : Json.Reader Record := fun origin t => return ⟨← Json.readObject origin t⟩

/-- Records as JSON. -/
def listToJson (records : List Record) : Json := .array (records.map toJson)

end Record

/-! ## Datasets -/

/-- The role of a dataset on a page. -/
inductive DatasetRole where
  /-- The files of an index page. -/
  | main
  /-- The merged runs of an index page. -/
  | merged
  /-- The lines of a source page. -/
  | source
  deriving DecidableEq

namespace DatasetRole

def name : DatasetRole → String
  | main => "main"
  | merged => "merged"
  | source => "source"

/-- The slot of a page that the dataset fills. -/
def slot : DatasetRole → String
  | main => "main-data"
  | merged => "merged-data"
  | source => "source-code"

def toJson (role : DatasetRole) : Json := .string role.name

def reader : Json.Reader DatasetRole :=
  Json.readVariant [("main", main), ("merged", merged), ("source", source)]

end DatasetRole

/-- Records in order, and the role they play. -/
structure Dataset where
  role : DatasetRole
  records : List Record

namespace Dataset

def empty (role : DatasetRole) : Dataset := ⟨role, []⟩

def size (dataset : Dataset) : Nat := dataset.records.length

def isEmpty (dataset : Dataset) : Bool := dataset.records.isEmpty

def toJson (dataset : Dataset) : Json :=
  .object [("role", dataset.role.toJson), ("records", Record.listToJson dataset.records)]

/-- A draft of a dataset. -/
structure Draft where
  role : Option DatasetRole := none
  records : Option (List Record) := none

def shape : Json.Shape Draft Dataset where
  title := "struct Dataset"
  fields :=
    [.of "role" DatasetRole.reader fun d x => { d with role := some x },
      .of "records" (Json.readList Record.reader) fun d x => { d with records := some x }]
  empty := {}
  finish d := do return ⟨← Json.required "role" d.role, ← Json.required "records" d.records⟩
  strict := false
  lenient := false
  named := true

def reader : Json.Reader Dataset := shape.read

end Dataset

end CoveragePages
