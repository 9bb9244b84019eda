/-
A surface that only records what is done to it, for dry runs. It has a declared set of ids and
slots, and writing to any other fails.
-/
import CoveragePages.Surface.Basic

namespace CoveragePages

/-- An operation that succeeded. -/
inductive SurfaceOp where
  | text (target text : String)
  | class_ (target cls : String)
  | bind (slot : String) (rows : Nat)
  | sort (table : String) (intent : SortIntent)

/-- A recording surface. -/
structure Recorder where
  ids : List String
  slots : List String
  texts : Dict String := []
  classes : Dict String := []
  rows : Dict Nat := []
  sort : Option (String × SortIntent) := none
  /-- The operations that succeeded, in order. -/
  ops : List SurfaceOp := []

namespace Recorder

/-- The untouched recorder of a page. -/
def ofPage (kind : PageKind) : Recorder := { ids := kind.ids, slots := kind.slots }

/-- An operation on a declared element. -/
def onElement (id : String) (update : Recorder → Recorder) (r : Recorder) :
    Recorder × Except SurfaceError Unit :=
  if id ∈ r.ids then (update r, .ok ()) else (r, .error (.noElement id))

instance : DisplaySurface Recorder where
  setText target text := onElement target fun r =>
    { r with texts := r.texts.insert target text, ops := r.ops ++ [.text target text] }
  setClass target cls := onElement target fun r =>
    { r with classes := r.classes.insert target cls, ops := r.ops ++ [.class_ target cls] }
  bindTemplate slot records r :=
    if slot ∈ r.slots then
      ({ r with
          rows := r.rows.insert slot records.length
          ops := r.ops ++ [.bind slot records.length] }, .ok records.length)
    else (r, .error (.noSlot slot))
  activateSort table intent := onElement table fun r =>
    { r with sort := some (table, intent), ops := r.ops ++ [.sort table intent] }

end Recorder

end CoveragePages
