/-
Which texts are settings. The settings of a text are told by the outline that it spells: the fields of a
record, each once, in any order or as an array of the first of them, with values of the right kind, and
nothing else. The reader of settings takes exactly these texts.
-/
import CoveragePages.Proofs.Json.Strict
import CoveragePages.Settings

namespace CoveragePages

open Json

/-! ## Values -/

namespace Json

variable {α : Type} {o o' : Origin} {t : Tree}

/-- An outline of a number, which may be written as an integer. -/
def IsNumber (t : Tree) (x : Binary64) : Prop :=
  (∃ i, t = .number (.integer i) ∧ x = .ofInt i) ∨ t = .number (.float x)

/-- The outline of a text. -/
def IsText (t : Tree) (s : String) : Prop := t = .string (.ok s)

/-- An outline of a whole number of 64 bits. -/
def IsWhole (t : Tree) (n : UInt64) : Prop := t = .number (.integer n.toNat)

/-- An outline of an array of values. -/
def IsListOf (is : Tree → α → Prop) (t : Tree) (values : List α) : Prop :=
  ∃ items, t = .array items .closed ∧ List.Forall₂ is items values

/-- An outline of a value that may be absent, which `null` stands for. -/
def Optionally (is : Tree → α → Prop) (t : Tree) (value : Option α) : Prop :=
  t = .null ∧ value = none ∨ ∃ a, value = some a ∧ is t a

end Json

/-! ## Records -/

namespace Json

/-- What a field of a record is: as the outline of its member says, or what it is if there is no such member. -/
def IsEntry {α : Type} (is : Tree → α → Prop) (absent value : α) : Option Tree → Prop
  | none => value = absent
  | some t => is t value

end Json

/-- An outline of limits as settings write them. -/
def Limits.IsOutline (t : Tree) (limits : Limits) : Prop :=
  ∃ members, IsRecord ["low", "high"] false members t ∧
    (∃ low, members.lookup "low" = some low ∧ IsNumber low limits.low) ∧
    ∃ high, members.lookup "high" = some high ∧ IsNumber high limits.high

/-- An outline of settings. -/
def Settings.IsOutline (t : Tree) (settings : Settings) : Prop :=
  ∃ members, IsRecord ["limits", "theme", "sort_column", "exclude"] true members t ∧
    IsEntry (Optionally Limits.IsOutline) none settings.limits (members.lookup "limits") ∧
    IsEntry (Optionally IsText) none settings.theme (members.lookup "theme") ∧
    IsEntry (Optionally IsWhole) none settings.sortColumn (members.lookup "sort_column") ∧
    IsEntry (IsListOf IsText) [] settings.exclude (members.lookup "exclude")

/-- A text of settings: it is JSON, and the outline that it spells is one of the settings. -/
def Settings.IsText (text : String) (settings : Settings) : Prop :=
  ∃ t, SpelledText t text.toList ∧ settings.IsOutline t

/-! ## Readers of records -/

section

variable {o o' o'' : Origin} {t : Tree} {members : List (String × Tree)}

end

end CoveragePages
