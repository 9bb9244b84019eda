/-
Render plans: what goes where on a page, as data. A plan knows nothing of the surface that it will
be applied to.
-/
import CoveragePages.Page
import CoveragePages.Surface.Basic

namespace CoveragePages

/-! ## Steps -/

/-- What a display write sets. -/
inductive WriteKind where
  | text
  | class_
  deriving DecidableEq

def WriteKind.name : WriteKind → String
  | text => "text"
  | class_ => "class"

/-- A value for the text or class of an element. -/
structure DisplayWrite where
  target : String
  kind : WriteKind
  value : String
  deriving DecidableEq

def DisplayWrite.toJson (w : DisplayWrite) : Json :=
  .object
    [("target", .string w.target), ("kind", .string w.kind.name), ("value", .string w.value)]

/-- Records for a slot. -/
structure TemplateBinding where
  slot : String
  records : List Record

def TemplateBinding.members (b : TemplateBinding) : List (String × Json) :=
  [("slot", .string b.slot), ("records", Record.listToJson b.records)]

/-- The start of sorting a table, which needs the rows of a slot. -/
structure SortActivation where
  table : String
  intent : SortIntent
  requires : String

def SortActivation.members (s : SortActivation) : List (String × Json) :=
  [("table", .string s.table), ("intent", s.intent.toJson), ("requires", .string s.requires)]

/-- A step of a plan. -/
inductive RenderStep where
  | bind (binding : TemplateBinding)
  | header (writes : List DisplayWrite)
  | activateSort (activation : SortActivation)

/-- The label of the step that binds a slot. -/
def bindLabel (slot : String) : String := "bind " ++ slot

def RenderStep.label : RenderStep → String
  | bind b => bindLabel b.slot
  | header _ => "header"
  | activateSort s => "sort #" ++ s.table

/-- Writes as JSON. -/
def writesToJson (writes : List DisplayWrite) : Json := .array (writes.map DisplayWrite.toJson)

def RenderStep.toJson : RenderStep → Json
  | bind b => .object (("step", .string "bind") :: b.members)
  | header writes => .object [("step", .string "header"), ("writes", writesToJson writes)]
  | activateSort s => .object (("step", .string "activate_sort") :: s.members)

/-! ## Plans -/

/-- A plan for a page. -/
structure RenderPlan where
  page : PageKind
  steps : List RenderStep

namespace RenderPlan

/-- The bindings of a plan, in order. -/
def bindings (plan : RenderPlan) : List TemplateBinding :=
  plan.steps.filterMap fun
    | .bind b => some b
    | _ => none

/-- The first binding of a slot. -/
def binding? (plan : RenderPlan) (slot : String) : Option TemplateBinding :=
  plan.bindings.find? (·.slot == slot)

/-- The first activation of sorting. -/
def sort? (plan : RenderPlan) : Option SortActivation :=
  plan.steps.findSome? fun
    | .activateSort s => some s
    | _ => none

/-- The writes of the first header step. -/
def headerWrites (plan : RenderPlan) : List DisplayWrite :=
  (plan.steps.findSome? fun
    | .header writes => some writes
    | _ => none).getD []

def toJson (plan : RenderPlan) : Json :=
  .object
    [("page", .string plan.page.name), ("steps", .array (plan.steps.map RenderStep.toJson))]

end RenderPlan

/-! ## The plans of the report's pages -/

/-- The writes that display a header. -/
def HeaderView.writes (view : HeaderView) : List DisplayWrite :=
  [⟨Target.percentCovered, .class_, view.percentClass.css⟩,
    ⟨Target.percentCovered, .text, view.percentText⟩,
    ⟨Target.command, .text, view.command⟩,
    ⟨Target.windowTitle, .text, view.title⟩,
    ⟨Target.date, .text, view.date⟩,
    ⟨Target.covered, .text, view.covered⟩,
    ⟨Target.instrumented, .text, view.instrumented⟩]

/-- The step that fills the slot of a dataset. -/
def Dataset.bindStep (dataset : Dataset) : RenderStep :=
  .bind ⟨dataset.role.slot, dataset.records⟩

/-- The step that displays a header. -/
def Header.step (header : Header) (limits : Limits) : RenderStep :=
  .header (HeaderView.ofHeader header limits).writes

/-- The plan of an index page: the files, the merged runs, the header, then the sort. -/
def IndexContext.plan (ctx : IndexContext) : RenderPlan where
  page := .index
  steps :=
    [ctx.main.bindStep, ctx.merged.bindStep, ctx.header.step ctx.limits,
      .activateSort ⟨Target.indexTable, ctx.sort, ctx.main.role.slot⟩]

/-- The plan of a source page: the lines, then the header. -/
def SourceContext.plan (ctx : SourceContext) : RenderPlan where
  page := .source
  steps := [ctx.source.bindStep, ctx.header.step ctx.limits]

end CoveragePages
