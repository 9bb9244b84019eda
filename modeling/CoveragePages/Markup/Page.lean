/-
Report pages as self-contained documents. A page is a surface: operations fill its elements and
slots, and `document` is the markup with everything filled in so far. Only the sorting of the table
is left to the browser.
-/
import CoveragePages.Markup.Style
import CoveragePages.Markup.Template
import CoveragePages.Plan.Apply

namespace CoveragePages

/-! ## Pages -/

/-- What was set of an element. -/
structure HtmlPage.Element where
  text : Option String := none
  cls : Option String := none
  deriving DecidableEq

/-- The template of a slot, and the rows that were bound. -/
structure HtmlPage.Slot where
  template : RowTemplate
  rows : Option String := none
  deriving DecidableEq

/-- A page that is being filled. -/
structure HtmlPage where
  kind : PageKind
  elements : Dict HtmlPage.Element
  slots : Dict HtmlPage.Slot
  sort : Option (String × SortIntent)

namespace HtmlPage

/-- Why a page cannot be set up. -/
inductive Refusal where
  | noTemplate (slot : String)
  | badTemplate (slot : String) (cause : RowTemplate.Refusal)
  deriving DecidableEq

/-- The page with a slot's template replaced, or a slot declared; the slot's rows are dropped. -/
def withTemplate (page : HtmlPage) (slot text : String) : Except Refusal HtmlPage :=
  match RowTemplate.parse text with
  | .ok template => .ok { page with slots := page.slots.insert slot { template } }
  | .error cause => .error (.badTemplate slot cause)

/-- The page with a slot declared with the report's template for it. -/
def withBuiltin (page : HtmlPage) (slot : String) : Except Refusal HtmlPage :=
  match RowTemplate.builtin? slot with
  | some text => page.withTemplate slot text
  | none => .error (.noTemplate slot)

/-- The untouched page of a kind. -/
def ofKind (kind : PageKind) : Except Refusal HtmlPage :=
  kind.slots.foldlM withBuiltin
    { kind, elements := .ofEntries (kind.ids.map fun id => (id, {})), slots := [], sort := none }

/-! ## Filling a page -/

/-- Changes an element. -/
def onElement (id : String) (update : Element → Element) (page : HtmlPage) :
    HtmlPage × Except SurfaceError Unit :=
  match page.elements.get? id with
  | some element => ({ page with elements := page.elements.insert id (update element) }, .ok ())
  | none => (page, .error (.noElement id))

instance : DisplaySurface HtmlPage where
  setText target text := onElement target fun e => { e with text := some text }
  setClass target cls := onElement target fun e => { e with cls := some cls }
  bindTemplate slot records page :=
    match page.slots.get? slot with
    | some s =>
      let rows := s.template.renderAll records
      ({ page with slots := page.slots.insert slot { s with rows := some rows } },
        .ok records.length)
    | none => (page, .error (.noSlot slot))
  activateSort table intent page :=
    match page.elements.get? table with
    | some _ => ({ page with sort := some (table, intent) }, .ok ())
    | none => (page, .error (.noElement table))

/-! ## Parts of the document -/

/-- The text of an element, escaped. -/
def text (page : HtmlPage) (id : String) : String :=
  match (page.elements.get? id).bind (·.text) with
  | some s => Markup.escape s
  | none => ""

/-- The class attribute of an element, which may have a class of its own besides. -/
def classAttribute (page : HtmlPage) (id base : String) : String :=
  match base.isEmpty, (page.elements.get? id).bind (·.cls) with
  | true, none => ""
  | true, some c => " class=\"" ++ Markup.escape c ++ "\""
  | false, none => " class=\"" ++ base ++ "\""
  | false, some c => " class=\"" ++ base ++ " " ++ Markup.escape c ++ "\""

/-- The rows of a slot. -/
def rows (page : HtmlPage) (slot : String) : String :=
  ((page.slots.get? slot).bind (·.rows)).getD ""

/-- A row of the header table that has a label and the value of an element. -/
def headerRow (page : HtmlPage) (label id : String) : String :=
  "        <tr><td class=\"headerItem\">" ++ label ++ "</td><td class=\"headerValue\" id=\"" ++
    id ++ "\"" ++ page.classAttribute id "" ++ ">" ++ page.text id ++ "</td></tr>"

/-- The row of the header table that has the covered percentage. -/
def percentRow (page : HtmlPage) : String :=
  "        <tr><td class=\"headerItem\">Code covered:</td><td id=\"" ++ Target.percentCovered ++
    "\"" ++ page.classAttribute Target.percentCovered "" ++ ">" ++
    page.text Target.percentCovered ++ "</td></tr>"

/-- The header of the page. -/
def header (page : HtmlPage) : String :=
  Text.join "\n"
    ["<header>",
      "    <h1>Coverage report</h1>",
      "    <table class=\"header-table\">",
      page.headerRow "Command:" Target.command,
      page.headerRow "Date:" Target.date,
      page.headerRow "Instrumented lines:" Target.instrumented,
      page.headerRow "Executed lines:" Target.covered,
      page.percentRow,
      "    </table>",
      "</header>"]

/-- The tables of an index page. -/
def indexBody (page : HtmlPage) : String :=
  Text.join "\n"
    ["<section class=\"section\">",
      "    <table id=\"index-table\"" ++ page.classAttribute Target.indexTable "tablesorter" ++ ">",
      "        <thead>",
      "            <tr>",
      "                <th>Filename</th>",
      "                <th>Coverage percent</th>",
      "                <th>Covered lines</th>",
      "                <th>Uncovered lines</th>",
      "                <th>Executable lines</th>",
      "            </tr>",
      "        </thead>",
      "        <tbody class=\"tablesorter-no-sort\" id=\"merged-data\">",
      page.rows "merged-data",
      "        </tbody>",
      "        <tbody id=\"main-data\">",
      page.rows "main-data",
      "        </tbody>",
      "    </table>",
      "</section>"]

/-- The listing of a source page. -/
def sourceBody (page : HtmlPage) : String :=
  Text.join "\n"
    ["<section class=\"section\">",
      "    <table class=\"source-table\">",
      "        <tbody id=\"source-code\">",
      page.rows "source-code",
      "        </tbody>",
      "    </table>",
      "</section>"]

/-- The body of the page. -/
def body (page : HtmlPage) : String :=
  match page.kind with
  | .index => page.indexBody
  | .source => page.sourceBody

/-- The footer of every page. -/
def footer : String :=
  Text.join "\n" ["<footer>", "    <p>Generated by covreport</p>", "</footer>"]

/-! ## The table sorter -/

/-- A text with a backslash put into every end tag opener, so that it ends no element. -/
def guardClosers : List Char → List Char
  | '<' :: '/' :: rest => '<' :: '\\' :: '/' :: guardClosers rest
  | c :: rest => c :: guardClosers rest
  | [] => []

/-- The options of the sorter as they stand in the page. -/
def embeddedOptions (intent : SortIntent) : String :=
  String.ofList (guardClosers intent.optionsText.toList)

/-- The scripts of the sorter, relative to the page. -/
def sortScripts : List String :=
  ["data/js/jquery.min.js", "data/js/tablesorter.min.js",
    "data/js/jquery.tablesorter.widgets.min.js"]

/-- The link to the style of the sorter, if the table is sorted. -/
def sortLink (page : HtmlPage) : String :=
  match page.sort with
  | none => ""
  | some _ =>
    "\n    <link rel=\"stylesheet\" type=\"text/css\" href=\"data/tablesorter-theme.css\">"

/-- The scripts that sort the table, if it is sorted. -/
def sortScript (page : HtmlPage) : String :=
  match page.sort with
  | none => ""
  | some (table, intent) =>
    String.join (sortScripts.map fun src =>
      "\n    <script type=\"text/javascript\" src=\"" ++ src ++ "\"></script>") ++
    "\n    <script type=\"text/javascript\">\n    $(function() \x7b $(\"#" ++
      Markup.escape table ++ "\").tablesorter(" ++ embeddedOptions intent ++
      "); \x7d);\n    </script>"

/-! ## The document -/

/-- The markup of the page as it is filled so far. -/
def document (page : HtmlPage) : String :=
  Text.join "\n"
    ["<!DOCTYPE html>",
      "<html lang=\"en\">",
      "<head>",
      "    <meta charset=\"UTF-8\">",
      "    <meta name=\"viewport\" content=\"width=device-width, initial-scale=1.0\">",
      "    <title id=\"window-title\">" ++ page.text Target.windowTitle ++ "</title>",
      "    <style>" ++ Markup.styleSheet ++ "</style>" ++ page.sortLink,
      "</head>",
      "<body>",
      "    <div class=\"container\">",
      "        " ++ page.header,
      "        " ++ page.body,
      "        " ++ footer,
      "    </div>" ++ page.sortScript,
      "</body>",
      "</html>"]

end HtmlPage

/-- The finished document of a plan and the report of its application, starting from an untouched
page of the plan's kind. -/
def RenderPlan.document (plan : RenderPlan) : Except HtmlPage.Refusal (String × ApplyReport) := do
  let (page, report) := plan.apply (← HtmlPage.ofKind plan.page)
  return (page.document, report)

end CoveragePages
