/-
The style sheet of the report's pages, as rules of selectors and declarations.
-/
import CoveragePages.Text.Search

namespace CoveragePages.Markup

/-- A rule of a style sheet: a selector and what it declares. -/
structure StyleRule where
  selector : String
  declarations : List (String × String)

/-- Rules that stand together: one with a line for each declaration, or several with a line each. -/
inductive StyleGroup where
  | block (rule : StyleRule)
  | inline (rules : List StyleRule)

/-- A declaration. -/
def declarationText (declaration : String × String) : String :=
  declaration.1 ++ ": " ++ declaration.2 ++ ";"

/-- A rule with a line for each declaration. -/
def StyleRule.blockText (rule : StyleRule) : String :=
  rule.selector ++ " \x7b\n" ++
    String.join (rule.declarations.map fun d => "    " ++ declarationText d ++ "\n") ++ "\x7d\n"

/-- A rule on one line. -/
def StyleRule.inlineText (rule : StyleRule) : String :=
  rule.selector ++ " \x7b " ++
    String.join (rule.declarations.map fun d => declarationText d ++ " ") ++ "\x7d\n"

def StyleGroup.text : StyleGroup → String
  | block rule => rule.blockText
  | inline rules => String.join (rules.map StyleRule.inlineText)

/-- The rules of the report's pages. -/
def styleGroups : List StyleGroup := [
    .block
      ⟨"*", [("box-sizing", "border-box"), ("margin", "0"), ("padding", "0")]⟩,
    .block
      ⟨"body", [("font-family", "system-ui, -apple-system, 'Segoe UI', sans-serif"),
        ("line-height", "1.6"), ("color", "#111827"), ("background", "#ffffff")]⟩,
    .block
      ⟨".container", [("max-width", "1400px"), ("margin", "0 auto"), ("padding", "2rem")]⟩,
    .block
      ⟨"header", [("margin-bottom", "2rem"), ("padding-bottom", "1rem"),
        ("border-bottom", "2px solid #e5e7eb")]⟩,
    .block
      ⟨"header h1", [("font-size", "2rem"), ("font-weight", "700"), ("margin-bottom", "0.5rem")]⟩,
    .block
      ⟨".headerItem", [("color", "#6b7280"), ("padding-right", "1rem"),
        ("font-size", "0.875rem")]⟩,
    .block
      ⟨".headerValue", [("font-family", "'SF Mono', Monaco, 'Cascadia Code', monospace"),
        ("font-size", "0.875rem")]⟩,
    .block
      ⟨"table", [("width", "100%"), ("border-collapse", "collapse")]⟩,
    .block
      ⟨"th, td", [("padding", "0.25rem 0.75rem"), ("text-align", "left")]⟩,
    .block
      ⟨"#index-table th", [("background", "#f3f4f6"), ("border-bottom", "2px solid #e5e7eb"),
        ("font-weight", "600")]⟩,
    .block
      ⟨"#index-table td", [("border-bottom", "1px solid #f3f4f6")]⟩,
    .block
      ⟨".coverNum, .coverPer", [("text-align", "right"),
        ("font-variant-numeric", "tabular-nums")]⟩,
    .inline [
      ⟨".coverPerLeftLo", [("background", "#fee2e2"), ("color", "#991b1b"),
        ("font-weight", "700")]⟩,
      ⟨".coverPerLeftMed", [("background", "#fef3c7"), ("color", "#92400e"),
        ("font-weight", "700")]⟩,
      ⟨".coverPerLeftHi", [("background", "#dcfce7"), ("color", "#166534"),
        ("font-weight", "700")]⟩],
    .inline [
      ⟨".lineNoCov", [("background", "#fee2e2")]⟩,
      ⟨".linePartCov", [("background", "#fef3c7")]⟩,
      ⟨".lineCov", [("background", "#dcfce7")]⟩],
    .block
      ⟨".tablesorter-no-sort td", [("font-style", "italic"), ("background", "#f9fafb")]⟩,
    .block
      ⟨".source-table", [("font-family", "'SF Mono', Monaco, 'Cascadia Code', monospace"),
        ("font-size", "0.8125rem")]⟩,
    .block
      ⟨".source-table pre", [("white-space", "pre"), ("font", "inherit")]⟩,
    .block
      ⟨".lineNum, .hits", [("color", "#6b7280"), ("text-align", "right"), ("width", "1%"),
        ("white-space", "pre")]⟩,
    .block
      ⟨"footer", [("margin-top", "3rem"), ("padding-top", "1rem"),
        ("border-top", "1px solid #e5e7eb"), ("text-align", "center"), ("color", "#6b7280"),
        ("font-size", "0.875rem")]⟩]

/-- The style sheet of the report's pages. -/
def styleSheet : String := "\n" ++ Text.join "\n" (styleGroups.map StyleGroup.text)

end CoveragePages.Markup
