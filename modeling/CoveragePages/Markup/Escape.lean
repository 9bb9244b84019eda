/-
Escaping text for markup: the five characters that mean something in markup become entities, one
after the other, the ampersand first.
-/
import CoveragePages.Text.Search

namespace CoveragePages.Markup

/-- The text with every ampersand, angle bracket and quote replaced by an entity. -/
def escapeChars (cs : List Char) : List Char :=
  cs
    |> Text.replaceChar '&' "&amp;".toList
    |> Text.replaceChar '<' "&lt;".toList
    |> Text.replaceChar '>' "&gt;".toList
    |> Text.replaceChar '"' "&quot;".toList
    |> Text.replaceChar '\'' "&#39;".toList

/-- The text with every ampersand, angle bracket and quote replaced by an entity. -/
def escape (s : String) : String := String.ofList (escapeChars s.toList)

end CoveragePages.Markup
