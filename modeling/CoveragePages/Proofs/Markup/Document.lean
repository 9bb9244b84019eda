/-
The documents of the report's pages, from the context of the page to every character: fixed markup
with the displayed header in it, the rows of the datasets, and on an index page the script that sorts
the table.
-/
import CoveragePages.Proofs.Markup.SortScript
import CoveragePages.Proofs.Surface.Filling

namespace CoveragePages

open Markup

/-! ## The pieces of a page -/

/-- Markup as it stands. -/
def markup (s : String) : Fragment := .fixed s.toList

/-- A displayed value. -/
def value (s : String) : Fragment := .data s.toList

/-- The pieces of a row of the header table. -/
def headerRowPieces (label id text : String) : List Fragment :=
  [markup "        <tr><td class=\"headerItem\">", markup label, markup "</td><td class=\"headerValue\" id=\"",
    markup id, markup "\"", markup ">", value text, markup "</td></tr>"]

/-- The pieces of the row of the header table that has the covered percentage. -/
def percentRowPieces (view : HeaderView) : List Fragment :=
  [markup "        <tr><td class=\"headerItem\">Code covered:</td><td id=\"", markup Target.percentCovered, markup "\"",
    markup " class=\"", value view.percentClass.css, markup "\"", markup ">", value view.percentText,
    markup "</td></tr>"]

/-- The lines of the header of a page. -/
def headerLines (view : HeaderView) : List (List Fragment) :=
  [[markup "<header>"],
    [markup "    <h1>Coverage report</h1>"],
    [markup "    <table class=\"header-table\">"],
    headerRowPieces "Command:" Target.command view.command,
    headerRowPieces "Date:" Target.date view.date,
    headerRowPieces "Instrumented lines:" Target.instrumented view.instrumented,
    headerRowPieces "Executed lines:" Target.covered view.covered,
    percentRowPieces view,
    [markup "    </table>"],
    [markup "</header>"]]

/-- The lines of a page down to the end of its header. -/
def headLines (view : HeaderView) (link : String) : List (List Fragment) :=
  [[markup "<!DOCTYPE html>"],
    [markup "<html lang=\"en\">"],
    [markup "<head>"],
    [markup "    <meta charset=\"UTF-8\">"],
    [markup "    <meta name=\"viewport\" content=\"width=device-width, initial-scale=1.0\">"],
    [markup "    <title id=\"window-title\">", value view.title, markup "</title>"],
    [markup "    <style>", markup styleSheet, markup "</style>", markup link],
    [markup "</head>"],
    [markup "<body>"],
    [markup "    <div class=\"container\">"],
    markup "        " :: lines (headerLines view)]

/-- The pieces of an index page down to the rows of the merged runs. -/
def indexOpening (view : HeaderView) : List Fragment :=
  lines (headLines view "\n    <link rel=\"stylesheet\" type=\"text/css\" href=\"data/tablesorter-theme.css\">" ++
    [[markup "        ", markup "<section class=\"section\">"],
      [markup "    <table id=\"index-table\"", markup " class=\"", markup "tablesorter", markup "\"", markup ">"],
      [markup "        <thead>"],
      [markup "            <tr>"],
      [markup "                <th>Filename</th>"],
      [markup "                <th>Coverage percent</th>"],
      [markup "                <th>Covered lines</th>"],
      [markup "                <th>Uncovered lines</th>"],
      [markup "                <th>Executable lines</th>"],
      [markup "            </tr>"],
      [markup "        </thead>"],
      [markup "        <tbody class=\"tablesorter-no-sort\" id=\"merged-data\">"]])

/-- The markup between the merged runs and the files of an index page. -/
def indexMiddle : List Fragment :=
  lines [[markup "        </tbody>"], [markup "        <tbody id=\"main-data\">"]]

/-- The pieces of a source page down to its rows. -/
def sourceOpening (view : HeaderView) : List Fragment :=
  lines (headLines view "" ++
    [[markup "        ", markup "<section class=\"section\">"],
      [markup "    <table class=\"source-table\">"],
      [markup "        <tbody id=\"source-code\">"]])

/-- The markup after the last row, up to the scripts. -/
def closing : List Fragment :=
  lines
    [[markup "        </tbody>"],
      [markup "    </table>"],
      [markup "</section>"],
      [markup "        ", markup "<footer>"],
      [markup "    <p>Generated by covreport</p>"],
      [markup "</footer>"],
      [markup "    </div>"]]

/-- The markup after the scripts. -/
def ending : List Fragment := [.fixed ['\n'], markup "</body>", .fixed ['\n'], markup "</html>"]

/-! ## Filled pages -/

/-- A page whose header is filled. -/
structure HtmlPage.Displays (page : HtmlPage) (view : HeaderView) : Prop where
  title : page.elements.get? Target.windowTitle = some ⟨some view.title, none⟩
  command : page.elements.get? Target.command = some ⟨some view.command, none⟩
  date : page.elements.get? Target.date = some ⟨some view.date, none⟩
  instrumented : page.elements.get? Target.instrumented = some ⟨some view.instrumented, none⟩
  covered : page.elements.get? Target.covered = some ⟨some view.covered, none⟩
  percent : page.elements.get? Target.percentCovered = some ⟨some view.percentText, some view.percentClass.css⟩

section

variable {page : HtmlPage} {id : String}

theorem toList_escape (s : String) : (escape s).toList = escapeChars s.toList := String.toList_ofList

theorem text_eq {text : String} {cls : Option String} (h : page.elements.get? id = some ⟨some text, cls⟩) :
    page.text id = escape text := by
  unfold HtmlPage.text
  rw [h]
  rfl

theorem classAttribute_none {text : Option String} (h : page.elements.get? id = some ⟨text, none⟩) :
    page.classAttribute id "" = "" := by
  unfold HtmlPage.classAttribute
  rw [h]
  rfl

theorem classAttribute_some {text : Option String} {cls : String} (h : page.elements.get? id = some ⟨text, some cls⟩) :
    page.classAttribute id "" = " class=\"" ++ escape cls ++ "\"" := by
  unfold HtmlPage.classAttribute
  rw [h]
  rfl

theorem toList_headerRow {label text : String} (h : page.elements.get? id = some ⟨some text, none⟩) :
    (page.headerRow label id).toList = spell (headerRowPieces label id text) := by
  have hnil : "".toList = [] := rfl
  unfold HtmlPage.headerRow
  rw [classAttribute_none h, text_eq h]
  simp only [String.toList_append, toList_escape, hnil, headerRowPieces, markup, value, spell_cons, spell_nil,
    Fragment.chars, List.append_assoc, List.append_nil]

end

variable {page : HtmlPage} {view : HeaderView}

theorem toList_percentRow (h : page.Displays view) : page.percentRow.toList = spell (percentRowPieces view) := by
  unfold HtmlPage.percentRow
  rw [classAttribute_some h.percent, text_eq h.percent]
  simp only [String.toList_append, toList_escape, percentRowPieces, markup, value, spell_cons, spell_nil,
    Fragment.chars, List.append_assoc, List.append_nil]

theorem toList_markup (s : String) : s.toList = spell [markup s] := (List.append_nil _).symm

theorem toList_header (h : page.Displays view) : page.header.toList = spell (lines (headerLines view)) := by
  refine toList_join ?_
  simp only [headerLines, List.forall₂_cons, List.Forall₂.nil, and_true]
  exact ⟨toList_markup _, toList_markup _, toList_markup _, toList_headerRow h.command, toList_headerRow h.date,
    toList_headerRow h.instrumented, toList_headerRow h.covered, toList_percentRow h, toList_markup _, toList_markup _⟩

/-- The characters of an index page whose header is filled. -/
theorem toList_index (h : page.Displays view) (hkind : page.kind = .index)
    (htable : page.elements.get? Target.indexTable = some {}) (hsort : page.sort.isSome) :
    page.document.toList = spell (indexOpening view) ++ '\n' :: ((page.rows "merged-data").toList ++ '\n' ::
      (spell indexMiddle ++ '\n' :: ((page.rows "main-data").toList ++ '\n' ::
        (spell closing ++ (page.sortScript.toList ++ spell ending))))) := by
  have hlink : page.sortLink =
      "\n    <link rel=\"stylesheet\" type=\"text/css\" href=\"data/tablesorter-theme.css\">" := by
    obtain ⟨s, hs⟩ := Option.isSome_iff_exists.1 hsort
    unfold HtmlPage.sortLink
    rw [hs]
  have hclass : page.classAttribute Target.indexTable "tablesorter" = " class=\"" ++ "tablesorter" ++ "\"" := by
    unfold HtmlPage.classAttribute
    rw [htable]
    rfl
  have hbody : page.body = page.indexBody := by
    unfold HtmlPage.body
    rw [hkind]
  have hbreak : "\n".toList = ['\n'] := rfl
  unfold HtmlPage.document
  rw [hbody, hlink, text_eq h.title]
  unfold HtmlPage.indexBody HtmlPage.footer
  rw [hclass]
  simp only [Text.join, String.toList_append, toList_escape, toList_header h, hbreak]
  simp only [indexOpening, indexMiddle, headLines, closing, ending, lines, List.cons_append, List.nil_append,
    markup, value, spell_cons, spell_append, spell_nil, Fragment.chars, List.append_assoc, List.append_nil]

/-- The characters of a source page whose header is filled. -/
theorem toList_source (h : page.Displays view) (hkind : page.kind = .source) (hsort : page.sort = none) :
    page.document.toList = spell (sourceOpening view) ++ '\n' :: ((page.rows "source-code").toList ++ '\n' ::
      (spell closing ++ spell ending)) := by
  have hlink : page.sortLink = "" := by
    unfold HtmlPage.sortLink
    rw [hsort]
  have hscript : page.sortScript.toList = [] := by
    unfold HtmlPage.sortScript
    rw [hsort]
    rfl
  have hbody : page.body = page.sourceBody := by
    unfold HtmlPage.body
    rw [hkind]
  have hbreak : "\n".toList = ['\n'] := rfl
  unfold HtmlPage.document
  rw [hbody, hlink, text_eq h.title]
  unfold HtmlPage.sourceBody HtmlPage.footer
  simp only [Text.join, String.toList_append, toList_escape, toList_header h, hbreak, hscript]
  simp only [sourceOpening, headLines, closing, ending, lines, List.cons_append, List.nil_append, markup, value,
    spell_cons, spell_append, spell_nil, Fragment.chars, List.append_assoc, List.append_nil]

/-! ## The pages of contexts -/

theorem rows_eq {slot : String} {template : RowTemplate} {rows : String}
    (h : page.slots.get? slot = some ⟨template, some rows⟩) : page.rows slot = rows := by
  unfold HtmlPage.rows
  rw [h]
  rfl

theorem target_of_writes {w : DisplayWrite} (h : w ∈ view.writes) : w.target ∈ Target.headerIds := by
  simp only [HeaderView.writes, List.mem_cons, List.not_mem_nil, or_false] at h
  rcases h with rfl | rfl | rfl | rfl | rfl | rfl | rfl <;> simp [Target.headerIds]

theorem header_lands (hids : ∀ id ∈ Target.headerIds, (page.elements.get? id).isSome) (header : Header)
    (limits : Limits) :
    ∀ call ∈ (header.step limits).calls, call.Lands page := by
  intro call hcall
  obtain ⟨w, hw, rfl⟩ := List.mem_map.1 hcall
  have hsome := hids w.target (target_of_writes hw)
  unfold DisplayWrite.call
  cases w.kind <;> exact hsome

/-- A page with nothing set displays the header whose writes were made, if other calls set no element. -/
theorem displays_of_filled {start : HtmlPage} (before after : List Call)
    (h : FilledBy start (before ++ (view.writes.map DisplayWrite.call ++ after)) page)
    (hstart : ∀ id ∈ Target.headerIds, start.elements.get? id = some {})
    (hbefore : ∀ call ∈ before, ∀ id, call.textFor? id = none ∧ call.classFor? id = none)
    (hafter : ∀ call ∈ after, ∀ id, call.textFor? id = none ∧ call.classFor? id = none) : page.Displays view := by
  have hids : ∀ id ∈ Target.headerIds, page.elements.get? id =
      some ⟨lastOf (Call.textFor? id) (view.writes.map DisplayWrite.call),
        lastOf (Call.classFor? id) (view.writes.map DisplayWrite.call)⟩ := by
    intro id hid
    rw [h.elements, hstart id hid]
    simp [lastOf_append, lastOf_eq_none fun c hc => (hbefore c hc id).1, lastOf_eq_none fun c hc => (hbefore c hc id).2,
      lastOf_eq_none fun c hc => (hafter c hc id).1, lastOf_eq_none fun c hc => (hafter c hc id).2]
  constructor
  all_goals exact hids _ (by decide)

theorem sort_of_filled {start : HtmlPage} (before : List Call) {table : String} {intent : SortIntent}
    (h : FilledBy start (before ++ [.activateSort table intent]) page) (htable : (start.elements.get? table).isSome) :
    page.sort = some (table, intent) := by
  rw [h.sort, lastOf_append]
  simp [lastOf, Call.sortOn?, htable]

theorem IndexContext.document_eq {ctx : IndexContext} (hmain : ctx.main.role = .main)
    (hmerged : ctx.merged.role = .merged) :
    ∃ document report, ctx.plan.document = .ok (document, report) ∧
      report.outcomes = [⟨"bind main-data", .applied, some ctx.main.size, none, none⟩,
        ⟨"bind merged-data", .applied, some ctx.merged.size, none, none⟩,
        ⟨"header", .applied, none, none, none⟩, ⟨"sort #index-table", .applied, none, none, none⟩] ∧
      document.toList = spell (indexOpening (.ofHeader ctx.header ctx.limits)) ++ '\n' ::
        (spell (RowTemplate.indexTemplate.allFragments ctx.merged.records) ++ '\n' ::
        (spell indexMiddle ++ '\n' :: (spell (RowTemplate.indexTemplate.allFragments ctx.main.records) ++ '\n' ::
        (spell closing ++ ((sortScriptOf ctx.sort).toList ++ spell ending))))) := by
  obtain ⟨page, hpage, hkind, helements, hslots, hsort⟩ := exists_ofKind .index
  obtain ⟨header, ⟨_, main⟩, ⟨_, merged⟩, limits, sort⟩ := ctx
  cases hmain
  cases hmerged
  let plan := IndexContext.plan ⟨header, ⟨.main, main⟩, ⟨.merged, merged⟩, limits, sort⟩
  have hids : ∀ id ∈ PageKind.index.ids, page.elements.get? id = some {} := fun id hid => by rw [helements, if_pos hid]
  have htable : page.elements.get? Target.indexTable = some {} := hids _ (by decide)
  have hslot : ∀ slot ∈ PageKind.index.slots, page.slots.get? slot = some { template := RowTemplate.indexTemplate } :=
    fun slot h => by rw [hslots, if_pos h]; rfl
  have hlands : ∀ step ∈ plan.steps, ∀ call ∈ step.calls, call.Lands page := by
    have hheader := header_lands (fun id hid => by rw [hids id (List.mem_append_left _ hid)]; rfl) header limits
    simp only [plan, IndexContext.plan, List.forall_mem_cons, RenderStep.calls, Dataset.bindStep, Call.Lands]
    refine ⟨⟨?_, by simp⟩, ⟨?_, by simp⟩, hheader, ⟨?_, by simp⟩, by simp⟩
    · rw [hslot _ (by decide)]; rfl
    · rw [hslot _ (by decide)]; rfl
    · rw [htable]; rfl
  obtain ⟨final, hfilled, hdocument⟩ := document_of_lands plan hpage hlands
  have hdisplays : final.Displays (.ofHeader header limits) :=
    displays_of_filled [.bindTemplate _ main, .bindTemplate _ merged] [.activateSort _ sort] hfilled
      (fun id hid => hids id (List.mem_append_left _ hid)) (by simp [Call.textFor?, Call.classFor?])
      (by simp [Call.textFor?, Call.classFor?])
  have hrows : final.rows "main-data" = RowTemplate.indexTemplate.renderAll main :=
    rows_eq (by rw [hfilled.slots, hslot _ (by decide)]; rfl)
  have hrows' : final.rows "merged-data" = RowTemplate.indexTemplate.renderAll merged :=
    rows_eq (by rw [hfilled.slots, hslot _ (by decide)]; rfl)
  have hsort' : final.sort = some (Target.indexTable, sort) :=
    sort_of_filled ([.bindTemplate _ main, .bindTemplate _ merged] ++ (header.step limits).calls) hfilled
      (by rw [htable]; rfl)
  refine ⟨final.document, _, hdocument, rfl, ?_⟩
  rw [toList_index hdisplays (hfilled.kind.trans hkind) (by rw [hfilled.elements, htable]; rfl)
    (by rw [hsort']; rfl), hrows, hrows', RowTemplate.toList_renderAll, RowTemplate.toList_renderAll,
    sortScript_eq hsort']

theorem SourceContext.document_eq {ctx : SourceContext} (hsource : ctx.source.role = .source) :
    ∃ document report, ctx.plan.document = .ok (document, report) ∧
      report.outcomes = [⟨"bind source-code", .applied, some ctx.source.size, none, none⟩,
        ⟨"header", .applied, none, none, none⟩] ∧
      document.toList = spell (sourceOpening (.ofHeader ctx.header ctx.limits)) ++ '\n' ::
        (spell (RowTemplate.sourceTemplate.allFragments ctx.source.records) ++
          '\n' :: (spell closing ++ spell ending)) := by
  obtain ⟨page, hpage, hkind, helements, hslots, hsort⟩ := exists_ofKind .source
  obtain ⟨header, ⟨_, source⟩, limits⟩ := ctx
  cases hsource
  let plan := SourceContext.plan ⟨header, ⟨.source, source⟩, limits⟩
  have hids : ∀ id ∈ PageKind.source.ids, page.elements.get? id = some {} := fun id hid => by rw [helements, if_pos hid]
  have hslot : page.slots.get? "source-code" = some { template := RowTemplate.sourceTemplate } := by
    rw [hslots, if_pos (by decide)]
    rfl
  have hlands : ∀ step ∈ plan.steps, ∀ call ∈ step.calls, call.Lands page := by
    have hheader := header_lands (fun id hid => by rw [hids id hid]; rfl) header limits
    simp only [plan, SourceContext.plan, List.forall_mem_cons, RenderStep.calls, Dataset.bindStep, Call.Lands]
    refine ⟨⟨?_, by simp⟩, hheader, by simp⟩
    rw [show DatasetRole.source.slot = "source-code" from rfl, hslot]
    rfl
  obtain ⟨final, hfilled, hdocument⟩ := document_of_lands plan hpage hlands
  have hdisplays : final.Displays (.ofHeader header limits) :=
    displays_of_filled [.bindTemplate _ source] [] hfilled hids
      (by simp [Call.textFor?, Call.classFor?]) (by simp)
  have hrows : final.rows "source-code" = RowTemplate.sourceTemplate.renderAll source :=
    rows_eq (by rw [hfilled.slots, hslot]; rfl)
  have hsort' : final.sort = none := by
    have hcalls : plan.steps.flatMap RenderStep.calls =
      .bindTemplate "source-code" source :: (header.step limits).calls := congrArg (_ :: ·) (List.append_nil _)
    rw [hfilled.sort, hsort, Option.or_none, hcalls]
    refine lastOf_eq_none (List.forall_mem_cons.2 ⟨rfl, fun call hcall => ?_⟩)
    obtain ⟨w, -, rfl⟩ := List.mem_map.1 hcall
    unfold DisplayWrite.call
    cases w.kind <;> rfl
  refine ⟨final.document, _, hdocument, rfl, ?_⟩
  rw [toList_source hdisplays (hfilled.kind.trans hkind) hsort', hrows, RowTemplate.toList_renderAll]

end CoveragePages
