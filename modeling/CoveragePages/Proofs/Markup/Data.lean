/-
What the data of a page does to its document, and what it does not. Documents with the same numbers of
rows and the same sort have the same markup, whatever their data. Equal documents display equal data.
-/
import CoveragePages.Proofs.Markup.Document

namespace CoveragePages

open Markup RowTemplate

/-! ## The openings of pages -/

theorem sameMarkup_indexOpening (v w : HeaderView) : SameMarkup (indexOpening v) (indexOpening w) :=
  sameMarkup_of_markup rfl

theorem sameMarkup_sourceOpening (v w : HeaderView) : SameMarkup (sourceOpening v) (sourceOpening w) :=
  sameMarkup_of_markup rfl

theorem isDelimited_indexOpening (view : HeaderView) : isDelimited (indexOpening view) = true := rfl

theorem isDelimited_sourceOpening (view : HeaderView) : isDelimited (sourceOpening view) = true := rfl

/-- The values that a header displays, in the order of the page. -/
def shownValues (view : HeaderView) : List (List Char) :=
  [view.title.toList, view.command.toList, view.date.toList, view.instrumented.toList, view.covered.toList,
    view.percentClass.css.toList, view.percentText.toList]

theorem values_indexOpening (view : HeaderView) : values (indexOpening view) = shownValues view := rfl

theorem values_sourceOpening (view : HeaderView) : values (sourceOpening view) = shownValues view := rfl

/-! ## The markup of documents -/

theorem IndexContext.delimiters_eq {a b : IndexContext}
    (hsizes : a.main.size = b.main.size ∧ a.merged.size = b.merged.size)
    (hsort : a.sort = b.sort) (ha : a.main.role = .main ∧ a.merged.role = .merged)
    (hb : b.main.role = .main ∧ b.merged.role = .merged) :
    ∃ docA repA docB repB, a.plan.document = .ok (docA, repA) ∧ b.plan.document = .ok (docB, repB) ∧
      delimiters docA.toList = delimiters docB.toList := by
  obtain ⟨docA, repA, hdocA, -, hcharsA⟩ := IndexContext.document_eq ha.1 ha.2
  obtain ⟨docB, repB, hdocB, -, hcharsB⟩ := IndexContext.document_eq hb.1 hb.2
  refine ⟨docA, repA, docB, repB, hdocA, hdocB, ?_⟩
  have hopening := (sameMarkup_indexOpening (.ofHeader a.header a.limits) (.ofHeader b.header b.limits)).delimiters_eq
  have hmain := (sameMarkup_allFragments indexTemplate hsizes.1).delimiters_eq
  have hmerged := (sameMarkup_allFragments indexTemplate hsizes.2).delimiters_eq
  have hbreak : ∀ cs, delimiters ('\n' :: cs) = delimiters cs := fun cs => rfl
  rw [hcharsA, hcharsB, hsort]
  simp only [delimiters_append, hbreak, hopening, hmain, hmerged]

theorem SourceContext.delimiters_eq {a b : SourceContext} (hsize : a.source.size = b.source.size)
    (ha : a.source.role = .source) (hb : b.source.role = .source) :
    ∃ docA repA docB repB, a.plan.document = .ok (docA, repA) ∧ b.plan.document = .ok (docB, repB) ∧
      delimiters docA.toList = delimiters docB.toList := by
  obtain ⟨docA, repA, hdocA, -, hcharsA⟩ := SourceContext.document_eq ha
  obtain ⟨docB, repB, hdocB, -, hcharsB⟩ := SourceContext.document_eq hb
  refine ⟨docA, repA, docB, repB, hdocA, hdocB, ?_⟩
  have hopening := (sameMarkup_sourceOpening (.ofHeader a.header a.limits) (.ofHeader b.header b.limits)).delimiters_eq
  have hrows := (sameMarkup_allFragments sourceTemplate hsize).delimiters_eq
  have hbreak : ∀ cs, delimiters ('\n' :: cs) = delimiters cs := fun cs => rfl
  rw [hcharsA, hcharsB]
  simp only [delimiters_append, hbreak, hopening, hrows]

/-- No data of a page changes its markup: with the same numbers of rows, and on an index page the same
sort, the delimiters of two documents are the same. -/
theorem data_leaves_markup :
    (∀ a b : IndexContext, a.main.role = .main → a.merged.role = .merged → b.main.role = .main →
      b.merged.role = .merged → a.main.size = b.main.size → a.merged.size = b.merged.size → a.sort = b.sort →
      ∃ docA repA docB repB, a.plan.document = .ok (docA, repA) ∧ b.plan.document = .ok (docB, repB) ∧
        delimiters docA.toList = delimiters docB.toList) ∧
    ∀ a b : SourceContext, a.source.role = .source → b.source.role = .source → a.source.size = b.source.size →
      ∃ docA repA docB repB, a.plan.document = .ok (docA, repA) ∧ b.plan.document = .ok (docB, repB) ∧
        delimiters docA.toList = delimiters docB.toList :=
  ⟨fun _ _ ha ha' hb hb' hmain hmerged hsort => IndexContext.delimiters_eq ⟨hmain, hmerged⟩ hsort ⟨ha, ha'⟩ ⟨hb, hb'⟩,
    fun _ _ ha hb hsize => SourceContext.delimiters_eq hsize ha hb⟩

def sampleLimits : Limits := ⟨.ofNat 50, .ofNat 80⟩

def sampleIndex (command : String) (file : Record) : IndexContext :=
  ⟨⟨command, "today", 3, 4⟩, ⟨.main, [file]⟩, ⟨.merged, []⟩, sampleLimits, .standard⟩

def sampleSource (command : String) (line : Record) : SourceContext :=
  ⟨⟨command, "today", 3, 4⟩, ⟨.source, [line]⟩, sampleLimits⟩

theorem data_leaves_markup_sample :
    (∃ docA repA docB repB,
      (sampleIndex "<script>" ⟨[("title", .string "\"><td>")]⟩).plan.document = .ok (docA, repA) ∧
      (sampleIndex "" ⟨[]⟩).plan.document = .ok (docB, repB) ∧ delimiters docA.toList = delimiters docB.toList) ∧
    ∃ docA repA docB repB,
      (sampleSource "'" ⟨[("line", .array [.string "</pre>"])]⟩).plan.document = .ok (docA, repA) ∧
      (sampleSource "" ⟨[]⟩).plan.document = .ok (docB, repB) ∧ delimiters docA.toList = delimiters docB.toList :=
  ⟨data_leaves_markup.1 _ _ rfl rfl rfl rfl rfl rfl rfl, data_leaves_markup.2 _ _ rfl rfl rfl⟩

/-! ## The data of documents -/

theorem css_inj {c d : CoverageClass} (h : c.css = d.css) : c = d := by
  revert h
  cases c <;> cases d <;> decide

/-- Headers that are displayed alike are the same, and so are their classes. -/
theorem header_of_shownValues {h k : Header} {l m : Limits}
    (heq : shownValues (.ofHeader h l) = shownValues (.ofHeader k m)) :
    h = k ∧ CoverageClass.ofCounts h.covered h.instrumented l = .ofCounts k.covered k.instrumented m := by
  simp only [shownValues, HeaderView.ofHeader, List.cons.injEq, String.toList_inj, and_true] at heq
  obtain ⟨-, hcommand, hdate, hinstrumented, hcovered, hclass, -⟩ := heq
  obtain ⟨command, date, covered, instrumented⟩ := h
  obtain ⟨command', date', covered', instrumented'⟩ := k
  cases hcommand
  cases hdate
  cases UInt64.toNat_inj.1 (Json.toString_inj hinstrumented)
  cases UInt64.toNat_inj.1 (Json.toString_inj hcovered)
  exact ⟨rfl, css_inj hclass⟩

theorem IndexContext.eq_of_document {a b : IndexContext} (ha : a.main.role = .main ∧ a.merged.role = .merged)
    (hb : b.main.role = .main ∧ b.merged.role = .merged) {document : String} {repA repB : ApplyReport}
    (hdocA : a.plan.document = .ok (document, repA)) (hdocB : b.plan.document = .ok (document, repB)) :
    a.header = b.header ∧
      CoverageClass.ofCounts a.header.covered a.header.instrumented a.limits =
        .ofCounts b.header.covered b.header.instrumented b.limits ∧
      List.Forall₂ (LookAlike indexFields) a.main.records b.main.records ∧
      List.Forall₂ (LookAlike indexFields) a.merged.records b.merged.records ∧ a.sort = b.sort := by
  obtain ⟨docA, repA', hdocA', -, hcharsA⟩ := IndexContext.document_eq ha.1 ha.2
  obtain ⟨docB, repB', hdocB', -, hcharsB⟩ := IndexContext.document_eq hb.1 hb.2
  rw [hdocA] at hdocA'
  rw [hdocB] at hdocB'
  cases hdocA'
  cases hdocB'
  obtain ⟨htagged, hfields, -⟩ := regular_indexTemplate
  rw [hcharsA] at hcharsB
  -- the opening, the merged runs, the files and the script, each up to the markup that follows it
  obtain ⟨hopening, hrest⟩ :=
    (sameMarkup_indexOpening (.ofHeader a.header a.limits) (.ofHeader b.header b.limits)).cancel
    (isDelimited_indexOpening _) hcharsB
  obtain ⟨hmerged, hrest⟩ := rows_cancel htagged (List.cons.inj hrest).2
  obtain ⟨hmain, hrest⟩ := rows_cancel htagged (List.cons.inj (List.append_cancel_left hrest)).2
  have hvalues := congrArg values hopening
  rw [values_indexOpening, values_indexOpening] at hvalues
  obtain ⟨hheader, hclass⟩ := header_of_shownValues hvalues
  have hsort := sortScriptOf_inj (List.append_cancel_right (List.append_cancel_left hrest))
  rw [hfields] at hmain hmerged
  exact ⟨hheader, hclass, hmain, hmerged, hsort⟩

theorem SourceContext.eq_of_document {a b : SourceContext} (ha : a.source.role = .source) (hb : b.source.role = .source)
    {document : String} {repA repB : ApplyReport} (hdocA : a.plan.document = .ok (document, repA))
    (hdocB : b.plan.document = .ok (document, repB)) :
    a.header = b.header ∧
      CoverageClass.ofCounts a.header.covered a.header.instrumented a.limits =
        .ofCounts b.header.covered b.header.instrumented b.limits ∧
      List.Forall₂ (LookAlike sourceFields) a.source.records b.source.records := by
  obtain ⟨docA, repA', hdocA', -, hcharsA⟩ := SourceContext.document_eq ha
  obtain ⟨docB, repB', hdocB', -, hcharsB⟩ := SourceContext.document_eq hb
  rw [hdocA] at hdocA'
  rw [hdocB] at hdocB'
  cases hdocA'
  cases hdocB'
  obtain ⟨htagged, hfields, -⟩ := regular_sourceTemplate
  rw [hcharsA] at hcharsB
  obtain ⟨hopening, hrest⟩ :=
    (sameMarkup_sourceOpening (.ofHeader a.header a.limits) (.ofHeader b.header b.limits)).cancel
    (isDelimited_sourceOpening _) hcharsB
  obtain ⟨hrows, -⟩ := rows_cancel htagged (List.cons.inj hrest).2
  have hvalues := congrArg values hopening
  rw [values_sourceOpening, values_sourceOpening] at hvalues
  obtain ⟨hheader, hclass⟩ := header_of_shownValues hvalues
  rw [hfields] at hrows
  exact ⟨hheader, hclass, hrows⟩

/-- A finished page loses nothing that it displays, and conflates no two of them: equal documents are of
pages with equal headers and classes, with rows that look alike one by one, and with equal sorts. -/
theorem document_determines_display :
    (∀ a b : IndexContext, a.main.role = .main → a.merged.role = .merged → b.main.role = .main →
      b.merged.role = .merged →
      ∀ document repA repB, a.plan.document = .ok (document, repA) → b.plan.document = .ok (document, repB) →
        (a.header = b.header ∧ CoverageClass.ofCounts a.header.covered a.header.instrumented a.limits =
          .ofCounts b.header.covered b.header.instrumented b.limits) ∧
        a.main.size = b.main.size ∧ a.merged.size = b.merged.size ∧
        List.Forall₂ (LookAlike indexFields) a.main.records b.main.records ∧
        List.Forall₂ (LookAlike indexFields) a.merged.records b.merged.records ∧ a.sort = b.sort) ∧
    ∀ a b : SourceContext, a.source.role = .source → b.source.role = .source →
      ∀ document repA repB, a.plan.document = .ok (document, repA) → b.plan.document = .ok (document, repB) →
        (a.header = b.header ∧ CoverageClass.ofCounts a.header.covered a.header.instrumented a.limits =
          .ofCounts b.header.covered b.header.instrumented b.limits) ∧
        a.source.size = b.source.size ∧ List.Forall₂ (LookAlike sourceFields) a.source.records b.source.records := by
  refine ⟨fun a b ha ha' hb hb' document repA repB hdocA hdocB => ?_,
    fun a b ha hb document repA repB hdocA hdocB => ?_⟩
  · obtain ⟨hheader, hclass, hmain, hmerged, hsort⟩ := IndexContext.eq_of_document ⟨ha, ha'⟩ ⟨hb, hb'⟩ hdocA hdocB
    exact ⟨⟨hheader, hclass⟩, hmain.length_eq, hmerged.length_eq, hmain, hmerged, hsort⟩
  · obtain ⟨hheader, hclass, hrows⟩ := SourceContext.eq_of_document ha hb hdocA hdocB
    exact ⟨⟨hheader, hclass⟩, hrows.length_eq, hrows⟩

/-- A count and its text look alike, and no document tells them apart. -/
theorem document_determines_display_sample : ∃ document repA repB,
    (sampleIndex "test" ⟨[("total_lines", .integer 7)]⟩).plan.document = .ok (document, repA) ∧
    (sampleIndex "test" ⟨[("total_lines", .string "7")]⟩).plan.document = .ok (document, repB) ∧
    List.Forall₂ (LookAlike indexFields) [⟨[("total_lines", .integer 7)]⟩] [⟨[("total_lines", .string "7")]⟩] := by
  obtain ⟨docA, repA, hdocA, -, hcharsA⟩ :=
    IndexContext.document_eq (show (sampleIndex "test" ⟨[("total_lines", .integer 7)]⟩).main.role = .main from rfl) rfl
  obtain ⟨docB, repB, hdocB, -, hcharsB⟩ :=
    IndexContext.document_eq (show (sampleIndex "test" ⟨[("total_lines", .string "7")]⟩).main.role = .main from rfl) rfl
  obtain rfl : docA = docB := by
    rw [← String.toList_inj, hcharsA, hcharsB]
    rfl
  exact ⟨docA, repA, repB, hdocA, hdocB,
    (document_determines_display.1 _ _ rfl rfl rfl rfl docA repA repB hdocA hdocB).2.2.2.1⟩

end CoveragePages
