/-
How often a cell stands in a document: once for each record, and nowhere else. Fixed markup has none,
data cannot forge one, and neither can the sort options: the class of a cell stands between quotes
right after an equals sign, and in JSON a quote there is either escaped or ends a string.
-/
import CoveragePages.Proofs.Markup.Document

namespace CoveragePages

open Markup RowTemplate Text

/-! ## The style sheet -/

/-- A text without tags. -/
def Tagless (s : String) : Prop := '<' ∉ s.toList

instance (s : String) : Decidable (Tagless s) := inferInstanceAs (Decidable (¬ _))

theorem Tagless.append {s t : String} (hs : Tagless s) (ht : Tagless t) : Tagless (s ++ t) := by
  rw [Tagless, String.toList_append, List.mem_append]
  exact not_or.2 ⟨hs, ht⟩

theorem tagless_join {ss : List String} (h : ∀ s ∈ ss, Tagless s) : Tagless (String.join ss) := by
  rw [Tagless, String.toList_join, List.mem_flatMap]
  rintro ⟨s, hs, hmem⟩
  exact h s hs hmem

theorem tagless_lines {ss : List String} (h : ∀ s ∈ ss, Tagless s) : Tagless (Text.join "\n" ss) := by
  fun_induction Text.join "\n" ss with
  | case1 => decide
  | case2 s => exact h s List.mem_cons_self
  | case3 s rest _ ih =>
    obtain ⟨hs, hrest⟩ := List.forall_mem_cons.1 h
    exact (hs.append (by decide)).append (ih hrest)

/-- A rule without tags. -/
def TaglessRule (rule : StyleRule) : Prop := Tagless rule.selector ∧ ∀ d ∈ rule.declarations, Tagless d.1 ∧ Tagless d.2

instance : DecidablePred TaglessRule := fun _ => inferInstanceAs (Decidable (_ ∧ _))

/-- The rules of a group. -/
def rulesOf : StyleGroup → List StyleRule
  | .block rule => [rule]
  | .inline rules => rules

theorem tagless_declaration {d : String × String} (h : Tagless d.1 ∧ Tagless d.2) : Tagless (declarationText d) :=
  ((h.1.append (by decide)).append h.2).append (by decide)

theorem tagless_block {rule : StyleRule} (h : TaglessRule rule) : Tagless rule.blockText := by
  refine ((h.1.append (by decide)).append (tagless_join fun s hs => ?_)).append (by decide)
  obtain ⟨d, hd, rfl⟩ := List.mem_map.1 hs
  exact (Tagless.append (by decide) (tagless_declaration (h.2 d hd))).append (by decide)

theorem tagless_inline {rule : StyleRule} (h : TaglessRule rule) : Tagless rule.inlineText := by
  refine ((h.1.append (by decide)).append (tagless_join fun s hs => ?_)).append (by decide)
  obtain ⟨d, hd, rfl⟩ := List.mem_map.1 hs
  exact (tagless_declaration (h.2 d hd)).append (by decide)

theorem tagless_group {group : StyleGroup} (h : ∀ rule ∈ rulesOf group, TaglessRule rule) : Tagless group.text := by
  cases group with
  | block rule => exact tagless_block (h rule List.mem_cons_self)
  | inline rules =>
    refine tagless_join fun s hs => ?_
    obtain ⟨rule, hrule, rfl⟩ := List.mem_map.1 hs
    exact tagless_inline (h rule hrule)

theorem tagless_styleSheet : Tagless styleSheet := by
  have hrules : ∀ group ∈ styleGroups, ∀ rule ∈ rulesOf group, TaglessRule rule := by decide
  refine Tagless.append (by decide) (tagless_lines fun s hs => ?_)
  obtain ⟨group, hgroup, rfl⟩ := List.mem_map.1 hs
  exact tagless_group (hrules group hgroup)

/-! ## Fixed markup -/

/-- Pieces whose markup has nothing of a pattern. -/
def FreeOf (pattern : List Char) (fs : List Fragment) : Prop := isApartIn pattern fs = true ∧ countIn pattern fs = 0

instance (pattern : List Char) (fs : List Fragment) : Decidable (FreeOf pattern fs) :=
  inferInstanceAs (Decidable (_ ∧ _))

theorem styleSheet_free (ds : List Char) :
    isApart ('<' :: ds) styleSheet.toList = true ∧ occurrences ('<' :: ds) styleSheet.toList = 0 :=
  apart_of_not_mem ds tagless_styleSheet

theorem fileCell_indexOpening (view : HeaderView) : FreeOf fileCell (indexOpening view) := by
  obtain ⟨hapart, hcount⟩ : isApart fileCell styleSheet.toList = true ∧ occurrences fileCell styleSheet.toList = 0 :=
    styleSheet_free _
  simp only [FreeOf, indexOpening, headLines, headerLines, headerRowPieces, percentRowPieces, lines, List.cons_append,
    List.nil_append, markup, value, isApartIn, countIn, hapart, hcount]
  decide +kernel

theorem numberCell_sourceOpening (view : HeaderView) : FreeOf numberCell (sourceOpening view) := by
  obtain ⟨hapart, hcount⟩ :
    isApart numberCell styleSheet.toList = true ∧ occurrences numberCell styleSheet.toList = 0 := styleSheet_free _
  simp only [FreeOf, sourceOpening, headLines, headerLines, headerRowPieces, percentRowPieces, lines, List.cons_append,
    List.nil_append, markup, value, isApartIn, countIn, hapart, hcount]
  decide

theorem scriptOpener_sourceOpening (view : HeaderView) : FreeOf scriptOpener (sourceOpening view) := by
  obtain ⟨hapart, hcount⟩ :
    isApart scriptOpener styleSheet.toList = true ∧ occurrences scriptOpener styleSheet.toList = 0 := styleSheet_free _
  simp only [FreeOf, sourceOpening, headLines, headerLines, headerRowPieces, percentRowPieces, lines, List.cons_append,
    List.nil_append, markup, value, isApartIn, countIn, hapart, hcount]
  decide

/-! ## The sort script -/

/-- What a class attribute whose value starts with a `c` has in it. -/
def classStart : List Char := ['=', '"', 'c']

/-- A text without such an attribute, at whose ends none is made with what stands there. -/
structure Classless (cs : List Char) : Prop where
  none : ¬ classStart <:+: cs
  head : cs.head? ≠ some 'c'
  last : cs.getLast? ≠ some '='

instance (cs : List Char) : Decidable (Classless cs) :=
  decidable_of_iff (¬ classStart <:+: cs ∧ cs.head? ≠ some 'c' ∧ cs.getLast? ≠ some '=')
    ⟨fun ⟨h1, h2, h3⟩ => ⟨h1, h2, h3⟩, fun ⟨h1, h2, h3⟩ => ⟨h1, h2, h3⟩⟩

theorem Classless.append {a b : List Char} (ha : Classless a) (hb : Classless b) : Classless (a ++ b) := by
  refine ⟨?_, ?_, ?_⟩
  · rintro ⟨s, t, heq⟩
    rw [classStart, List.append_assoc] at heq
    rcases List.append_eq_append_iff.1 heq with ⟨a', rfl, h⟩ | ⟨b', rfl, rfl⟩
    · -- it starts in the first part, and does not end there
      rcases a' with _ | ⟨x, _ | ⟨y, _ | ⟨z, a'⟩⟩⟩
      · exact hb.none ⟨[], t, h⟩
      · cases h
        exact ha.last (by simp)
      · cases h
        exact hb.head rfl
      · cases h
        exact ha.none ⟨s, a', by simp [classStart]⟩
    · exact hb.none ⟨b', t, by simp [classStart]⟩
  · cases a with
    | nil => exact hb.head
    | cons c a => exact ha.head
  · rw [List.getLast?_append]
    cases hl : b.getLast? with
    | none => simpa using ha.last
    | some c =>
      have := hb.last
      rw [hl] at this
      simpa using this

/-- A text without an equals sign has no attribute. -/
theorem classless_of_not_mem {cs : List Char} (h : '=' ∉ cs) (hhead : cs.head? ≠ some 'c') : Classless cs := by
  refine ⟨fun hstart => h (hstart.subset (by simp [classStart])), hhead, fun hlast => h ?_⟩
  exact List.mem_of_getLast? hlast

/-- A quote right after an equals sign ends its string: inside, a backslash stands before it. -/
theorem quote_of_quoted {body : List Char} {ps : List Json.Piece} (h : Json.Quoted body ps) {s t : List Char}
    (heq : body ++ ['"'] = s ++ '=' :: '"' :: t) : t = [] := by
  induction h generalizing s with
  | nil => rcases s with _ | ⟨c, _ | ⟨d, s⟩⟩ <;> simp at heq
  | @plain c cs ps h1 h2 h3 h ih =>
    cases s with
    | nil =>
      obtain ⟨-, htail⟩ := List.cons.inj heq
      cases h with
      | nil => simpa using htail.symm
      | plain _ hquote => exact absurd (List.cons.inj htail).1 hquote
      | letter | unit => simp at htail
    | cons d s => exact ih (List.cons.inj heq).2
  | @letter e c cs ps he h ih =>
    rcases s with _ | ⟨d, _ | ⟨d', s⟩⟩
    · cases heq
    · obtain rfl : e = '=' := (List.cons.inj (List.cons.inj heq).2).1
      cases he
    · exact ih (List.cons.inj (List.cons.inj heq).2).2
  | @unit a b c d code cs ps hcode h ih =>
    have hne : '=' ∉ [a, b, c, d] := fun hmem => nomatch Json.isSome_hexValue hcode '=' hmem
    simp only [List.mem_cons, List.not_mem_nil, or_false, not_or] at hne
    obtain ⟨ha, hb, hc, hd⟩ := hne
    rcases s with _ | ⟨x1, _ | ⟨x2, _ | ⟨x3, _ | ⟨x4, _ | ⟨x5, _ | ⟨x6, s⟩⟩⟩⟩⟩⟩ <;>
      simp only [List.cons_append, List.nil_append, List.cons.injEq, Char.reduceEq, false_and, and_false] at heq
    · exact absurd heq.2.2.1.symm ha
    · exact absurd heq.2.2.2.1.symm hb
    · exact absurd heq.2.2.2.2.1.symm hc
    · exact absurd heq.2.2.2.2.2.1.symm hd
    · exact ih heq.2.2.2.2.2.2

theorem classless_quoted {body : List Char} {ps : List Json.Piece} (h : Json.Quoted body ps) :
    Classless ('"' :: (body ++ ['"'])) := by
  refine ⟨?_, by simp, ?_⟩
  · rintro ⟨s, t, heq⟩
    cases s with
    | nil => cases heq
    | cons c s =>
      rw [classStart, List.append_assoc] at heq
      exact absurd (quote_of_quoted h (List.cons.inj heq).2.symm) (by simp)
  · rw [← List.cons_append, List.getLast?_concat]
    decide

theorem classless_spaces {s : List Char} (hs : Json.Spaces s) : Classless s := by
  refine classless_of_not_mem (fun h => nomatch hs '=' h) fun hhead => ?_
  cases hs 'c' (List.mem_of_head? hhead)

theorem classless_number {n : Json.Numeral} {cs : List Char} (h : Json.Number n cs) : Classless cs := by
  have hne : ∀ c ∈ cs, c ≠ '=' ∧ c ≠ 'c' := by
    intro c hc
    rcases h.inNumber c hc with hdigit | hmem
    · exact ⟨Json.ne_of_isDigit hdigit rfl, Json.ne_of_isDigit hdigit rfl⟩
    · constructor <;> (rintro rfl; simp at hmem)
  exact classless_of_not_mem (fun hmem => (hne _ hmem).1 rfl) fun hhead => (hne _ (List.mem_of_head? hhead)).2 rfl

theorem classless_scalar {t : Json.Tree} {cs : List Char} (h : Json.Scalar t cs) : Classless cs := by
  cases h with
  | null | true_ | false_ => exact classless_of_not_mem (by decide) (by decide)
  | string h => exact classless_quoted h
  | number h => exact classless_number h

/-- JSON has no class attribute. -/
theorem classless_spelled {p : Json.Part} {cs : List Char} (h : Json.Spelled p cs) : Classless cs := by
  have hcomma : Classless [','] := classless_of_not_mem (by decide) (by decide)
  have hcolon : Classless [':'] := classless_of_not_mem (by decide) (by decide)
  have hopen : Classless ['['] ∧ Classless ['\x7b'] := by
    constructor <;> exact classless_of_not_mem (by decide) (by decide)
  have hclose : Classless [']'] ∧ Classless ['\x7d'] := by
    constructor <;> exact classless_of_not_mem (by decide) (by decide)
  induction h with
  | scalar h => exact classless_scalar h
  | emptyArray hs => exact hopen.1.append ((classless_spaces hs).append hclose.1)
  | emptyObject hs => exact hopen.2.append ((classless_spaces hs).append hclose.2)
  | array ha _ hz ih =>
    exact hopen.1.append ((classless_spaces ha).append (ih.append ((classless_spaces hz).append hclose.1)))
  | object ha _ hz ih =>
    exact hopen.2.append ((classless_spaces ha).append (ih.append ((classless_spaces hz).append hclose.2)))
  | item _ ih | oneMember _ ih => exact ih
  | moreItems _ ha hb _ ih ih' | moreMembers _ ha hb _ ih ih' =>
    exact ih.append ((classless_spaces ha).append (hcomma.append ((classless_spaces hb).append ih')))
  | @member body ps v a b cs hbody ha hb _ ih =>
    have hkey := (classless_quoted hbody).append
      ((classless_spaces ha).append (hcolon.append ((classless_spaces hb).append ih)))
    simpa using hkey

theorem classless_sortStart : Classless sortStart.toList := by
  have hid : (escape Target.indexTable).toList = escapeChars Target.indexTable.toList := toList_escape _
  simp only [sortStart, HtmlPage.sortScripts, List.map_cons, List.map_nil, String.toList_append, String.toList_join,
    List.flatMap_cons, List.flatMap_nil, hid]
  decide +kernel

/-- The sort script has no cell of a file in it, nor does what stands after it. -/
theorem occurrences_sortScriptOf (intent : SortIntent) :
    occurrences fileCell ((sortScriptOf intent).toList ++ spell ending) = 0 := by
  -- the options are the only part that depends on the sort, and are JSON
  have hclassless : Classless ((sortScriptOf intent).toList ++ spell ending) := by
    rw [toList_sortScriptOf]
    refine (classless_sortStart.append ((classless_spelled (spelled_options intent)).append ?_)).append ?_
    · decide
    · decide
  rw [occurrences_eq_zero_iff (by decide)]
  exact fun hcell => hclassless.none ((by decide : classStart <:+: fileCell).trans hcell)

/-! ## Documents -/

section

variable {pattern : List Char} (hpattern : pattern.head? = some '<')

include hpattern

/-- A pattern that starts a tag does not start at a line break. -/
theorem occurrences_break (cs : List Char) : occurrences pattern ('\n' :: cs) = occurrences pattern cs := by
  obtain ⟨ds, rfl⟩ := List.head?_eq_some_iff.1 hpattern
  simp [occurrences, List.isPrefixOf]

theorem FreeOf.occurrences_spell {fs : List Fragment} (h : FreeOf pattern fs) (rest : List Char) :
    occurrences pattern (spell fs ++ rest) = occurrences pattern rest := by
  obtain ⟨ds, rfl⟩ := List.head?_eq_some_iff.1 hpattern
  rw [Markup.occurrences_spell rfl h.1, h.2, Nat.zero_add]

/-- The rows of a template have a pattern for each record as often as a row without data has it. -/
theorem occurrences_rows {template : RowTemplate} {k : Nat}
    (hrow : isApartIn pattern (template.fragments .empty) = true ∧ countIn pattern (template.fragments .empty) = k)
    (records : List Record) (rest : List Char) :
    occurrences pattern (spell (template.allFragments records) ++ rest) =
      records.length * k + occurrences pattern rest := by
  obtain ⟨ds, rfl⟩ := List.head?_eq_some_iff.1 hpattern
  obtain ⟨hapart, hcount⟩ := countIn_allFragments (apart_of_not_mem ds (by decide)) hrow records
  rw [Markup.occurrences_spell rfl hapart, hcount]

end

/-- The document of an index page has one cell of a file for each record. -/
theorem IndexContext.cells_of_document {ctx : IndexContext} (hmain : ctx.main.role = .main)
    (hmerged : ctx.merged.role = .merged) {document : String} {report : ApplyReport}
    (h : ctx.plan.document = .ok (document, report)) :
    occurrences fileCell document.toList = ctx.main.size + ctx.merged.size := by
  obtain ⟨document', report', hdocument, -, hchars⟩ := IndexContext.document_eq hmain hmerged
  rw [h] at hdocument
  cases hdocument
  have hcell : fileCell.head? = some '<' := rfl
  obtain ⟨-, -, hrow, -⟩ := regular_indexTemplate
  have hmiddle : FreeOf fileCell indexMiddle := by decide
  have hclosing : FreeOf fileCell closing := by decide
  rw [hchars, (fileCell_indexOpening _).occurrences_spell hcell, occurrences_break hcell, occurrences_rows hcell hrow,
    occurrences_break hcell, hmiddle.occurrences_spell hcell, occurrences_break hcell, occurrences_rows hcell hrow,
    occurrences_break hcell, hclosing.occurrences_spell hcell, occurrences_sortScriptOf, Dataset.size, Dataset.size]
  omega

/-- The document of a source page has one cell of a line number for each record, and no script. -/
theorem SourceContext.cells_of_document {ctx : SourceContext} (hsource : ctx.source.role = .source) {document : String}
    {report : ApplyReport} (h : ctx.plan.document = .ok (document, report)) :
    occurrences numberCell document.toList = ctx.source.size ∧ ¬ scriptOpener <:+: document.toList := by
  obtain ⟨document', report', hdocument, -, hchars⟩ := SourceContext.document_eq hsource
  rw [h] at hdocument
  cases hdocument
  -- one count for the cells, of which a row has one, and for scripts, of which it has none
  have hcount : ∀ {pattern : List Char} {k : Nat}, pattern.head? = some '<' →
      (∀ view, FreeOf pattern (sourceOpening view)) → FreeOf pattern closing → FreeOf pattern ending →
      isApartIn pattern (sourceTemplate.fragments .empty) = true ∧
        countIn pattern (sourceTemplate.fragments .empty) = k →
      occurrences pattern document.toList = ctx.source.size * k := by
    intro pattern k hpattern hopening hclosing hending hrow
    have hrest := hending.occurrences_spell hpattern []
    rw [List.append_nil] at hrest
    rw [hchars, (hopening _).occurrences_spell hpattern, occurrences_break hpattern, occurrences_rows hpattern hrow,
      occurrences_break hpattern, hclosing.occurrences_spell hpattern, hrest, occurrences, Nat.add_zero, Dataset.size]
  obtain ⟨-, -, hrow, hrow'⟩ := regular_sourceTemplate
  constructor
  · rw [hcount rfl numberCell_sourceOpening (by decide) (by decide) hrow, Nat.mul_one]
  · rw [← occurrences_eq_zero_iff (by decide),
      hcount rfl scriptOpener_sourceOpening (by decide) (by decide) hrow', Nat.mul_zero]

end CoveragePages
