/-
Rows of records as markup with data in it: what is literal in the template is markup, and the fields
of a record are data. Rows are told apart from each other and from the markup after them, so every
field that the template has can be read off the rows.
-/
import CoveragePages.Markup.Template
import CoveragePages.Proofs.Markup.Fragment

namespace CoveragePages.RowTemplate

open Markup Text

variable {template : RowTemplate}

/-! ## Pieces -/

/-- A piece of a template in the row of a record. -/
def Piece.fragment (record : Record) : Piece → Fragment
  | literal markup => .fixed markup
  | field name => .data (record.fieldText (String.ofList name)).toList

/-- The pieces of the row of a record. -/
def fragments (template : RowTemplate) (record : Record) : List Fragment :=
  template.pieces.map (Piece.fragment record)

/-- The pieces of the rows of some records. -/
def allFragments (template : RowTemplate) (records : List Record) : List Fragment :=
  lines (records.map template.fragments)

theorem toList_render (template : RowTemplate) (record : Record) :
    (template.render record).toList = spell (template.fragments record) := by
  rw [render, String.toList_join, spell, fragments, List.flatMap_map, List.flatMap_map]
  congr 1
  funext p
  cases p with
  | literal markup => exact String.toList_ofList
  | field name => exact String.toList_ofList

theorem toList_renderAll (template : RowTemplate) (records : List Record) :
    (template.renderAll records).toList = spell (template.allFragments records) := by
  refine toList_join ?_
  rw [List.forall₂_map_left_iff, List.forall₂_map_right_iff, List.forall₂_same]
  exact fun r _ => toList_render template r

theorem sameMarkup_fragments (template : RowTemplate) (r r' : Record) :
    SameMarkup (template.fragments r) (template.fragments r') := by
  unfold fragments
  induction template.pieces with
  | nil => exact .nil
  | cons p ps ih =>
    cases p with
    | literal markup => exact .fixed markup ih
    | field name => exact .data _ _ ih

theorem sameMarkup_allFragments (template : RowTemplate) {rs rs' : List Record} (h : rs.length = rs'.length) :
    SameMarkup (template.allFragments rs) (template.allFragments rs') := by
  unfold allFragments
  induction rs generalizing rs' with
  | nil =>
    cases List.length_eq_zero_iff.1 h.symm
    exact .nil
  | cons r rs ih =>
    obtain ⟨r', rs', rfl⟩ := List.exists_cons_of_length_eq_add_one h.symm
    have htail := ih (Nat.succ.inj h)
    cases rs with
    | nil =>
      cases List.length_eq_zero_iff.1 (Nat.succ.inj h).symm
      exact sameMarkup_fragments template r r'
    | cons r₂ rs =>
      obtain ⟨r₂', rs', rfl⟩ := List.exists_cons_of_length_eq_add_one (Nat.succ.inj h).symm
      exact (sameMarkup_fragments template r r').append (.fixed _ htail)

/-! ## Reading rows back -/

/-- Whether a template starts with a tag, and has markup after every field. -/
def isTagged (template : RowTemplate) : Bool :=
  match template.pieces with
  | .literal ('<' :: _) :: _ => isDelimited (template.fragments .empty)
  | _ => false

theorem spell_of_isTagged (h : template.isTagged = true) (record : Record) :
    ∃ cs, spell (template.fragments record) = '<' :: cs := by
  unfold isTagged at h
  split at h
  · rename_i cs ps hpieces
    exact ⟨_, by rw [fragments, hpieces]; rfl⟩
  · cases h

theorem isDelimited_of_isTagged (h : template.isTagged = true) (record : Record) :
    isDelimited (template.fragments record) = true := by
  rw [(sameMarkup_fragments template record .empty).isDelimited_eq]
  unfold isTagged at h
  split at h
  · exact h
  · cases h

/-- Two records that look the same in some fields. -/
def LookAlike (fields : List String) (r r' : Record) : Prop := ∀ field ∈ fields, r.fieldText field = r'.fieldText field

theorem lookAlike_of_fragments {r r' : Record} (h : template.fragments r = template.fragments r') :
    LookAlike template.fields r r' := by
  intro field hfield
  obtain ⟨p, hp, hname⟩ := List.mem_filterMap.1 hfield
  have heq : p.fragment r = p.fragment r' := List.map_inj_left.1 h p hp
  cases p with
  | literal markup => cases hname
  | field name =>
    cases hname
    exact String.toList_inj.1 (Fragment.data.inj heq)

theorem fragments_cancel (ht : template.isTagged = true) {r r' : Record} {x y : List Char}
    (h : spell (template.fragments r) ++ x = spell (template.fragments r') ++ y) :
    LookAlike template.fields r r' ∧ x = y := by
  obtain ⟨hfragments, hxy⟩ := (sameMarkup_fragments template r r').cancel (isDelimited_of_isTagged ht r) h
  exact ⟨lookAlike_of_fragments hfragments, hxy⟩

/-- The rows that follow a row, if there are any, start with a tag, and so not with a blank. -/
theorem allFragments_cons (ht : template.isTagged = true) (r : Record) (rs : List Record) :
    spell (template.allFragments (r :: rs)) = spell (template.fragments r) ++
      (if rs = [] then [] else '\n' :: spell (template.allFragments rs)) ∧
      ∃ cs, spell (template.allFragments (r :: rs)) = '<' :: cs := by
  obtain ⟨cs, hcs⟩ := spell_of_isTagged ht r
  have heq : spell (template.allFragments (r :: rs)) = spell (template.fragments r) ++
      (if rs = [] then [] else '\n' :: spell (template.allFragments rs)) := by
    cases rs with
    | nil => simp [allFragments, lines]
    | cons r₂ rs => simp [allFragments, lines, Fragment.chars]
  exact ⟨heq, _, by rw [heq, hcs]; rfl⟩

/-- The rows of records, up to a line that starts with a blank, give back what the records look like. -/
theorem rows_cancel (ht : template.isTagged = true) {rs rs' : List Record} {x y : List Char}
    (h : spell (template.allFragments rs) ++ '\n' :: ' ' :: x = spell (template.allFragments rs') ++ '\n' :: ' ' :: y) :
    List.Forall₂ (LookAlike template.fields) rs rs' ∧ x = y := by
  induction rs generalizing rs' with
  | nil =>
    cases rs' with
    | nil => exact ⟨.nil, by simpa [allFragments, lines] using h⟩
    | cons r' rs' =>
      obtain ⟨-, cs, hcs⟩ := allFragments_cons ht r' rs'
      rw [hcs] at h
      cases h
  | cons r rs ih =>
    obtain ⟨hrow, cs, hcs⟩ := allFragments_cons ht r rs
    cases rs' with
    | nil =>
      rw [hcs] at h
      cases h
    | cons r' rs' =>
      obtain ⟨hrow', -⟩ := allFragments_cons ht r' rs'
      rw [hrow, hrow', List.append_assoc, List.append_assoc] at h
      obtain ⟨hlook, htail⟩ := fragments_cancel ht h
      by_cases hrs : rs = [] <;> by_cases hrs' : rs' = []
      · subst hrs hrs'
        exact ⟨.cons hlook .nil, by simpa using htail⟩
      · -- a row against a blank
        obtain ⟨r₂, rs₂, rfl⟩ := List.exists_cons_of_ne_nil hrs'
        obtain ⟨-, cs, hcs⟩ := allFragments_cons ht r₂ rs₂
        simp [hrs, hcs] at htail
      · obtain ⟨r₂, rs₂, rfl⟩ := List.exists_cons_of_ne_nil hrs
        obtain ⟨-, cs, hcs⟩ := allFragments_cons ht r₂ rs₂
        simp [hrs', hcs] at htail
      · simp only [if_neg hrs, if_neg hrs', List.cons_append, List.cons.injEq, true_and] at htail
        obtain ⟨hall, hxy⟩ := ih htail
        exact ⟨.cons hlook hall, hxy⟩

/-! ## Counting rows -/

/-- A pattern that stands equally often in every row stands in the rows that often for each record. -/
theorem countIn_allFragments {pattern : List Char} {k : Nat}
    (hbreak : isApart pattern ['\n'] = true ∧ occurrences pattern ['\n'] = 0)
    (hrow : isApartIn pattern (template.fragments .empty) = true ∧ countIn pattern (template.fragments .empty) = k)
    (rs : List Record) :
    isApartIn pattern (template.allFragments rs) = true ∧
      countIn pattern (template.allFragments rs) = rs.length * k := by
  have heach : ∀ r, isApartIn pattern (template.fragments r) = true ∧ countIn pattern (template.fragments r) = k := by
    intro r
    obtain ⟨hcount, hapart⟩ := (sameMarkup_fragments template r .empty).countIn_eq pattern
    rw [hcount, hapart]
    exact hrow
  unfold allFragments
  induction rs with
  | nil => exact ⟨rfl, (Nat.zero_mul k).symm⟩
  | cons r rs ih =>
    obtain ⟨hapart, hcount⟩ := heach r
    cases rs with
    | nil => exact ⟨hapart, hcount.trans (Nat.one_mul k).symm⟩
    | cons r₂ rs =>
      rw [List.length_cons, Nat.succ_mul, Nat.add_comm]
      simp only [List.map_cons] at ih ⊢
      simp [lines, countIn_append, isApartIn_append, countIn, isApartIn, hapart, hcount, hbreak, ih]

/-! ## The templates of the report -/

/-- The fields of a row on an index page. -/
def indexFields : List String :=
  ["link", "title", "summary_name", "covered_class", "covered", "covered_lines", "uncovered_lines", "total_lines"]

def sourceFields : List String := ["class", "lineNum", "hits", "line"]

/-- What stands once in every row of an index page. -/
def fileCell : List Char := "<td class=\"coverFile\">".toList

/-- What stands once in every row of a source page. -/
def numberCell : List Char := "<td class=\"lineNum\">".toList

def scriptOpener : List Char := "<script".toList

/-- A template with some fields, whose rows are told apart and have one cell of their own each. -/
def Regular (fields : List String) (cell : List Char) (template : RowTemplate) : Prop :=
  template.isTagged = true ∧ template.fields = fields ∧
    (isApartIn cell (template.fragments .empty) = true ∧ countIn cell (template.fragments .empty) = 1) ∧
    isApartIn scriptOpener (template.fragments .empty) = true ∧ countIn scriptOpener (template.fragments .empty) = 0

instance (fields : List String) (cell : List Char) : DecidablePred (Regular fields cell) :=
  fun _ => inferInstanceAs (Decidable (_ ∧ _))

/-- The pieces of a template with markup and fields in turn, after its first markup. -/
def interleaved (first : String) (rest : List (String × String)) : RowTemplate :=
  ⟨.literal first.toList :: rest.flatMap fun (name, markup) => [.field name.toList, .literal markup.toList]⟩

def indexTemplate : RowTemplate :=
  interleaved "<tr>\n    <td class=\"coverFile\"><a href=\""
    [("link", "\" title=\""), ("title", "\">"),
      ("summary_name", "</a></td>\n    <td class=\"coverPer\"><span class=\""),
      ("covered_class", "\">"), ("covered", "%</span></td>\n    <td class=\"coverNum\">"),
      ("covered_lines", "</td>\n    <td class=\"coverNum\">"),
      ("uncovered_lines", "</td>\n    <td class=\"coverNum\">"), ("total_lines", "</td>\n</tr>")]

def sourceTemplate : RowTemplate :=
  interleaved "<tr class=\""
    [("class", "\">\n    <td class=\"lineNum\">"), ("lineNum", "</td>\n    <td class=\"hits\">"),
      ("hits", "</td>\n    <td class=\"lineSrc\"><pre>"), ("line", "</pre></td>\n</tr>")]

theorem parse_indexRow : parse indexRow = .ok indexTemplate := by
  simp only [parse, indexRow, placeholder, opener, closer, Text.join, String.toList_append, String.toList_ofList]
  decide +kernel

theorem parse_sourceRow : parse sourceRow = .ok sourceTemplate := by
  simp only [parse, sourceRow, placeholder, opener, closer, Text.join, String.toList_append, String.toList_ofList]
  decide +kernel

theorem regular_indexTemplate : Regular indexFields fileCell indexTemplate := by
  decide

theorem regular_sourceTemplate : Regular sourceFields numberCell sourceTemplate := by
  decide

end CoveragePages.RowTemplate
