/-
Which texts are told from each other by how they start. A page document starts with a bracket, so it is
never taken for a script. A script that is read starts with a semicolon or with a keyword; it is taken
for one if white space follows the keyword, and for a document otherwise.
-/
import CoveragePages.Proofs.Page.Encodings
import CoveragePages.Proofs.Script.Accepted

namespace CoveragePages

/-! ## Starts of documents -/

/-- Whether an outline is that of an array or of an object. -/
def Json.Tree.Bracketed : Json.Tree → Prop
  | .array .. => True
  | .object .. => True
  | _ => False

theorem Json.scanScalar_not_bracketed (cs : List Char) : ¬ (Json.scanScalar cs).1.Bracketed := by
  have hnamed : ∀ (value : Json.Tree) (word cs : List Char), ¬ value.Bracketed →
      ¬ (Json.scanNamed value word cs).1.Bracketed := by
    intro value word cs hvalue
    unfold Json.scanNamed
    split
    · exact hvalue
    · exact id
  unfold Json.scanScalar
  split
  · exact id
  · unfold Json.scanString
    split <;> exact id
  · exact hnamed _ _ _ id
  · exact hnamed _ _ _ id
  · exact hnamed _ _ _ id
  · split
    · unfold Json.scanNumber
      extract_lets scanned
      clear_value scanned
      split <;> exact id
    · exact id

/-- An array or an object starts with its bracket. -/
theorem Json.bracket_of_outline {cs : List Char} (h : (Json.outline cs).root.Bracketed) :
    ∃ rest, Json.skipSpace cs = '[' :: rest ∨ Json.skipSpace cs = '\x7b' :: rest := by
  have hroot : (Json.outline cs).root = (Json.scanValue (2 * cs.length + 2) cs).1 := by
    unfold Json.outline
    split <;> rename_i heq <;> rw [heq]
  rw [hroot, Json.scanValue] at h
  split at h
  · exact ⟨_, .inl ‹_›⟩
  · exact ⟨_, .inr ‹_›⟩
  · exact absurd h (Json.scanScalar_not_bracketed _)

namespace PageData

open Json (Spaces)
open Script (Gaps)

theorem bracketed_of_read {o : Json.Origin} {t : Json.Tree} {page : PageData} (h : reader o t = .ok page) :
    t.Bracketed := by
  cases t with
  | array | object => trivial
  | null | bool | number | string | broken => cases h

/-- A document that is read starts with a bracket. -/
theorem bracket_of_document {text : String} {page : PageData} (h : ofDocument text = .ok page) :
    ∃ rest, Script.pastTrivia text.toList = '[' :: rest ∨ Script.pastTrivia text.toList = '\x7b' :: rest := by
  have hread : Json.readText reader text = .ok page := by
    unfold ofDocument at h
    split at h
    · rename_i hread
      cases h
      exact hread
    · cases h
  obtain ⟨page', hroot, -⟩ := Json.bind_ok hread
  obtain ⟨rest, hrest⟩ := Json.bracket_of_outline (bracketed_of_read hroot)
  obtain ⟨spaces, hspaces, htext⟩ := Json.exists_spaces text.toList
  have hpast : Script.pastTrivia text.toList = Script.pastTrivia (Json.skipSpace text.toList) := by
    conv_lhs => rw [htext]
    exact (gaps_of_spaces hspaces).pastTrivia _
  refine ⟨rest, hrest.imp ?_ ?_⟩
  · intro hstart
    rw [hpast, hstart]
    exact Script.pastTrivia_stop rfl (by decide) _
  · intro hstart
    rw [hpast, hstart]
    exact Script.pastTrivia_stop rfl (by decide) _

end PageData

/-! ## Starts of scripts -/

namespace Script

open Text

/-- A script that is not told by its start: it starts with a semicolon, or with a keyword and a comment
right after it. -/
def Disguised (text : String) : Prop :=
  ∃ gaps rest, Gaps gaps ∧ (text.toList = gaps ++ ';' :: rest ∨
    ∃ keyword ∈ keywords, text.toList = gaps ++ (keyword.toList ++ '/' :: rest))

variable {text : String}

theorem looksLikeScript_keyword {keyword : String} (hkeyword : keyword ∈ keywords) {c : Char} {rest : List Char}
    (h : pastTrivia text.toList = keyword.toList ++ c :: rest) : looksLikeScript text = isBlank c := by
  rw [looksLikeScript, afterTrivia?_eq, h]
  simp only [keywords, List.mem_cons, List.not_mem_nil, or_false] at hkeyword
  rcases hkeyword with rfl | rfl | rfl <;> exact Bool.or_false (isBlank c)

theorem not_looksLikeScript {c : Char} {rest : List Char} (h : pastTrivia text.toList = c :: rest)
    (hc : startsName c = false) : looksLikeScript text = false := by
  have hv : c ≠ 'v' := by rintro rfl; cases hc
  have hl : c ≠ 'l' := by rintro rfl; cases hc
  have hc' : c ≠ 'c' := by rintro rfl; cases hc
  rw [looksLikeScript, afterTrivia?_eq, h]
  simp [keywords, dropStart?, hv.symm, hl.symm, hc'.symm]

theorem disguised_iff : Disguised text ↔ ∃ rest, pastTrivia text.toList = ';' :: rest ∨
    ∃ keyword ∈ keywords, pastTrivia text.toList = keyword.toList ++ '/' :: rest := by
  constructor
  · rintro ⟨gaps, rest, hgaps, htext | ⟨keyword, hkeyword, htext⟩⟩
    · refine ⟨rest, .inl ?_⟩
      rw [htext, hgaps.pastTrivia]
      exact pastTrivia_stop rfl (by decide) _
    · refine ⟨rest, .inr ⟨keyword, hkeyword, ?_⟩⟩
      rw [htext, hgaps.pastTrivia]
      exact (name_keyword hkeyword).pastTrivia _
  · rintro ⟨rest, h⟩
    have hne : pastTrivia text.toList ≠ [] := by
      rcases h with h | ⟨keyword, -, h⟩ <;> rw [h] <;> simp
    obtain ⟨gaps, hgaps, htext⟩ := gaps_before hne
    refine ⟨gaps, rest, hgaps, h.imp ?_ ?_⟩
    · intro h
      rw [← h]
      exact htext
    · rintro ⟨keyword, hkeyword, h⟩
      refine ⟨keyword, hkeyword, ?_⟩
      rw [← h]
      exact htext

theorem Disguised.not_looksLikeScript (h : Disguised text) : looksLikeScript text = false := by
  obtain ⟨rest, hstart | ⟨keyword, hkeyword, hstart⟩⟩ := disguised_iff.1 h
  · exact Script.not_looksLikeScript hstart rfl
  · exact looksLikeScript_keyword hkeyword hstart

/-- After the keyword of a statement comes white space or a comment. -/
theorem Assigns.start {slips : Bool} {a : Assignment} {cs : List Char} (h : Assigns slips a cs) :
    ∃ keyword ∈ keywords, ∃ c rest, cs = keyword.toList ++ c :: rest ∧ (Json.isSpace c = true ∨ c = '/') := by
  cases h with
  | mk hkeyword hgap hne =>
    refine ⟨_, hkeyword, ?_⟩
    rw [String.toList_ofList]
    cases hgap with
    | nil => exact absurd rfl hne
    | cons hgap _ =>
      cases hgap with
      | space hc => exact ⟨_, _, rfl, .inl hc⟩
      | lineComment | blockComment => exact ⟨_, _, rfl, .inr rfl⟩

/-- A script that assigns something is told by its start unless it is disguised. -/
theorem looksLikeScript_of_parse {vars : List Assignment} (h : parse text = .ok vars) (hne : vars ≠ [])
    (hplain : ¬ Disguised text) : looksLikeScript text = true := by
  have hformat : Format true vars text.toList := by
    rw [parse_eq] at h
    exact format_of_statementsAt h
  generalize hcs : text.toList = cs at hformat
  cases hformat with
  | done => exact absurd rfl hne
  | semicolon hgaps => exact absurd ⟨_, _, hgaps, .inl hcs⟩ hplain
  | @statement gaps statement cs a vars hgaps hassigns =>
    obtain ⟨keyword, hkeyword, c, rest, rfl, hspace | rfl⟩ := hassigns.start
    · have hstart : pastTrivia text.toList = keyword.toList ++ c :: (rest ++ cs) := by
        rw [hcs, hgaps.pastTrivia, List.append_assoc]
        exact (name_keyword hkeyword).pastTrivia _
      rw [looksLikeScript_keyword hkeyword hstart]
      exact isBlank_of_isSpace hspace
    · rw [List.append_assoc] at hcs
      exact absurd ⟨_, _, hgaps, .inr ⟨keyword, hkeyword, hcs⟩⟩ hplain

end Script

/-! ## Reading either -/

namespace PageData

variable {text : String}

theorem not_looksLikeScript_of_document {page : PageData} (h : ofDocument text = .ok page) :
    Script.looksLikeScript text = false := by
  obtain ⟨rest, hstart | hstart⟩ := bracket_of_document h
  · exact Script.not_looksLikeScript hstart rfl
  · exact Script.not_looksLikeScript hstart rfl

/-- A disguised script is no document either. -/
theorem refused_of_disguised (h : Script.Disguised text) : ∃ cause, parse text = .error (.document cause) := by
  rw [parse, h.not_looksLikeScript, if_neg Bool.false_ne_true]
  cases hdocument : ofDocument text with
  | error cause =>
    unfold ofDocument at hdocument
    split at hdocument
    · cases hdocument
    · cases hdocument
      exact ⟨_, rfl⟩
  | ok page =>
    obtain ⟨rest, hopen⟩ := bracket_of_document hdocument
    obtain ⟨rest', hstart | ⟨keyword, hkeyword, hstart⟩⟩ := Script.disguised_iff.1 h
    · rw [hstart] at hopen
      simp at hopen
    · rw [hstart] at hopen
      simp only [Script.keywords, List.mem_cons, List.not_mem_nil, or_false] at hkeyword
      rcases hkeyword with rfl | rfl | rfl <;> simp at hopen

/-- Reading a text whose encoding is not given finds whatever reading it as a document finds, and whatever
reading it as a script that assigns something finds, but for scripts in disguise: those are refused as
documents. -/
theorem parse_finds_encoding (text : String) (page : PageData) :
    (ofDocument text = .ok page → parse text = .ok page) ∧
      (∀ vars, Script.parse text = .ok vars → vars ≠ [] → ofScript text = .ok page →
        (¬ Script.Disguised text → parse text = .ok page) ∧
          (Script.Disguised text → ∃ cause, parse text = .error (.document cause))) := by
  constructor
  · intro h
    rw [parse, not_looksLikeScript_of_document h, if_neg Bool.false_ne_true, h]
  · intro vars hvars hne h
    refine ⟨fun hplain => ?_, refused_of_disguised⟩
    rw [parse, Script.looksLikeScript_of_parse hvars hne hplain, if_pos rfl, h]

theorem parse_finds_encoding_sample :
    (ofDocument "\x7b\"data\": [\x7b\x7d]\x7d" = .ok { data := some [⟨[]⟩] } ∧
        parse "\x7b\"data\": [\x7b\x7d]\x7d" = .ok { data := some [⟨[]⟩] }) ∧
      Script.parse "// page\nvar data = [\x7b\x7d];" = .ok [sampleData.assignment] ∧
      ofScript "// page\nvar data = [\x7b\x7d];" = .ok { data := some [⟨[]⟩] } ∧
      ¬ Script.Disguised "// page\nvar data = [\x7b\x7d];" ∧
      parse "// page\nvar data = [\x7b\x7d];" = .ok { data := some [⟨[]⟩] } := by
  have hdocument : ofDocument "\x7b\"data\": [\x7b\x7d]\x7d" = .ok { data := some [⟨[]⟩] } := by
    have hof : DocumentOf [sampleData] "\x7b\"data\": [\x7b\x7d]\x7d".toList :=
      .members (a := []) (b := []) (c := []) (z := []) Json.spaces_nil Json.spaces_nil Json.spaces_nil
        Json.spaces_nil .last
    have hread := ofDocument_toOption hof (by decide)
    generalize ofDocument "\x7b\"data\": [\x7b\x7d]\x7d" = result at hread ⊢
    cases result with
    | error => cases hread
    | ok page => exact congrArg Except.ok (Option.some.inj hread)
  have hscript : ScriptOf [sampleData] "// page\nvar data = [\x7b\x7d];".toList :=
    .statement (.cons (.lineComment (show '\n' ∉ " page".toList by decide)) .nil) (.done .nil)
  have hvars := hscript.parse
  have hpage : ofScript "// page\nvar data = [\x7b\x7d];" = .ok { data := some [⟨[]⟩] } := by
    rw [ofScript, hvars]
    rfl
  have hplain : ¬ Script.Disguised "// page\nvar data = [\x7b\x7d];" := by
    intro h
    have hnot := h.not_looksLikeScript
    rw [hscript.looksLikeScript (by simp)] at hnot
    cases hnot
  exact ⟨⟨hdocument, (parse_finds_encoding _ _).1 hdocument⟩, hvars, hpage, hplain,
    ((parse_finds_encoding _ _).2 _ hvars (by simp) hpage).1 hplain⟩

/-- A comment right after the keyword hides a script that the reader of scripts takes. -/
theorem disguised_script_refused :
    Script.parse "var/**/data = [];" = .ok [("data", .array [])] ∧
      ofScript "var/**/data = [];" = .ok { data := some [] } ∧
      ∃ cause, parse "var/**/data = [];" = .error (.document cause) := by
  have hvars : Script.parse "var/**/data = [];" = .ok [("data", .array [])] := by
    have hvalue : Script.Means true [' ', '[', ']'] (.array []) := Script.means_of_parse rfl
    have hassigns : Script.Assigns true (String.ofList "data".toList, .array [])
        ("var".toList ++ ("/**/".toList ++ ("data".toList ++ ([' '] ++ '=' :: [' ', '[', ']'])))) :=
      .mk (by decide) (.cons (.blockComment (show ¬ ['*', '/'] <:+: [] by decide)) .nil) (by simp) (name_item .data)
        (.cons (.space rfl) .nil) hvalue
    exact Script.parse_of_format (.statement .nil hassigns (Script.stops_semicolon _)
      (.semicolon .nil (.done .nil .none)))
  refine ⟨hvars, ?_, refused_of_disguised ⟨[], "**/data = [];".toList, .nil, .inr ⟨"var", by decide, rfl⟩⟩⟩
  rw [ofScript, hvars]
  rfl

end PageData

end CoveragePages
