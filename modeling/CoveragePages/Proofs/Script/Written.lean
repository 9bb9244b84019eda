/-
The format of data scripts, and that the reader reads it back: statements `var NAME = VALUE;` with white
space and comments between their tokens, extra semicolons around them and trailing commas in their values
give the list of names and values, in the order of the text.

`Format` says what a script assigns; `ScriptText` says how producers write one, from the JSON texts of
the values.
-/
import CoveragePages.Proofs.Script.Reader
import CoveragePages.Proofs.Script.Trailing

namespace CoveragePages.Script

open Json (Spaces)

/-! ## Between tokens -/

/-- One piece of white space, or one comment. -/
inductive Gap : List Char → Prop
  | space {c : Char} : Json.isSpace c = true → Gap [c]
  | lineComment {body : List Char} : '\n' ∉ body → Gap ('/' :: '/' :: (body ++ ['\n']))
  | blockComment {body : List Char} : ¬ ['*', '/'] <:+: body → Gap ('/' :: '*' :: (body ++ ['*', '/']))

/-- Any number of pieces of white space and comments. -/
inductive Gaps : List Char → Prop
  | nil : Gaps []
  | cons {gap cs : List Char} : Gap gap → Gaps cs → Gaps (gap ++ cs)

/-- What may stand between statements: white space, comments and semicolons. -/
inductive Filler : List Char → Prop
  | nil : Filler []
  | gap {gap cs : List Char} : Gap gap → Filler cs → Filler (gap ++ cs)
  | semicolon {cs : List Char} : Filler cs → Filler (';' :: cs)

theorem pastTrivia_space {c : Char} (hc : Json.isSpace c = true) (rest : List Char) :
    pastTrivia (c :: rest) = pastTrivia rest := by
  have hslash : c ≠ '/' := by rintro rfl; cases hc
  cases rest with
  | nil => exact if_pos hc
  | cons d rest =>
    rw [pastTrivia, pastTriviaIn, if_neg fun h => hslash h.1, if_neg fun h => hslash h.1, if_pos hc, pastTrivia]

theorem pastTriviaIn_lineComment {body : List Char} (hbody : '\n' ∉ body) (rest : List Char) :
    pastTriviaIn .lineComment (body ++ '\n' :: rest) = pastTrivia rest := by
  induction body with
  | nil => rw [List.nil_append, pastTriviaIn, if_pos rfl, pastTrivia]
  | cons c body ih =>
    rw [List.mem_cons, not_or] at hbody
    rw [List.cons_append, pastTriviaIn, if_neg fun h => hbody.1 h.symm, ih hbody.2]

/-- A star at the end of a comment's body does not close it early: a star follows, not a slash. -/
theorem pastTriviaIn_blockComment {body : List Char} (hbody : ¬ ['*', '/'] <:+: body) (rest : List Char) :
    pastTriviaIn .blockComment (body ++ '*' :: '/' :: rest) = pastTrivia rest := by
  induction body with
  | nil => rfl
  | cons c body ih =>
    have ih := ih fun h => hbody (h.trans (List.suffix_cons c body).isInfix)
    cases body with
    | nil => exact (if_neg fun h => nomatch h.2).trans ih
    | cons d body =>
      have hcd : ¬ (c = '*' ∧ d = '/') := by
        rintro ⟨rfl, rfl⟩
        exact hbody ⟨[], body, rfl⟩
      rw [List.cons_append, List.cons_append, pastTriviaIn, if_neg hcd, ← List.cons_append, ih]

theorem Gap.pastTrivia {gap : List Char} (h : Gap gap) (rest : List Char) :
    pastTrivia (gap ++ rest) = pastTrivia rest := by
  cases h with
  | space hc => exact pastTrivia_space hc rest
  | lineComment hbody =>
    rw [List.cons_append, List.cons_append, List.append_assoc]
    exact pastTriviaIn_lineComment hbody rest
  | blockComment hbody =>
    rw [List.cons_append, List.cons_append, List.append_assoc]
    exact pastTriviaIn_blockComment hbody rest

theorem Gaps.pastTrivia {gaps : List Char} (h : Gaps gaps) (rest : List Char) :
    pastTrivia (gaps ++ rest) = pastTrivia rest := by
  induction h with
  | nil => rfl
  | cons hgap _ ih => rw [List.append_assoc, hgap.pastTrivia, ih]

theorem pastTrivia_stop {c : Char} (hspace : Json.isSpace c = false) (hslash : c ≠ '/') (rest : List Char) :
    pastTrivia (c :: rest) = c :: rest := by
  have hc : ¬ Json.isSpace c = true := Bool.eq_false_iff.1 hspace
  cases rest with
  | nil => exact if_neg hc
  | cons d rest =>
    rw [Script.pastTrivia, pastTriviaIn, if_neg fun h => hslash h.1, if_neg fun h => hslash h.1, if_neg hc]

/-! ## Names -/

/-- A name: a letter, underscore or dollar sign, and then those and digits. -/
def Name (cs : List Char) : Prop := ∃ c r, cs = c :: r ∧ startsName c = true ∧ ∀ d ∈ r, continuesName d = true

/-- A text that cannot make a name longer. -/
def NoName (cs : List Char) : Prop := ∀ c, cs.head? = some c → continuesName c = false

theorem Name.pastName {name rest : List Char} (h : Name name) (hr : NoName rest) : pastName (name ++ rest) = rest := by
  obtain ⟨c, r, rfl, hc, hall⟩ := h
  rw [List.cons_append, Script.pastName, if_pos hc, List.dropWhile_append_of_pos hall]
  cases rest with
  | nil => rfl
  | cons d rest => exact List.dropWhile_cons_of_neg (Bool.eq_false_iff.1 (hr d rfl))

theorem not_continuesName_of_isSpace {c : Char} (h : Json.isSpace c = true) : continuesName c = false := by
  simp only [Json.isSpace, Bool.or_eq_true, beq_iff_eq] at h
  rcases h with ((rfl | rfl) | rfl) | rfl <;> decide

theorem Name.pastTrivia {name : List Char} (h : Name name) (rest : List Char) :
    pastTrivia (name ++ rest) = name ++ rest := by
  obtain ⟨c, r, rfl, hc, -⟩ := h
  have hcont : continuesName c = true := by rw [continuesName, hc]; rfl
  refine pastTrivia_stop ?_ ?_ (r ++ rest)
  · rw [Bool.eq_false_iff]
    intro hs
    rw [not_continuesName_of_isSpace hs] at hcont
    cases hcont
  · rintro rfl
    cases hc

theorem Gap.noName {gap : List Char} (h : Gap gap) (rest : List Char) : NoName (gap ++ rest) := by
  intro d hd
  cases h with
  | space hs => cases hd; exact not_continuesName_of_isSpace hs
  | lineComment | blockComment => cases hd; rfl

theorem Gaps.noName {gaps : List Char} (h : Gaps gaps) {rest : List Char} (hr : gaps = [] → NoName rest) :
    NoName (gaps ++ rest) := by
  cases h with
  | nil => exact hr rfl
  | cons hgap _ =>
    rw [List.append_assoc]
    exact hgap.noName _

/-! ## The format -/

/-- A comment that a text ends in. One in a line needs no newline; one that should be closed is a slip. -/
inductive LastComment (slips : Bool) : List Char → Prop
  | none : LastComment slips []
  | line {body : List Char} : '\n' ∉ body → LastComment slips ('/' :: '/' :: body)
  | block {body : List Char} : slips = true → ¬ ['*', '/'] <:+: body → LastComment slips ('/' :: '*' :: body)

/-- A statement up to the end of its value, and what it assigns. -/
inductive Assigns (slips : Bool) : Assignment → List Char → Prop
  | mk {keyword gap name gap' raw : List Char} {v : Json} : String.ofList keyword ∈ keywords → Gaps gap → gap ≠ [] →
      Name name → Gaps gap' → Means slips raw v →
      Assigns slips (String.ofList name, v) (keyword ++ (gap ++ (name ++ (gap' ++ '=' :: raw))))

/-- A script, and what its statements assign. A statement ends at a semicolon or at the end of the text.
`slips` allows what the reader lets through, and the format does not have. -/
inductive Format (slips : Bool) : List Assignment → List Char → Prop
  | done {gaps comment : List Char} : Gaps gaps → LastComment slips comment → Format slips [] (gaps ++ comment)
  | semicolon {gaps cs : List Char} {vars : List Assignment} : Gaps gaps → Format slips vars cs →
      Format slips vars (gaps ++ ';' :: cs)
  | statement {gaps text cs : List Char} {a : Assignment} {vars : List Assignment} : Gaps gaps → Assigns slips a text →
      Stops cs → Format slips vars cs → Format slips (a :: vars) (gaps ++ (text ++ cs))

theorem name_keyword {keyword : String} (h : keyword ∈ keywords) : Name keyword.toList := by
  simp only [keywords, List.mem_cons, List.not_mem_nil, or_false] at h
  rcases h with rfl | rfl | rfl
  · exact ⟨'v', ['a', 'r'], rfl, rfl, Json.forall_of_all rfl⟩
  · exact ⟨'l', ['e', 't'], rfl, rfl, Json.forall_of_all rfl⟩
  · exact ⟨'c', ['o', 'n', 's', 't'], rfl, rfl, Json.forall_of_all rfl⟩

/-- The reader takes a statement token by token, if it takes the value. -/
theorem statementAt_eq {keyword : String} {gap name gap' raw rest : List Char} {v : Json}
    (hkeyword : keyword ∈ keywords) (hgap : Gaps gap) (hne : gap ≠ []) (hname : Name name) (hgap' : Gaps gap')
    (hvalue : pastValue? (raw ++ rest) = some rest)
    (hjson : Json.parse (String.ofList (Text.trim (dropTrailingCommas raw))) = .ok v) (chars : List Char) :
    statementAt chars (keyword.toList ++ (gap ++ (name ++ (gap' ++ '=' :: (raw ++ rest))))) =
      .ok ((String.ofList name, v), rest) := by
  let fromName := name ++ (gap' ++ '=' :: (raw ++ rest))
  have hafter : pastName (keyword.toList ++ (gap ++ fromName)) = gap ++ fromName :=
    (name_keyword hkeyword).pastName (hgap.noName fun h => absurd h hne)
  have hstart : pastTrivia (gap ++ fromName) = fromName := (hgap.pastTrivia _).trans (hname.pastTrivia _)
  have hafter' : pastName fromName = gap' ++ '=' :: (raw ++ rest) :=
    hname.pastName (hgap'.noName fun _ c hc => by cases hc; rfl)
  have hsome : gap' ++ '=' :: (raw ++ rest) ≠ fromName := by
    obtain ⟨c, r, rfl, -⟩ := hname
    intro h
    have hlen := congrArg List.length h
    simp only [fromName, List.length_append, List.length_cons] at hlen
    omega
  have hequals : pastTrivia (gap' ++ '=' :: (raw ++ rest)) = '=' :: (raw ++ rest) :=
    (hgap'.pastTrivia _).trans (pastTrivia_stop rfl (by decide) _)
  have hmem : String.ofList keyword.toList ∈ keywords := by rwa [String.ofList_toList]
  show statementAt chars (keyword.toList ++ (gap ++ fromName)) = _
  unfold statementAt
  simp only [hafter, hmem, not_true_eq_false, if_false, hstart, hafter', hsome, hequals, ne_eq, hvalue,
    upTo_append, hjson]
  rw [upTo_append]

theorem pastTriviaIn_open_line {body : List Char} (h : '\n' ∉ body) : pastTriviaIn .lineComment body = [] := by
  induction body with
  | nil => rfl
  | cons c body ih =>
    obtain ⟨hc, hbody⟩ := not_or.1 (mt List.mem_cons.2 h)
    rw [pastTriviaIn, if_neg (Ne.symm hc), ih hbody]

theorem pastTriviaIn_open_block {body : List Char} (h : ¬ ['*', '/'] <:+: body) :
    pastTriviaIn .blockComment body = [] := by
  induction body with
  | nil => rfl
  | cons c body ih =>
    have ih := ih fun hbody => h (hbody.trans (List.suffix_cons c body).isInfix)
    cases body with
    | nil => rfl
    | cons d body =>
      have hcd : ¬ (c = '*' ∧ d = '/') := by
        rintro ⟨rfl, rfl⟩
        exact h ⟨[], body, rfl⟩
      rw [pastTriviaIn, if_neg hcd, ih]

theorem pastTrivia_lastComment {slips : Bool} {comment : List Char} (h : LastComment slips comment) :
    pastTrivia comment = [] := by
  cases h with
  | none => rfl
  | line hbody => exact pastTriviaIn_open_line hbody
  | block _ hbody => exact pastTriviaIn_open_block hbody

/-- The reader takes a statement of the format, up to the end of its value. -/
theorem Assigns.statementAt {slips : Bool} {a : Assignment} {text : List Char} (h : Assigns slips a text)
    (chars : List Char) {rest : List Char} (hrest : Stops rest) :
    statementAt chars (text ++ rest) = .ok (a, rest) ∧
      ∃ c r, text = c :: r ∧ c ≠ ';' ∧ pastTrivia (text ++ rest) = text ++ rest := by
  cases h with
  | @mk keyword gap name gap' raw v hkeyword hgap hne hname hgap' hmeans =>
    obtain ⟨hvalue, hjson⟩ := hmeans.read hrest
    have hword := name_keyword hkeyword
    have hread := statementAt_eq hkeyword hgap hne hname hgap' hvalue hjson chars
    rw [String.toList_ofList] at hword hread
    refine ⟨by simpa using hread, ?_⟩
    have hstart := hword.pastTrivia (gap ++ (name ++ (gap' ++ '=' :: raw)) ++ rest)
    obtain ⟨c, r, rfl, hc, -⟩ := hword
    refine ⟨c, _, rfl, ?_, by simpa using hstart⟩
    rintro rfl
    cases hc

theorem statementsAt_format {slips : Bool} (chars : List Char) {vars : List Assignment} {cs : List Char}
    (h : Format slips vars cs) : ∀ fuel, cs.length < fuel → statementsAt chars fuel cs = .ok vars := by
  induction h with
  | done hgaps hcomment =>
    intro fuel hf
    obtain ⟨fuel, rfl⟩ : ∃ f, fuel = f + 1 := ⟨fuel - 1, by omega⟩
    rw [statementsAt, hgaps.pastTrivia, pastTrivia_lastComment hcomment]
  | @semicolon gaps cs vars hgaps _ ih =>
    intro fuel hf
    obtain ⟨fuel, rfl⟩ : ∃ f, fuel = f + 1 := ⟨fuel - 1, by omega⟩
    rw [List.length_append, List.length_cons] at hf
    rw [statementsAt, hgaps.pastTrivia, pastTrivia_stop (c := ';') rfl (by decide)]
    exact (if_pos rfl).trans (ih fuel (by omega))
  | @statement gaps text cs a vars hgaps hassigns hstops _ ih =>
    intro fuel hf
    obtain ⟨fuel, rfl⟩ : ∃ f, fuel = f + 1 := ⟨fuel - 1, by omega⟩
    obtain ⟨hread, c, r, rfl, hc, hstart⟩ := hassigns.statementAt chars hstops
    simp only [List.length_append, List.length_cons] at hf
    rw [List.cons_append] at hread hstart ⊢
    rw [statementsAt, hgaps.pastTrivia, hstart]
    simp only [if_neg hc, hread, ih fuel (by omega)]
    rfl

theorem parse_of_format {slips : Bool} {vars : List Assignment} {text : String} (h : Format slips vars text.toList) :
    parse text = .ok vars := by
  have hlen := Text.length_le_byteLength text.toList
  rw [parse_eq, statementsAt_format _ h _ (by omega)]

/-! ## Statements -/

/-- A statement as its producer writes it, up to its semicolon. -/
structure Statement where
  keyword : String
  keyword_mem : keyword ∈ keywords
  afterKeyword : List Char
  afterKeyword_gaps : Gaps afterKeyword
  afterKeyword_ne_nil : afterKeyword ≠ []
  name : List Char
  isName : Name name
  afterName : List Char
  afterName_gaps : Gaps afterName
  beforeValue : List Char
  beforeValue_spaces : Spaces beforeValue
  json : String
  value : Json
  parse_json : Json.parse json = .ok value
  /-- The JSON text, perhaps with trailing commas. -/
  written : List Char
  isWritten : Written json.toList written
  afterValue : List Char
  afterValue_spaces : Spaces afterValue

/-- The text of a statement. -/
def Statement.text (s : Statement) : List Char :=
  s.keyword.toList ++ (s.afterKeyword ++ (s.name ++ (s.afterName ++ '=' ::
    (s.beforeValue ++ (s.written ++ s.afterValue)))))

/-- What a statement assigns. -/
def Statement.assignment (s : Statement) : Assignment := (String.ofList s.name, s.value)

theorem Statement.assigns (s : Statement) : Assigns true s.assignment s.text := by
  have hkeyword : String.ofList s.keyword.toList ∈ keywords := by
    rw [String.ofList_toList]
    exact s.keyword_mem
  exact .mk hkeyword s.afterKeyword_gaps s.afterKeyword_ne_nil s.isName s.afterName_gaps
    (means_of_parse (parse_written s.parse_json s.isWritten s.beforeValue_spaces s.afterValue_spaces))

/-! ## Scripts -/

/-- The text of a script of some statements. The semicolon of the last one may be left out if nothing
but space follows its value. -/
inductive ScriptText : List Statement → List Char → Prop
  | done {filler : List Char} : Filler filler → ScriptText [] filler
  | last {filler : List Char} {s : Statement} : Filler filler → ScriptText [s] (filler ++ s.text)
  | statement {filler cs : List Char} {s : Statement} {rest : List Statement} : Filler filler → ScriptText rest cs →
      ScriptText (s :: rest) (filler ++ (s.text ++ ';' :: cs))

theorem Format.gap {slips : Bool} {gap cs : List Char} {vars : List Assignment} (hgap : Gap gap)
    (h : Format slips vars cs) : Format slips vars (gap ++ cs) := by
  cases h with
  | done hgaps hcomment =>
    rw [← List.append_assoc]
    exact .done (.cons hgap hgaps) hcomment
  | semicolon hgaps h =>
    rw [← List.append_assoc]
    exact .semicolon (.cons hgap hgaps) h
  | statement hgaps hassigns hstops h =>
    rw [← List.append_assoc]
    exact .statement (.cons hgap hgaps) hassigns hstops h

theorem Format.filler {slips : Bool} {filler cs : List Char} {vars : List Assignment} (hfiller : Filler filler)
    (h : Format slips vars cs) : Format slips vars (filler ++ cs) := by
  induction hfiller with
  | nil => exact h
  | gap hgap _ ih =>
    rw [List.append_assoc]
    exact ih.gap hgap
  | semicolon _ ih => exact .semicolon .nil ih

theorem format_of_scriptText {statements : List Statement} {cs : List Char} (h : ScriptText statements cs) :
    Format true (statements.map Statement.assignment) cs := by
  have hend : Format true [] [] := .done .nil .none
  induction h with
  | done hfiller =>
    have hformat := hend.filler hfiller
    rwa [List.append_nil] at hformat
  | @last filler s hfiller =>
    have hstops : Stops [] := fun c hc => nomatch hc
    have hformat := (Format.statement .nil s.assigns hstops hend).filler hfiller
    rwa [List.nil_append, List.append_nil] at hformat
  | @statement filler cs s rest hfiller _ ih =>
    exact (Format.statement .nil s.assigns (stops_semicolon cs) (.semicolon .nil ih)).filler hfiller

/-- The reader reads back what producers write: the names and values of all statements, in order. -/
theorem parse_of_scriptText {statements : List Statement} {text : String} (h : ScriptText statements text.toList) :
    parse text = .ok (statements.map Statement.assignment) :=
  parse_of_format (format_of_scriptText h)

/-- The reader accepts the whole format and reads it back exactly. A text that is JSON already has
no trailing comma to drop, and reads as the value that it is. -/
theorem format_read_back :
    (∀ (statements : List Statement) (text : String), ScriptText statements text.toList →
      parse text = .ok (statements.map Statement.assignment)) ∧
    ∀ (text : String) (v : Json), Json.parse text = .ok v →
      dropTrailingCommas text.toList = text.toList ∧
        Json.parse (String.ofList (Text.trim (dropTrailingCommas text.toList))) = .ok v := by
  constructor
  · exact fun _ _ h => parse_of_scriptText h
  · intro text v hv
    have h := parse_written hv ⟨_, .refl [] text.toList⟩ Json.spaces_nil Json.spaces_nil
    rw [List.nil_append, List.append_nil] at h
    exact ⟨dropTrailingCommas_json hv, h⟩

/-- The statement `const $a = [[1, ],]`, with a comment after the name. -/
def sampleArrays : Statement where
  keyword := "const"
  keyword_mem := by decide
  afterKeyword := ['\t']
  afterKeyword_gaps := .cons (.space rfl) .nil
  afterKeyword_ne_nil := by decide
  name := ['$', 'a']
  isName := ⟨'$', ['a'], rfl, rfl, Json.forall_of_all rfl⟩
  afterName := ['/', '/', '\n']
  afterName_gaps := .cons (.lineComment (show '\n' ∉ [] by decide)) .nil
  beforeValue := ['\n']
  beforeValue_spaces := by decide
  json := "[[1]]"
  value := .array [.array [.integer 1]]
  parse_json := rfl
  written := ['[', '[', '1', ',', ' ', ']', ',', ']']
  isWritten := ⟨['[', '[', '1', ' ', ']', ']'], .keep (.keep (.keep (.comma (s := []) (z := [' ']) rfl (.inl rfl)
    rfl Json.spaces_nil (by decide)
    (.comma (s := []) (z := []) rfl (.inl rfl) rfl Json.spaces_nil Json.spaces_nil .done))))⟩
  afterValue := []
  afterValue_spaces := Json.spaces_nil

/-- The statement `let b=";" `, whose value is a string of the character that ends statements. -/
def sampleString : Statement where
  keyword := "let"
  keyword_mem := by decide
  afterKeyword := ['\n']
  afterKeyword_gaps := .cons (.space rfl) .nil
  afterKeyword_ne_nil := by decide
  name := ['b']
  isName := ⟨'b', [], rfl, rfl, Json.forall_of_all rfl⟩
  afterName := []
  afterName_gaps := .nil
  beforeValue := []
  beforeValue_spaces := Json.spaces_nil
  json := "\";\""
  value := .string ";"
  parse_json := rfl
  written := "\";\"".toList
  isWritten := ⟨_, .refl _ _⟩
  afterValue := ['\n']
  afterValue_spaces := by decide

theorem format_read_back_sample :
    ScriptText [sampleArrays, sampleString] "/* p */;const\t$a//\n=\n[[1, ],];;let\nb=\";\"\n".toList ∧
      parse "/* p */;const\t$a//\n=\n[[1, ],];;let\nb=\";\"\n" =
        .ok [("$a", .array [.array [.integer 1]]), ("b", .string ";")] ∧
      dropTrailingCommas "[[1]]".toList = "[[1]]".toList := by
  have htext : ScriptText [sampleArrays, sampleString] "/* p */;const\t$a//\n=\n[[1, ],];;let\nb=\";\"\n".toList :=
    .statement (.gap (.blockComment (show ¬ ['*', '/'] <:+: [' ', 'p', ' '] by decide)) (.semicolon .nil))
      (.last (.semicolon .nil))
  have hread := format_read_back.1 _ _ htext
  exact ⟨htext, hread, (format_read_back.2 "[[1]]" _ sampleArrays.parse_json).1⟩

end CoveragePages.Script
