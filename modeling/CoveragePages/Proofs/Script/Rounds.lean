/-
The script reader as a loop over byte positions, with every slice and every read checked, also those that
only a message needs. It never comes to a fault and answers what the program answers, on texts that are
scripts and on all others. Each of its rounds that goes on is at a later position, so there are no more of
them than bytes.
-/
import CoveragePages.Proofs.Script.Positions
import CoveragePages.Proofs.Script.Reader

namespace CoveragePages.Script

open Text

/-! ## Slices -/

/-- The slice of a text between two byte positions. -/
def sliceAt (chars : List Char) (start stop : Nat) : Checked (List Char) :=
  match slice? chars start stop with
  | some cs => .ok cs
  | none => .error (.slice start stop)

/-- The line, counted from one, of a position. A position behind the text is taken for its end. -/
def lineAtPos (source : Source) (pos : Nat) : Checked Nat := do
  return (← sliceAt source.chars 0 (min pos source.size)).count '\n' + 1

/-- The first characters from a position on. -/
def snippetAt (source : Source) (pos : Nat) : Checked String := do
  return String.ofList ((← sliceAt source.chars pos source.size).take 16)

section Slices

variable {text : String} {start stop left : List Char}

theorem bytes_suffix {cs rest : List Char} (h : rest <:+ cs) : bytes rest <:+ bytes cs := by
  obtain ⟨pre, rfl⟩ := h
  exact ⟨bytes pre, (bytes_append pre rest).symm⟩

theorem sliceAt_place (hstart : start <:+ text.toList) (hstop : stop <:+ start) :
    sliceAt text.toList (place (bytes text.toList) (bytes start)) (place (bytes text.toList) (bytes stop)) =
      .ok (upTo start stop) := by
  have h := between_bytes hstart hstop
  unfold Source.between at h
  simp only at h
  split at h
  · rename_i cs hslice
    have hcs : cs = upTo start stop := Except.ok.inj h
    have hplaces : slice? text.toList (place (bytes text.toList) (bytes start))
        (place (bytes text.toList) (bytes stop)) =
        some (upTo start stop) := hcs ▸ hslice
    rw [sliceAt, hplaces]
  · cases h

theorem lineAtPos_place (h : left <:+ text.toList) :
    lineAtPos (Source.of text) (place (bytes text.toList) (bytes left)) = .ok (lineAt text.toList left) := by
  have hslice := sliceAt_place (List.suffix_refl text.toList) h
  rw [place_self] at hslice
  have hclamped : min (place (bytes text.toList) (bytes left)) (Source.of text).size =
      place (bytes text.toList) (bytes left) :=
    Nat.min_eq_left place_le
  rw [lineAtPos, hclamped]
  simp only [Source.of, hslice]
  rfl

theorem snippetAt_place (h : left <:+ text.toList) :
    snippetAt (Source.of text) (place (bytes text.toList) (bytes left)) = .ok (String.ofList (left.take 16)) := by
  have hslice := sliceAt_place h List.nil_suffix
  rw [bytes_nil, place_nil, upTo, List.length_nil, Nat.sub_zero, List.take_length] at hslice
  rw [snippetAt]
  simp only [Source.of, hslice]
  rfl

end Slices

/-! ## Trailing commas -/

/-- The characters from an index on. -/
def tailAt (chars : List Char) (start : Nat) : Checked (List Char) :=
  if start ≤ chars.length then .ok (chars.drop start) else .error (.tail start)

theorem tailAt_append (before rest : List Char) (c : Char) :
    tailAt (before ++ c :: rest) (before.length + 1) = .ok rest := by
  rw [tailAt, if_pos (by simp)]
  simp [List.drop_append]

/-- Leaves out trailing commas, character by character. What stands after a comma is looked up by its index. -/
def dropCommasFrom (chars : List Char) : Quoting → Nat → List Char → Checked (List Char)
  | _, _, [] => return []
  | quoting, i, c :: rest => do
    if quoting = .outside ∧ c = ',' then
      if closesNext (← tailAt chars (i + 1)) then dropCommasFrom chars quoting (i + 1) rest
      else return c :: (← dropCommasFrom chars (quoting.next c.toNat) (i + 1) rest)
    else return c :: (← dropCommasFrom chars (quoting.next c.toNat) (i + 1) rest)

/-- The value without its trailing commas. -/
def dropCommasAt (chars : List Char) : Checked (List Char) := dropCommasFrom chars .outside 0 chars

theorem dropCommasFrom_eq (before rest : List Char) (quoting : Quoting) :
    dropCommasFrom (before ++ rest) quoting before.length rest = .ok (dropTrailingCommasIn quoting rest) := by
  induction rest generalizing before quoting with
  | nil => rfl
  | cons c rest ih =>
    have hrec : ∀ quoting, dropCommasFrom (before ++ c :: rest) quoting (before.length + 1) rest =
        .ok (dropTrailingCommasIn quoting rest) := by
      intro quoting
      simpa using ih (before ++ [c]) quoting
    simp only [dropCommasFrom, tailAt_append, hrec, bind, Except.bind, pure, Except.pure, dropTrailingCommasIn]
    by_cases hcomma : quoting = .outside ∧ c = ','
    · simp only [hcomma.1, hcomma.2, true_and, if_true]
      by_cases hclose : closesNext rest = true
      · rw [if_pos hclose, if_pos hclose]
      · rw [if_neg hclose, if_neg hclose]
    · rw [if_neg hcomma, if_neg fun h => hcomma ⟨h.1, h.2.1⟩]

theorem dropCommasAt_eq (chars : List Char) : dropCommasAt chars = .ok (dropTrailingCommas chars) :=
  dropCommasFrom_eq [] chars .outside

/-! ## Statements -/

/-- Reads the statement at a position, up to the end of its value. -/
def readStatementAt (source : Source) (pos : Nat) : Checked (Except Refusal (Assignment × Nat)) := do
  let keywordEnd ← nameEndAt source.bytes pos
  let keyword ← sliceAt source.chars pos keywordEnd
  if String.ofList keyword ∉ keywords then
    return .error (.noKeyword (← lineAtPos source pos) (← snippetAt source pos))
  else
    let nameStart ← triviaEndAt source.bytes keywordEnd
    let nameEnd ← nameEndAt source.bytes nameStart
    if nameEnd = nameStart then return .error (.noName (← lineAtPos source nameStart))
    else
      let name := String.ofList (← sliceAt source.chars nameStart nameEnd)
      let equals ← triviaEndAt source.bytes nameEnd
      if source.bytes[equals]? ≠ some (byte '=') then return .error (.noEquals name (← lineAtPos source equals))
      else
        match ← valueEndAt source.bytes (equals + 1) with
        | none => return .error (.unterminated name)
        | some valueEnd =>
          let raw ← sliceAt source.chars (equals + 1) valueEnd
          let cleaned ← dropCommasAt raw
          let line ← lineAtPos source (equals + 1)
          match Json.parse (String.ofList (trim cleaned)) with
          | .ok value => return .ok ((name, value), valueEnd)
          | .error cause => return .error (.badValue name line cause)

/-- One round of the reader: it stops at the end of the text, passes a semicolon or reads a statement. -/
def statementRound (source : Source) (pos : Nat) (out : List Assignment) :
    Checked (Round (List Assignment) (Except Refusal (List Assignment))) := do
  let pos ← triviaEndAt source.bytes pos
  if source.size ≤ pos then return .stop (.ok out)
  else if (← byteAt source.bytes pos) = byte ';' then return .next (pos + 1) out
  else
    match ← readStatementAt source pos with
    | .ok (assignment, valueEnd) => return .next valueEnd (out ++ [assignment])
    | .error refusal => return .stop (.error refusal)

/-- The assignments of a script, read by positions. -/
def parseAt (text : String) : Checked (Except Refusal (List Assignment)) :=
  let source := Source.of text
  loop source.size (statementRound source) 0 []

/-- Whether a text starts with a keyword and white space, after trivia, told by positions. -/
def looksLikeScriptAt (text : String) : Checked Bool := do
  let source := Source.of text
  let start ← triviaEndAt source.bytes 0
  let rest ← sliceAt source.chars start source.size
  return keywords.any fun keyword =>
    match dropStart? keyword.toList rest with
    | some (c :: _) => isBlank c
    | _ => false

section Statements

variable {text : String} {left : List Char}

theorem place_inj {start stop : List Char} (hstart : start <:+ text.toList) (hstop : stop <:+ start) :
    place (bytes text.toList) (bytes stop) = place (bytes text.toList) (bytes start) ↔ stop = start := by
  have hle := (bytes_suffix hstart).length_le
  rw [← length_bytes_eq_iff hstop, place, place]
  have hle' := (bytes_suffix hstop).length_le
  omega

theorem readStatementAt_place (h : left <:+ text.toList) :
    readStatementAt (Source.of text) (place (bytes text.toList) (bytes left)) =
      .ok ((statementAt text.toList left).map fun (assignment, rest) =>
        (assignment, place (bytes text.toList) (bytes rest))) := by
  -- every place that is sliced at is a suffix of the text
  have h1 := (pastName_suffix left).trans h
  have h2 := (pastTrivia_suffix (pastName left)).trans h1
  have h3 := (pastName_suffix (pastTrivia (pastName left))).trans h2
  have h4 := (pastTrivia_suffix (pastName (pastTrivia (pastName left)))).trans h3
  have hchars : (Source.of text).chars = text.toList := rfl
  have hbytes : (Source.of text).bytes = bytes text.toList := rfl
  unfold readStatementAt statementAt
  simp only [hchars, hbytes, nameEndAt_place (bytes_suffix h), skipName_bytes, sliceAt_place h (pastName_suffix left),
    lineAtPos_place h, snippetAt_place h, bind, Except.bind, pure, Except.pure]
  split
  · rfl
  · simp only [triviaEndAt_place (bytes_suffix h1), skipTrivia_bytes, nameEndAt_place (bytes_suffix h2), skipName_bytes,
      lineAtPos_place h2, sliceAt_place h2 (pastName_suffix (pastTrivia (pastName left))),
      place_inj h2 (pastName_suffix (pastTrivia (pastName left))), triviaEndAt_place (bytes_suffix h3)]
    split
    · rfl
    · generalize pastTrivia (pastName (pastTrivia (pastName left))) = after at h4
      generalize String.ofList (upTo (pastTrivia (pastName left)) (pastName (pastTrivia (pastName left)))) = name
      simp only [getElem?_place (bytes_suffix h4), lineAtPos_place h4]
      cases after with
      | nil => rfl
      | cons c valueStart =>
        obtain ⟨b, bs, hb, heq⟩ := bytes_cons_eq c valueStart
        by_cases hc : c = '='
        · -- only here is the first byte the whole character
          have h5 := (List.suffix_cons c valueStart).trans h4
          subst hc
          have hb' : bytes ('=' :: valueStart) = byte '=' :: bytes valueStart := bytes_cons_ascii (by decide) _
          have hnext := place_cons (hb' ▸ bytes_suffix h4)
          simp only [hb', ← hnext, List.head?_cons, ne_eq, not_true_eq_false, if_false,
            valueEndAt_place (bytes_suffix h5), skipValue?_bytes, lineAtPos_place h5]
          cases hv : pastValue? valueStart with
          | none => rfl
          | some afterValue =>
            simp only [Option.map_some, sliceAt_place h5 (pastValue?_suffix hv), dropCommasAt_eq]
            cases Json.parse (String.ofList (trim (dropTrailingCommas (upTo valueStart afterValue)))) <;> rfl
        · have hne : ¬ some b = some (byte '=') := fun h => hc ((heq '=' (by decide)).1 (Option.some.inj h))
          simp only [hb, List.head?_cons, ne_eq, hne, not_false_eq_true, if_true, hc]
          rfl

/-- Fuel for one statement more than there are characters is enough. -/
theorem statementsAt_fuel (chars : List Char) : ∀ {fuel fuel' : Nat} {cs : List Char}, cs.length < fuel →
    cs.length < fuel' → statementsAt chars fuel cs = statementsAt chars fuel' cs := by
  intro fuel
  induction fuel with
  | zero => intro _ _ h; exact absurd h (Nat.not_lt_zero _)
  | succ fuel ih =>
    rintro (_ | fuel') cs h h'
    · exact absurd h' (Nat.not_lt_zero _)
    · have hle := (pastTrivia_suffix cs).length_le
      rw [statementsAt, statementsAt]
      generalize pastTrivia cs = start at hle
      cases start with
      | nil => rfl
      | cons c rest =>
        rw [List.length_cons] at hle
        simp only [ih (show rest.length < fuel by omega) (show rest.length < fuel' by omega)]
        split
        · rfl
        · cases hs : statementAt chars (c :: rest) with
          | error e => rfl
          | ok p =>
            obtain ⟨a, left⟩ := p
            have hlt := statementAt_shorter hs
            rw [List.length_cons] at hlt
            simp only [ih (show left.length < fuel by omega) (show left.length < fuel' by omega)]

/-- What the reader answers from a place on, after what it has read before. -/
def answerFrom (text : String) (left : List Char) (out : List Assignment) : Except Refusal (List Assignment) :=
  (statementsAt text.toList (left.length + 1) left).map (out ++ ·)

theorem answerFrom_end {out : List Assignment} (hpast : pastTrivia left = []) : answerFrom text left out = .ok out := by
  rw [answerFrom, statementsAt, hpast]
  simp [Except.map]

theorem answerFrom_semicolon {rest : List Char} {out : List Assignment} (hpast : pastTrivia left = ';' :: rest) :
    answerFrom text left out = answerFrom text rest out := by
  have hlen := (pastTrivia_suffix left).length_le
  rw [hpast, List.length_cons] at hlen
  rw [answerFrom, answerFrom, statementsAt, hpast]
  simp only [if_true, statementsAt_fuel _ hlen (Nat.lt_succ_self rest.length)]

section Statement

variable {c : Char} {rest : List Char} {out : List Assignment} (hpast : pastTrivia left = c :: rest) (hc : c ≠ ';')

include hpast hc

theorem answerFrom_refused {refusal : Refusal} (hs : statementAt text.toList (c :: rest) = .error refusal) :
    answerFrom text left out = .error refusal := by
  rw [answerFrom, statementsAt, hpast]
  simp only [if_neg hc, hs]
  rfl

theorem answerFrom_statement {a : Assignment} {rest' : List Char}
    (hs : statementAt text.toList (c :: rest) = .ok (a, rest')) :
    answerFrom text left out = answerFrom text rest' (out ++ [a]) := by
  have hlen := (pastTrivia_suffix left).length_le
  rw [hpast] at hlen
  have hless := Nat.lt_of_lt_of_le (statementAt_shorter hs) hlen
  rw [answerFrom, answerFrom, statementsAt, hpast]
  simp only [if_neg hc, hs, statementsAt_fuel _ hless (Nat.lt_succ_self rest'.length)]
  cases statementsAt text.toList (rest'.length + 1) rest' <;> simp [Except.map]

end Statement

/-- A round that goes on is at a later place, from where on the answer is the same; else it stops with the answer. -/
theorem statementRound_place (h : left <:+ text.toList) (out : List Assignment) :
    statementRound (Source.of text) (place (bytes text.toList) (bytes left)) out =
        .ok (.stop (answerFrom text left out)) ∨
      ∃ rest out', rest <:+ left ∧ rest.length < left.length ∧
        statementRound (Source.of text) (place (bytes text.toList) (bytes left)) out =
          .ok (.next (place (bytes text.toList) (bytes rest)) out') ∧
        answerFrom text rest out' = answerFrom text left out := by
  have hstart := pastTrivia_suffix left
  have h1 := hstart.trans h
  have hbytes : (Source.of text).bytes = bytes text.toList := rfl
  have hsize : (Source.of text).size = (bytes text.toList).length := rfl
  simp only [statementRound, hbytes, hsize, triviaEndAt_place (bytes_suffix h), skipTrivia_bytes, bind, Except.bind,
    pure, Except.pure]
  cases hpast : pastTrivia left with
  | nil => simp [answerFrom_end hpast]
  | cons c rest =>
    rw [hpast] at hstart h1
    have hlen := hstart.length_le
    obtain ⟨b, bs, hb, heq⟩ := bytes_cons_eq c rest
    have hplace : b :: bs <:+ bytes text.toList := hb ▸ bytes_suffix h1
    have hread := readStatementAt_place h1
    rw [hb] at hread
    simp only [hb, if_neg (Nat.not_le_of_lt (place_cons_lt hplace)), byteAt_place hplace, hread]
    by_cases hc : c = ';'
    · right
      subst hc
      have hb' : bytes (';' :: rest) = byte ';' :: bytes rest := bytes_cons_ascii (by decide) _
      obtain ⟨rfl, rfl⟩ : b = byte ';' ∧ bs = bytes rest := by simpa [hb] using hb'
      refine ⟨rest, out, (List.suffix_cons ';' rest).trans hstart, hlen, ?_, (answerFrom_semicolon hpast).symm⟩
      rw [if_pos rfl, place_cons hplace]
    · have hne : b ≠ byte ';' := fun h => hc ((heq ';' (by decide)).1 h)
      rw [if_neg hne]
      cases hs : statementAt text.toList (c :: rest) with
      | error refusal =>
        left
        rw [answerFrom_refused hpast hc hs]
        rfl
      | ok read =>
        right
        obtain ⟨a, rest'⟩ := read
        exact ⟨rest', out ++ [a], (statementAt_suffix hs).trans hstart,
          Nat.lt_of_lt_of_le (statementAt_shorter hs) hlen, rfl, (answerFrom_statement hpast hc hs).symm⟩

theorem place_lt_place_bytes {rest : List Char} (h : left <:+ text.toList) (hrest : rest <:+ left)
    (hshorter : rest.length < left.length) :
    place (bytes text.toList) (bytes left) < place (bytes text.toList) (bytes rest) := by
  have hne : (bytes rest).length ≠ (bytes left).length := by
    rw [Ne, length_bytes_eq_iff hrest]
    rintro rfl
    exact Nat.lt_irrefl _ hshorter
  have hle := (bytes_suffix hrest).length_le
  exact place_lt_place (bytes_suffix h) (by omega)

end Statements

/-! ## Refusals -/

/-- A refusal that says what is wrong with the text, not that the reader itself went wrong. -/
def Refusal.OfText : Refusal → Prop
  | .badSlice _ _ | .endless => False
  | _ => True

theorem statementAt_refusal {chars left : List Char} {refusal : Refusal} (h : statementAt chars left = .error refusal) :
    refusal.OfText := by
  unfold statementAt at h
  simp only at h
  split at h
  · cases h; trivial
  · split at h
    · cases h; trivial
    · split at h
      · cases h; trivial
      · split at h
        · cases h; trivial
        · split at h
          · cases h; trivial
          · split at h
            · cases h
            · cases h; trivial

theorem statementsAt_refusal {chars : List Char} {refusal : Refusal} :
    ∀ {fuel : Nat} {cs : List Char}, cs.length < fuel →
    statementsAt chars fuel cs = .error refusal → refusal.OfText := by
  intro fuel
  induction fuel with
  | zero => intro _ h; exact absurd h (Nat.not_lt_zero _)
  | succ fuel ih =>
    intro cs hfuel h
    have hle := (pastTrivia_suffix cs).length_le
    rw [statementsAt] at h
    generalize pastTrivia cs = start at hle h
    cases start with
    | nil => cases h
    | cons c rest =>
      rw [List.length_cons] at hle
      simp only at h
      split at h
      · exact ih (by omega) h
      · cases hs : statementAt chars (c :: rest) with
        | error e =>
          rw [hs] at h
          cases h
          exact statementAt_refusal hs
        | ok read =>
          obtain ⟨a, left⟩ := read
          have hless := statementAt_shorter hs
          rw [List.length_cons] at hless
          rw [hs] at h
          simp only at h
          cases hmore : statementsAt chars fuel left with
          | ok more => rw [hmore] at h; cases h
          | error e =>
            rw [hmore] at h
            cases h
            exact ih (by omega) hmore

/-! ## The whole run -/

/-- The rounds from the start of a text on, each at the position and with the assignments the one before went on
with. -/
inductive Reached (text : String) : Nat → Nat → List Assignment → Prop where
  | start : Reached text 0 0 []
  | next {rounds pos pos' : Nat} {out out' : List Assignment} : Reached text rounds pos out →
    statementRound (Source.of text) pos out = .ok (.next pos' out') → Reached text (rounds + 1) pos' out'

/-- Rounds are entered only between characters, and no more of them have gone on than there are bytes before. -/
theorem Reached.exists_place {text : String} {rounds pos : Nat} {out : List Assignment}
    (h : Reached text rounds pos out) :
    ∃ left, left <:+ text.toList ∧ pos = place (bytes text.toList) (bytes left) ∧ rounds ≤ pos := by
  induction h with
  | start => exact ⟨text.toList, List.suffix_refl _, place_self.symm, Nat.le_refl 0⟩
  | next _ hnext ih =>
    obtain ⟨left, hleft, rfl, hrounds⟩ := ih
    obtain hstop | ⟨rest, out'', hrest, hshorter, hgoes, -⟩ := statementRound_place hleft _
    · rw [hstop] at hnext
      cases hnext
    · rw [hgoes] at hnext
      cases hnext
      have hmoves := place_lt_place_bytes hleft hrest hshorter
      exact ⟨rest, hrest.trans hleft, rfl, by omega⟩

theorem parseAt_eq (text : String) : parseAt text = .ok (parse text) := by
  have hrun : loop (Source.of text).size (statementRound (Source.of text))
      (place (bytes text.toList) (bytes text.toList)) [] = .ok (answerFrom text text.toList []) := by
    refine loop_eq (fun left => place (bytes text.toList) (bytes left)) (· <:+ text.toList) (answerFrom text) ?_
      (List.suffix_refl _) []
    intro left out hleft
    obtain hstop | ⟨rest, out', hrest, hshorter, hnext, hsame⟩ := statementRound_place hleft out
    · exact .inl hstop
    · exact .inr ⟨rest, out', hrest.trans hleft, place_lt_place_bytes hleft hrest hshorter, place_le, hnext, hsame⟩
  rw [place_self] at hrun
  have hfuel := statementsAt_fuel text.toList (Nat.lt_succ_self text.toList.length)
    (Nat.lt_succ_of_le (length_le_byteLength text.toList))
  rw [parseAt, hrun, answerFrom, parse_eq, hfuel]
  cases statementsAt text.toList (byteLength text.toList + 1) text.toList <;> rfl

theorem looksLikeScriptAt_eq (text : String) : looksLikeScriptAt text = .ok (looksLikeScript text) := by
  have hbytes : (Source.of text).bytes = bytes text.toList := rfl
  have hstart := triviaEndAt_place (List.suffix_refl (bytes text.toList))
  rw [place_self, skipTrivia_bytes] at hstart
  have hrest := sliceAt_place (pastTrivia_suffix text.toList) List.nil_suffix
  rw [bytes_nil, place_nil, upTo, List.length_nil, Nat.sub_zero, List.take_length] at hrest
  have hslice : sliceAt (Source.of text).chars (place (bytes text.toList) (bytes (pastTrivia text.toList)))
      (Source.of text).size = .ok (pastTrivia text.toList) := hrest
  simp only [looksLikeScriptAt, hbytes, hstart, hslice, bind, Except.bind, looksLikeScript, afterTrivia?_eq]
  rfl

/-- Whatever the text, the reader and the test for scripts run by positions without a fault, and answer what the program
answers; a refusal is always about the text. Each round is entered inside the text and goes on, if it does, at a later
position, so at most as many rounds go on as there are bytes. -/
theorem reading_never_faults (text : String) :
    parseAt text = .ok (parse text) ∧ looksLikeScriptAt text = .ok (looksLikeScript text) ∧
      (∀ refusal, parse text = .error refusal → refusal.OfText) ∧
      ∀ rounds pos out, Reached text rounds pos out → rounds ≤ pos ∧ pos ≤ byteLength text.toList ∧
        ((∃ answer, statementRound (Source.of text) pos out = .ok (.stop answer)) ∨
          ∃ pos' out', statementRound (Source.of text) pos out = .ok (.next pos' out') ∧ pos < pos') := by
  refine ⟨parseAt_eq text, looksLikeScriptAt_eq text, fun refusal h => ?_, fun rounds pos out h => ?_⟩
  · rw [parse_eq] at h
    exact statementsAt_refusal (Nat.lt_succ_of_le (length_le_byteLength text.toList)) h
  · obtain ⟨left, hleft, rfl, hrounds⟩ := h.exists_place
    refine ⟨hrounds, place_le, ?_⟩
    obtain hstop | ⟨rest, out', hrest, hshorter, hnext, -⟩ := statementRound_place hleft out
    · exact .inl ⟨_, hstop⟩
    · exact .inr ⟨_, out', hnext, place_lt_place_bytes hleft hrest hshorter⟩

/-- A text whose only statement has no name is refused by positions too, past a character of two bytes. -/
theorem reading_never_faults_sample :
    parseAt "/* é */ var = 1;" = .ok (parse "/* é */ var = 1;") ∧
      ∃ refusal, parse "/* é */ var = 1;" = .error refusal ∧ refusal.OfText := by
  obtain ⟨hparse, -, hrefused, -⟩ := reading_never_faults "/* é */ var = 1;"
  have hnone : (parse "/* é */ var = 1;").toOption.isSome = false := by decide
  refine ⟨hparse, ?_⟩
  cases hresult : parse "/* é */ var = 1;" with
  | ok out =>
    rw [hresult] at hnone
    cases hnone
  | error refusal => exact ⟨refusal, rfl, hrefused refusal hresult⟩

end CoveragePages.Script
