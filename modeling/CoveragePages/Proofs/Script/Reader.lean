/-
The script reader on characters: statement by statement, with no offsets and no slices that could
fail. It answers what the program answers, for every text, so every slice that the program takes
lies between characters inside the text.
-/
import CoveragePages.Proofs.Script.Scan
import CoveragePages.Script.Reader

namespace CoveragePages.Script

open Text

/-! ## Places -/

/-- What stands between two places of a text, each given by what is left from there on. -/
def upTo (start stop : List Char) : List Char := start.take (start.length - stop.length)

theorem upTo_append (mid stop : List Char) : upTo (mid ++ stop) stop = mid := by
  rw [upTo, List.length_append, Nat.add_sub_cancel, List.take_left]

/-- The line, counted from one, of a place in a text. -/
def lineAt (chars left : List Char) : Nat := (upTo chars left).count '\n' + 1

theorem between_bytes {text : String} {start stop : List Char} (hstart : start <:+ text.toList)
    (hstop : stop <:+ start) :
    (Source.of text).between (bytes start) (bytes stop) = .ok (upTo start stop) := by
  obtain ⟨pre, hpre⟩ := hstart
  obtain ⟨mid, rfl⟩ := hstop
  have hsize : (Source.of text).size = byteLength (pre ++ (mid ++ stop)) := by rw [hpre]; rfl
  have hchars : (Source.of text).chars = pre ++ (mid ++ stop) := hpre.symm
  have hoffset : ∀ left : List Char, (Source.of text).offset (bytes left) =
      byteLength (pre ++ (mid ++ stop)) - byteLength left := by
    intro left
    rw [Source.offset, hsize]
    rfl
  have ha : (Source.of text).offset (bytes (mid ++ stop)) = byteLength pre := by
    rw [hoffset, byteLength_append pre, Nat.add_sub_cancel]
  have hb : (Source.of text).offset (bytes stop) = byteLength pre + byteLength mid := by
    rw [hoffset, byteLength_append, byteLength_append, ← Nat.add_assoc, Nat.add_sub_cancel]
  simp only [Source.between, ha, hb, hchars, slice?_append, upTo_append]

theorem lineOf_bytes {text : String} {left : List Char} (h : left <:+ text.toList) :
    (Source.of text).lineOf (bytes left) = .ok (lineAt text.toList left) := by
  rw [Source.lineOf, show (Source.of text).bytes = bytes text.toList from rfl, between_bytes (List.suffix_refl _) h]
  rfl

theorem snippet_bytes {text : String} {left : List Char} (h : left <:+ text.toList) :
    (Source.of text).snippet (bytes left) = .ok (String.ofList (left.take 16)) := by
  have hb := between_bytes h List.nil_suffix
  rw [bytes_nil] at hb
  rw [Source.snippet, hb, upTo, List.length_nil, Nat.sub_zero, List.take_length]
  rfl

/-! ## Statements -/

/-- `readStatement` on characters. -/
def statementAt (chars left : List Char) : Except Refusal (Assignment × List Char) :=
  let afterKeyword := pastName left
  if String.ofList (upTo left afterKeyword) ∉ keywords then
    .error (.noKeyword (lineAt chars left) (String.ofList (left.take 16)))
  else
    let nameStart := pastTrivia afterKeyword
    let afterName := pastName nameStart
    if afterName = nameStart then .error (.noName (lineAt chars nameStart))
    else
      let name := String.ofList (upTo nameStart afterName)
      match pastTrivia afterName with
      | [] => .error (.noEquals name (lineAt chars []))
      | c :: valueStart =>
        if c ≠ '=' then .error (.noEquals name (lineAt chars (c :: valueStart)))
        else
          match pastValue? valueStart with
          | none => .error (.unterminated name)
          | some afterValue =>
            match Json.parse (String.ofList (trim (dropTrailingCommas (upTo valueStart afterValue)))) with
            | .ok value => .ok ((name, value), afterValue)
            | .error cause => .error (.badValue name (lineAt chars valueStart) cause)

/-- `readStatements` on characters. -/
def statementsAt (chars : List Char) : Nat → List Char → Except Refusal (List Assignment)
  | 0, _ => .error .endless
  | fuel + 1, left =>
    match pastTrivia left with
    | [] => .ok []
    | c :: rest =>
      if c = ';' then statementsAt chars fuel rest
      else
        match statementAt chars (c :: rest) with
        | .error e => .error e
        | .ok (assignment, left) => (statementsAt chars fuel left).map (assignment :: ·)

theorem length_bytes_eq_iff {a b : List Char} (h : a <:+ b) : (bytes a).length = (bytes b).length ↔ a = b := by
  obtain ⟨pre, rfl⟩ := h
  constructor
  · intro hlen
    have h1 := length_le_byteLength pre
    rw [bytes_append, List.length_append] at hlen
    rw [byteLength] at h1
    have hnil : pre = [] := List.length_eq_zero_iff.1 (by omega)
    rw [hnil, List.nil_append]
  · intro heq
    rw [← heq]

theorem readStatement_bytes {text : String} {left : List Char} (h : left <:+ text.toList) :
    readStatement (Source.of text) (bytes left) =
      (statementAt text.toList left).map fun (assignment, rest) => (assignment, bytes rest) := by
  -- every place that is sliced at is a suffix of the text
  have h1 := (pastName_suffix left).trans h
  have h2 := (pastTrivia_suffix (pastName left)).trans h1
  have h3 := (pastName_suffix (pastTrivia (pastName left))).trans h2
  have h4 := (pastTrivia_suffix (pastName (pastTrivia (pastName left)))).trans h3
  unfold readStatement statementAt
  simp only [skipName_bytes, skipTrivia_bytes, between_bytes h (pastName_suffix left), lineOf_bytes h,
    snippet_bytes h, bind, Except.bind]
  split
  · rfl
  · simp only [lineOf_bytes h2, between_bytes h2 (pastName_suffix (pastTrivia (pastName left))),
      length_bytes_eq_iff (pastName_suffix (pastTrivia (pastName left)))]
    split
    · rfl
    · generalize pastTrivia (pastName (pastTrivia (pastName left))) = after at h4
      generalize String.ofList (upTo (pastTrivia (pastName left)) (pastName (pastTrivia (pastName left)))) = name
      cases after with
      | nil =>
        have hline : (Source.of text).lineOf (bytes []) = .ok (lineAt text.toList []) := lineOf_bytes List.nil_suffix
        rw [bytes_nil] at hline
        simp only [bytes_nil, hline]
        rfl
      | cons c valueStart =>
        obtain ⟨b, bs, hb, heq⟩ := bytes_cons_eq c valueStart
        by_cases hc : c = '='
        · -- only here is the first byte the whole character
          have h5 := (List.suffix_cons c valueStart).trans h4
          subst hc
          have hb' : bytes ('=' :: valueStart) = byte '=' :: bytes valueStart := bytes_cons_ascii (by decide) _
          simp only [hb', ne_eq, not_true_eq_false, if_false, skipValue?_bytes]
          cases hv : pastValue? valueStart with
          | none => rfl
          | some afterValue =>
            simp only [Option.map_some, between_bytes h5 (pastValue?_suffix hv), lineOf_bytes h5]
            cases Json.parse (String.ofList (trim (dropTrailingCommas (upTo valueStart afterValue)))) <;> rfl
        · have hne : b ≠ byte '=' := fun h => hc ((heq '=' (by decide)).1 h)
          have hline := lineOf_bytes h4
          rw [hb] at hline
          simp only [hb, ne_eq, hne, not_false_eq_true, if_true, hc, hline]
          rfl

/-- A statement that is read has an equals sign, and its value ends behind it. -/
theorem statementAt_value {chars left rest : List Char} {a : Assignment} (h : statementAt chars left = .ok (a, rest)) :
    ∃ valueStart, '=' :: valueStart <:+ left ∧ rest <:+ valueStart := by
  unfold statementAt at h
  simp only at h
  split at h
  · cases h
  · split at h
    · cases h
    · split at h
      · cases h
      · rename_i c valueStart hafter
        split at h
        · cases h
        · rename_i hequals
          split at h
          · cases h
          · rename_i afterValue hv
            split at h
            · cases h
              refine ⟨valueStart, ?_, pastValue?_suffix hv⟩
              rw [← Decidable.not_not.1 hequals, ← hafter]
              exact (pastTrivia_suffix _).trans ((pastName_suffix _).trans
                ((pastTrivia_suffix _).trans (pastName_suffix left)))
            · cases h

theorem statementAt_suffix {chars left rest : List Char} {a : Assignment} (h : statementAt chars left = .ok (a, rest)) :
    rest <:+ left := by
  obtain ⟨valueStart, hstart, hrest⟩ := statementAt_value h
  exact hrest.trans ((List.suffix_cons '=' valueStart).trans hstart)

theorem statementAt_shorter {chars left rest : List Char} {a : Assignment}
    (h : statementAt chars left = .ok (a, rest)) :
    rest.length < left.length := by
  obtain ⟨valueStart, hstart, hrest⟩ := statementAt_value h
  exact Nat.lt_of_lt_of_le (Nat.lt_succ_of_le hrest.length_le) hstart.length_le

theorem readStatements_bytes {text : String} (fuel : Nat) {left : List Char} (h : left <:+ text.toList) :
    readStatements (Source.of text) fuel (bytes left) = statementsAt text.toList fuel left := by
  induction fuel generalizing left with
  | zero => rfl
  | succ fuel ih =>
    unfold readStatements statementsAt
    have h1 := (pastTrivia_suffix left).trans h
    rw [skipTrivia_bytes]
    generalize pastTrivia left = start at h1
    cases start with
    | nil => rfl
    | cons c rest =>
      have h2 := (List.suffix_cons c rest).trans h1
      by_cases hc : c = ';'
      · subst hc
        have hb : bytes (';' :: rest) = byte ';' :: bytes rest := bytes_cons_ascii (by decide) _
        simp only [hb, if_true, ih h2]
      · obtain ⟨b, bs, hb, heq⟩ := bytes_cons_eq c rest
        have hne : b ≠ byte ';' := fun h => hc ((heq ';' (by decide)).1 h)
        have hread := readStatement_bytes h1
        rw [hb] at hread
        simp only [hb, hne, hc, if_false, hread]
        cases hs : statementAt text.toList (c :: rest) with
        | error e => rfl
        | ok p =>
          obtain ⟨a, left'⟩ := p
          have h3 := (statementAt_suffix hs).trans h1
          simp only [Except.map, bind, Except.bind, ih h3]
          cases statementsAt text.toList fuel left' <;> rfl

/-- The reader answers what its form on characters answers. -/
theorem parse_eq (text : String) : parse text = statementsAt text.toList (byteLength text.toList + 1) text.toList :=
  readStatements_bytes _ (List.suffix_refl _)

/-! ## Telling scripts from documents -/

theorem afterTrivia?_eq (text : String) : afterTrivia? text = some (pastTrivia text.toList) := by
  obtain ⟨pre, hpre⟩ := pastTrivia_suffix text.toList
  have hoffset : (Source.of text).offset (bytes (pastTrivia text.toList)) = byteLength pre := by
    show byteLength text.toList - byteLength (pastTrivia text.toList) = byteLength pre
    have hlen := byteLength_append pre (pastTrivia text.toList)
    rw [hpre] at hlen
    omega
  have hdrop := dropBytes?_append pre (pastTrivia text.toList)
  rw [hpre] at hdrop
  rw [afterTrivia?]
  show dropBytes? text.toList ((Source.of text).offset (skipTrivia (bytes text.toList))) = _
  rw [skipTrivia_bytes, hoffset, hdrop]

end CoveragePages.Script
