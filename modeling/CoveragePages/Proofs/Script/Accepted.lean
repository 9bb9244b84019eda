/-
What the script reader accepts: the format, two slips, and nothing else. The slips are a comma between
brackets with no element, which is dropped like a trailing one, and a comment that is not closed, which
takes the rest of the text with it.

The reader is followed backwards, from what it answers to the text: each scanner stops at a place that
says what stands before it.
-/
import CoveragePages.Proofs.Script.Slips

namespace CoveragePages.Script

open Json (Spaces)

/-! ## Trivia -/

/-- A comment that is closed is closed at the first star and slash. -/
theorem exists_first_close {cs : List Char} (h : ['*', '/'] <:+: cs) :
    ∃ body rest, cs = body ++ '*' :: '/' :: rest ∧ ¬ ['*', '/'] <:+: body := by
  induction cs with
  | nil => cases List.eq_nil_of_infix_nil h
  | cons c cs ih =>
    by_cases hstart : ['*', '/'] <+: c :: cs
    · obtain ⟨rest, hrest⟩ := hstart
      exact ⟨[], rest, hrest.symm, by simp⟩
    · obtain ⟨body, rest, rfl, hbody⟩ := ih ((List.infix_cons_iff.1 h).resolve_left hstart)
      refine ⟨c :: body, rest, rfl, fun hclose => ?_⟩
      rcases List.infix_cons_iff.1 hclose with hstart' | hclose
      · exact hstart (hstart'.trans ⟨'*' :: '/' :: rest, rfl⟩)
      · exact hbody hclose

/-- What the reader skips is white space and closed comments, and at the end of the text perhaps a
comment that is not closed. -/
def Skipped (cs : List Char) : Prop :=
  ∃ gaps, Gaps gaps ∧ (cs = gaps ++ pastTrivia cs ∨
    ∃ comment, pastTrivia cs = [] ∧ LastComment true comment ∧ cs = gaps ++ comment)

theorem Skipped.cons {gap rest : List Char} (hgap : Gap gap) (h : Skipped rest) : Skipped (gap ++ rest) := by
  obtain ⟨gaps, hgaps, heq | ⟨comment, hend, hcomment, rfl⟩⟩ := h
  · refine ⟨gap ++ gaps, .cons hgap hgaps, .inl ?_⟩
    rw [hgap.pastTrivia, List.append_assoc, ← heq]
  · refine ⟨gap ++ gaps, .cons hgap hgaps, .inr ⟨comment, ?_, hcomment, (List.append_assoc ..).symm⟩⟩
    rw [hgap.pastTrivia, hend]

theorem skipped_stop {cs : List Char} (h : pastTrivia cs = cs) : Skipped cs := ⟨[], .nil, .inl h.symm⟩

theorem skipped_comment {comment : List Char} (h : LastComment true comment) (hend : pastTrivia comment = []) :
    Skipped comment := ⟨[], .nil, .inr ⟨comment, hend, h, rfl⟩⟩

theorem skipped_line {body : List Char} (ih : ∀ rest : List Char, rest.length < body.length → Skipped rest) :
    Skipped ('/' :: '/' :: body) := by
  by_cases hclosed : '\n' ∈ body
  · obtain ⟨body, rest, rfl, hbody⟩ := List.eq_append_cons_of_mem hclosed
    have hrest := (ih rest (by simp; omega)).cons (.lineComment hbody)
    simpa using hrest
  · exact skipped_comment (.line hclosed) (pastTriviaIn_open_line hclosed)

theorem skipped_block {body : List Char} (ih : ∀ rest : List Char, rest.length < body.length → Skipped rest) :
    Skipped ('/' :: '*' :: body) := by
  by_cases hclosed : ['*', '/'] <:+: body
  · obtain ⟨body, rest, rfl, hbody⟩ := exists_first_close hclosed
    have hrest := (ih rest (by simp; omega)).cons (.blockComment hbody)
    simpa using hrest
  · exact skipped_comment (.block rfl hclosed) (pastTriviaIn_open_block hclosed)

theorem skipped (cs : List Char) : Skipped cs := by
  induction hlen : cs.length using Nat.strong_induction_on generalizing cs with
  | _ n ih =>
    have hless : ∀ rest : List Char, rest.length < n → Skipped rest := fun rest h => ih _ h rest rfl
    rcases cs with _ | ⟨c, rest⟩
    · exact skipped_stop rfl
    by_cases hspace : Json.isSpace c = true
    · exact (hless rest (by rw [← hlen]; simp)).cons (.space hspace)
    by_cases hslash : c = '/'
    · subst hslash
      rcases rest with _ | ⟨d, body⟩
      · exact skipped_stop rfl
      have hbody : ∀ rest : List Char, rest.length < body.length → Skipped rest :=
        fun rest h => hless rest (by rw [← hlen, List.length_cons, List.length_cons]; omega)
      by_cases hline : d = '/'
      · exact hline ▸ skipped_line hbody
      by_cases hblock : d = '*'
      · exact hblock ▸ skipped_block hbody
      refine skipped_stop ?_
      rw [pastTrivia, pastTriviaIn, if_neg fun h => hline h.2, if_neg fun h => hblock h.2, if_neg hspace]
    · exact skipped_stop (pastTrivia_stop (Bool.eq_false_iff.2 hspace) hslash rest)

/-- Before a token, what the reader skips is white space and closed comments. -/
theorem gaps_before {cs : List Char} (h : pastTrivia cs ≠ []) : ∃ gaps, Gaps gaps ∧ cs = gaps ++ pastTrivia cs := by
  obtain ⟨gaps, hgaps, heq | ⟨comment, hend, -⟩⟩ := skipped cs
  · exact ⟨gaps, hgaps, heq⟩
  · exact absurd hend h

/-! ## Statements -/

theorem name_of_pastName {cs : List Char} (h : pastName cs ≠ cs) :
    ∃ name, Name name ∧ cs = name ++ pastName cs ∧ NoName (pastName cs) := by
  cases cs with
  | nil => exact absurd rfl h
  | cons c r =>
    by_cases hc : startsName c = true
    · have hpast : pastName (c :: r) = r.dropWhile continuesName := if_pos hc
      rw [hpast]
      refine ⟨c :: r.takeWhile continuesName, ⟨c, _, rfl, hc, fun d hd => List.mem_takeWhile_imp hd⟩, ?_, ?_⟩
      · rw [List.cons_append, List.takeWhile_append_dropWhile]
      · intro d hd
        have hnot := List.head?_dropWhile_not continuesName r
        rw [hd] at hnot
        simpa using hnot
    · exact absurd (if_neg hc) h

theorem upTo_eq {start mid stop : List Char} (h : start = mid ++ stop) : upTo start stop = mid := by
  subst h
  exact upTo_append mid stop

theorem stops_of_pastValueIn {q : Quoting} {depth : Nat} {cs rest : List Char}
    (h : pastValueIn q depth cs = some rest) :
    Stops rest := by
  fun_induction pastValueIn q depth cs with
  | case1 =>
    cases h
    intro c hc
    cases hc
  | case2 => cases h
  | case3 depth c cs hc =>
    cases h
    rintro d hd
    cases hd
    exact hc.1
  | case4 depth c cs hc ih => exact ih h
  | case5 q depth c cs hq ih => exact ih h

/-- What the reader takes for a statement is one. -/
theorem assigns_of_statementAt {chars left rest : List Char} {a : Assignment}
    (h : statementAt chars left = .ok (a, rest)) :
    ∃ text, Assigns true a text ∧ Stops rest ∧ left = text ++ rest := by
  unfold statementAt at h
  simp only at h
  split at h
  · cases h
  rename_i hkeyword
  split at h
  · cases h
  rename_i hname
  split at h
  · cases h
  rename_i c valueStart hequals
  split at h
  · cases h
  rename_i hc
  split at h
  · cases h
  rename_i afterValue hvalue
  split at h
  · rename_i value hparse
    cases h
    obtain rfl : c = '=' := not_not.1 hc
    -- every place that the reader stops at is cut off the text as it was reached
    have hword : pastName left ≠ left := by
      intro hnone
      rw [hnone, upTo_eq (List.nil_append left).symm] at hkeyword
      exact hkeyword (by decide)
    obtain ⟨word, -, hleft, hend⟩ := name_of_pastName hword
    obtain ⟨gap, hgap, hafter⟩ := gaps_before fun hnil : pastTrivia (pastName left) = [] => hname (by rw [hnil]; rfl)
    obtain ⟨name, hisName, hstart, -⟩ := name_of_pastName hname
    obtain ⟨gap', hgap', hafter'⟩ := gaps_before (hequals ▸ List.cons_ne_nil '=' valueStart)
    obtain ⟨raw, hraw⟩ := pastValue?_suffix hvalue
    have htext : left = word ++ (gap ++ (name ++ (gap' ++ '=' :: (raw ++ rest)))) := by
      rw [hraw, ← hequals, ← hafter', ← hstart, ← hafter, ← hleft]
    -- without a gap, the name would belong to the keyword
    have hne : gap ≠ [] := by
      rintro rfl
      obtain ⟨d, r, rfl, hd, -⟩ := hisName
      have hcontinues := hend d (by rw [hafter, hstart]; rfl)
      rw [continuesName, hd] at hcontinues
      cases hcontinues
    rw [upTo_eq hraw.symm] at hparse
    rw [upTo_eq hleft] at hkeyword
    rw [upTo_eq hstart]
    refine ⟨_, .mk (not_not.1 hkeyword) hgap hne hisName hgap' (means_of_parse hparse), stops_of_pastValueIn hvalue, ?_⟩
    rw [htext]
    simp
  · cases h

/-! ## Scripts -/

theorem format_of_statementsAt {chars : List Char} {fuel : Nat} {left : List Char} {vars : List Assignment}
    (h : statementsAt chars fuel left = .ok vars) : Format true vars left := by
  -- on the rounds of the reader: each takes a semicolon or a statement, or ends the text
  induction fuel generalizing left vars with
  | zero => cases h
  | succ fuel ih =>
    unfold statementsAt at h
    split at h
    · rename_i hend
      cases h
      obtain ⟨gaps, hgaps, heq | ⟨comment, -, hcomment, rfl⟩⟩ := skipped left
      · rw [heq, hend]
        exact .done hgaps .none
      · exact .done hgaps hcomment
    · rename_i c rest hstart
      obtain ⟨gaps, hgaps, hleft⟩ := gaps_before (hstart ▸ List.cons_ne_nil c rest)
      rw [hleft, hstart]
      split at h
      · rename_i hc
        subst hc
        exact .semicolon hgaps (ih h)
      · split at h
        · cases h
        · rename_i a rest' hstatement
          obtain ⟨text, hassigns, hstops, htext⟩ := assigns_of_statementAt hstatement
          cases hmore : statementsAt chars fuel rest' with
          | error e =>
            rw [hmore] at h
            cases h
          | ok vars' =>
            rw [hmore] at h
            cases h
            rw [htext]
            exact .statement hgaps hassigns hstops (ih hmore)

/-! ## The format and its slips -/

/-- The reader accepts the format with the two slips, and nothing else. A text in which no comma stands
right after an opening bracket, and that does not end in a comment that is to be closed, is accepted in the
format only; what is in strings and in other comments makes no difference. -/
theorem accepted_iff_format (text : String) (vars : List Assignment) :
    (parse text = .ok vars ↔ Format true vars text.toList) ∧
      (parse text = .ok vars → ¬ LoneComma text.toList → ¬ OpenComment text.toList →
        Format false vars text.toList) := by
  have hformat : parse text = .ok vars → Format true vars text.toList := by
    rw [parse_eq]
    exact format_of_statementsAt
  exact ⟨⟨hformat, parse_of_format⟩, fun h => (hformat h).strict⟩

/-- A statement with one space between its tokens. -/
theorem assigns_spaced {keyword : String} (hkeyword : keyword ∈ keywords) {name raw : List Char} (hname : Name name)
    {v : Json} (hvalue : Means true raw v) :
    Assigns true (String.ofList name, v) (keyword.toList ++ ([' '] ++ (name ++ ([' '] ++ '=' :: raw)))) :=
  .mk (by rwa [String.ofList_toList]) (.cons (.space rfl) .nil) (by simp) hname (.cons (.space rfl) .nil) hvalue

/-- The statement `let a = ["[,",];`, and a comment that the end of the text ends. -/
theorem accepted_iff_format_sample :
    parse "let a = [\"[,\",]; // /*" = .ok [("a", .array [.string "[,"])] ∧
      Format false [("a", .array [.string "[,"])] "let a = [\"[,\",]; // /*".toList := by
  have hparse : parse "let a = [\"[,\",]; // /*" = .ok [("a", .array [.string "[,"])] := by
    have hvalue : Means true [' ', '[', '"', '[', ',', '"', ',', ']'] (.array [.string "[,"]) := means_of_parse rfl
    have hassigns := assigns_spaced (show "let" ∈ keywords by decide) ⟨'a', [], rfl, rfl, by simp⟩ hvalue
    have hcomment : LastComment true "// /*".toList := .line (show '\n' ∉ " /*".toList by decide)
    exact parse_of_format (.statement .nil hassigns (stops_semicolon _)
      (.semicolon .nil (.done (.cons (.space rfl) .nil) hcomment)))
  exact ⟨hparse, (accepted_iff_format _ _).2 hparse (by decide) (by decide +kernel)⟩

/-- A comma right after the bracket that opens an array is no part of the format. -/
theorem not_lenient_comma (t : Json.Tree) (rest : List Char) : ¬ Lenient false (.value t) ('[' :: ',' :: rest) := by
  have hspaces : ∀ {s : List Char} {cs : List Char}, Spaces s → s ++ cs = ',' :: rest → cs = ',' :: rest := by
    intro s cs hs heq
    cases s with
    | nil => exact heq
    | cons d s =>
      cases heq
      cases hs ',' List.mem_cons_self
  intro h
  generalize hcs : '[' :: ',' :: rest = cs at h
  cases h with
  | scalar h =>
    obtain ⟨c, r, rfl, -, hlist, -⟩ := h.cons
    exact hlist (List.cons.inj hcs).1.symm
  | emptyArray hz =>
    cases hz with
    | space hs => cases hspaces hs (List.cons.inj hcs).2.symm
    | comma hslip => cases hslip
  | array ha hitems =>
    obtain ⟨c, r, rfl, hc⟩ := hitems.cons
    cases hspaces ha (List.cons.inj hcs).2.symm
    exact hc.ne (by decide) rfl rfl
  | emptyObject | object => cases hcs

theorem gaps_nil_of_slash {gaps rest : List Char} (h : Gaps gaps) (heq : gaps ++ rest = ['/', '*']) : gaps = [] := by
  cases h with
  | nil => rfl
  | cons hgap _ =>
    cases hgap with
    | space hc =>
      obtain ⟨rfl, -⟩ := List.cons.inj heq
      cases hc
    | lineComment | blockComment => simp at heq

/-- A comma with no element before it is no JSON, and a comment that is not closed is in no script; both
are accepted. -/
theorem slips_accepted :
    (parse "var x = [,];" = .ok [("x", .array [])] ∧ ∀ t, ¬ Lenient false (.value t) ['[', ',', ']']) ∧
      parse "/*" = .ok [] ∧ ¬ Format false [] "/*".toList := by
  refine ⟨⟨?_, fun t => not_lenient_comma t _⟩, ?_, ?_⟩
  · have hvalue : Means true [' ', '[', ',', ']'] (.array []) := means_of_parse rfl
    have hassigns := assigns_spaced (show "var" ∈ keywords by decide) ⟨'x', [], rfl, rfl, by simp⟩ hvalue
    exact parse_of_format (.statement .nil hassigns (stops_semicolon _) (.semicolon .nil (.done .nil .none)))
  · rw [parse_eq, statementsAt]
    rfl
  · intro h
    generalize hcs : "/*".toList = cs at h
    have hcs : ['/', '*'] = cs := hcs
    cases h with
    | done hgaps hcomment =>
      cases gaps_nil_of_slash hgaps hcs.symm
      cases hcomment with
      | none | line => cases hcs
      | block hslip => cases hslip
    | semicolon hgaps =>
      cases gaps_nil_of_slash hgaps hcs.symm
      cases hcs

end CoveragePages.Script
