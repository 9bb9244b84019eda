/-
String literals in the text of a value. A text that leads outside strings is made of whole literals and of
characters between them. Leaving out trailing commas keeps every literal as it is, and takes exactly the commas
between them whose next character, white space aside, is a closing bracket.

The automaton of the scanners decides what is in a string; the literals say it without the automaton, and the
two are shown to agree.
-/
import CoveragePages.Proofs.Script.Value

namespace CoveragePages.Script

/-! ## What a text is made of -/

/-- A text made of whole string literals and of other characters, and its literals in order, quotes included. -/
inductive Literals : List Char → List (List Char) → Prop
  | nil : Literals [] []
  | plain {c : Char} {cs : List Char} {literals : List (List Char)} : c ≠ '"' → Literals cs literals →
      Literals (c :: cs) literals
  | literal {body cs : List Char} {literals : List (List Char)} : Hidden body → Literals cs literals →
      Literals ('"' :: (body ++ '"' :: cs)) (('"' :: (body ++ ['"'])) :: literals)

section Literals

variable {cs : List Char} {literals : List (List Char)}

theorem Literals.outside (h : Literals cs literals) : Outside cs := by
  induction h with
  | nil => rfl
  | @plain c cs _ hc _ ih => exact Outside.append (a := [c]) (next_outside hc) ih
  | @literal body cs _ hbody _ ih =>
    have happend := (outside_string hbody).append ih
    rwa [List.cons_append, List.append_assoc] at happend

/-- What is left of a text that leads outside strings, by where its start stands. -/
def Quoting.Finishes : Quoting → List Char → Prop
  | .outside, cs => ∃ literals, Literals cs literals
  | .inside, cs => ∃ body rest literals, Hidden body ∧ Literals rest literals ∧ cs = body ++ '"' :: rest
  | .escaped, cs => ∃ c body rest literals, Hidden body ∧ Literals rest literals ∧ cs = c :: (body ++ '"' :: rest)

/-- Each character moves from one kind of what is left to the next. -/
theorem Quoting.finishes_cons {q : Quoting} {c : Char} (h : (q.next c.toNat).Finishes cs) : q.Finishes (c :: cs) := by
  cases q with
  | outside =>
    by_cases hquote : c = '"'
    · subst hquote
      obtain ⟨body, rest, literals, hbody, hrest, rfl⟩ := h
      exact ⟨_, .literal hbody hrest⟩
    · rw [next_outside hquote] at h
      obtain ⟨literals, hcs⟩ := h
      exact ⟨literals, .plain hquote hcs⟩
  | inside =>
    by_cases hslash : c = '\\'
    · subst hslash
      obtain ⟨d, body, rest, literals, hbody, hrest, rfl⟩ := h
      exact ⟨'\\' :: d :: body, rest, literals, .escape hbody, hrest, rfl⟩
    by_cases hquote : c = '"'
    · subst hquote
      obtain ⟨literals, hcs⟩ := h
      exact ⟨[], cs, literals, .nil, hcs, rfl⟩
    · rw [next_inside hquote hslash] at h
      obtain ⟨body, rest, literals, hbody, hrest, rfl⟩ := h
      exact ⟨c :: body, rest, literals, .plain hquote hslash hbody, hrest, rfl⟩
  | escaped =>
    obtain ⟨body, rest, literals, hbody, hrest, rfl⟩ := h
    exact ⟨c, body, rest, literals, hbody, hrest, rfl⟩

theorem Quoting.finishes_of_after {q : Quoting} (h : q.after cs = .outside) : q.Finishes cs := by
  induction cs generalizing q with
  | nil =>
    obtain rfl : q = .outside := h
    exact ⟨[], .nil⟩
  | cons c cs ih => exact q.finishes_cons (ih h)

/-- The automaton is outside strings after a text exactly if the text leaves no literal open. -/
theorem exists_literals_iff : (∃ literals, Literals cs literals) ↔ Outside cs :=
  ⟨fun ⟨_, h⟩ => h.outside, fun h => Quoting.outside.finishes_of_after h⟩

/-- Each literal of a text stands in it. -/
theorem Literals.isInfix (h : Literals cs literals) {literal : List Char} (hmem : literal ∈ literals) :
    literal <:+: cs := by
  induction h with
  | nil => cases hmem
  | plain _ _ ih => exact (ih hmem).trans (List.suffix_cons _ _).isInfix
  | @literal body cs _ _ _ ih =>
    rcases List.mem_cons.1 hmem with rfl | hmem
    · exact ⟨[], cs, by simp⟩
    · exact (ih hmem).trans ⟨'"' :: (body ++ ['"']), [], by simp⟩

/-- Leaving out trailing commas keeps the literals, all of them and in order. -/
theorem Literals.dropTrailingCommas (h : Literals cs literals) : Literals (dropTrailingCommas cs) literals := by
  unfold Script.dropTrailingCommas
  induction h with
  | nil => exact .nil
  | @plain c cs _ hc _ ih =>
    rw [dropTrailingCommasIn]
    split
    · exact ih
    · rw [next_outside hc]
      exact .plain hc ih
  | @literal body cs _ hbody _ ih =>
    -- the opening quote, the body inside, and the closing quote
    have hstring := (passes_string hbody (n := 0)).commas cs
    simp only [List.cons_append, List.append_assoc, List.nil_append] at hstring
    rw [hstring]
    exact .literal hbody ih

end Literals

/-! ## Trailing commas -/

/-- A comma outside strings whose next character, white space aside, is a closing bracket. -/
structure TrailingComma (cs : List Char) (i : Nat) : Prop where
  comma : cs[i]? = some ','
  outside : ∃ literals, Literals (cs.take i) literals
  closes : ∃ c, (cs.drop (i + 1)).find? (fun d => !Text.isBlank d) = some c ∧ Closes c

theorem closesNext_iff_find? {cs : List Char} :
    closesNext cs = true ↔ ∃ c, cs.find? (fun d => !Text.isBlank d) = some c ∧ Closes c := by
  rw [closesNext_iff]
  constructor
  · rintro ⟨s, c, r, hs, hc, rfl⟩
    refine ⟨c, List.find?_eq_some_iff_append.2 ⟨by rw [hc.not_isBlank]; rfl, s, r, rfl, fun d hd => ?_⟩, hc⟩
    rw [hs d hd]
    rfl
  · rintro ⟨c, hfind, hc⟩
    obtain ⟨-, s, r, rfl, hs⟩ := List.find?_eq_some_iff_append.1 hfind
    exact ⟨s, c, r, fun d hd => by simpa using hs d hd, hc, rfl⟩

theorem trailingComma_iff {cs : List Char} {i : Nat} : TrailingComma cs i ↔
    cs[i]? = some ',' ∧ Quoting.outside.after (cs.take i) = .outside ∧ closesNext (cs.drop (i + 1)) = true := by
  rw [closesNext_iff_find?]
  exact ⟨fun h => ⟨h.comma, exists_literals_iff.1 h.outside, h.closes⟩,
    fun h => ⟨h.1, exists_literals_iff.2 h.2.1, h.2.2⟩⟩

instance (cs : List Char) : DecidablePred (TrailingComma cs) := fun _ => decidable_of_iff _ trailingComma_iff.symm

/-- A character is a trailing comma exactly if the scanner, after what stands before it, leaves it out. -/
theorem trailingComma_append {before rest : List Char} {c : Char} :
    TrailingComma (before ++ c :: rest) before.length ↔
      Quoting.outside.after before = .outside ∧ c = ',' ∧ closesNext rest = true := by
  rw [trailingComma_iff, List.getElem?_append_right (Nat.le_refl _), Nat.sub_self, List.take_left,
    ← List.drop_drop, List.drop_left]
  simp only [List.getElem?_cons_zero, Option.some_inj, List.drop_one, List.tail_cons]
  exact and_left_comm

/-- From any place on, what is kept is what is no trailing comma of the whole text. -/
theorem dropTrailingCommasIn_eq_filter (before rest : List Char) :
    dropTrailingCommasIn (Quoting.outside.after before) rest =
      ((rest.zipIdx before.length).filter fun p => ¬ TrailingComma (before ++ rest) p.2).map Prod.fst := by
  induction rest generalizing before with
  | nil => rfl
  | cons c rest ih =>
    have ih := ih (before ++ [c])
    rw [Quoting.after_snoc, List.append_assoc, List.singleton_append, List.length_append, List.length_singleton] at ih
    rw [dropTrailingCommasIn, List.zipIdx_cons]
    by_cases hdrop : Quoting.outside.after before = .outside ∧ c = ',' ∧ closesNext rest = true
    · have htrailing := trailingComma_append.2 hdrop
      rw [if_pos hdrop, List.filter_cons_of_neg (by simpa using htrailing), ← ih, hdrop.1, hdrop.2.1]
      rfl
    · have hkept := mt trailingComma_append.1 hdrop
      rw [if_neg hdrop, List.filter_cons_of_pos (by simpa using hkept), List.map_cons, ← ih]

/-- What is left without trailing commas is the text with exactly those characters taken out. -/
theorem dropTrailingCommas_eq_filter (cs : List Char) :
    dropTrailingCommas cs = (cs.zipIdx.filter fun p => ¬ TrailingComma cs p.2).map Prod.fst :=
  dropTrailingCommasIn_eq_filter [] cs

end CoveragePages.Script
