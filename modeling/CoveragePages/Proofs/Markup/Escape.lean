/-
Escaped text, character by character: each one stands for itself or is written as its entity. So an
escaped text holds no character that markup is delimited by, and it can be read back, also when it
is followed by markup.
-/
import CoveragePages.Markup.Escape
import Mathlib.Tactic.ByContra
import Mathlib.Tactic.SplitIfs

namespace CoveragePages.Markup

/-- The characters that tags and attribute values are delimited by. -/
def isDelimiter (c : Char) : Bool := c == '<' || c == '>' || c == '"' || c == '\''

/-! ## One pass -/

/-- A character as it is escaped. -/
def escapedChar (c : Char) : List Char :=
  if c = '&' then ['&', 'a', 'm', 'p', ';']
  else if c = '<' then ['&', 'l', 't', ';']
  else if c = '>' then ['&', 'g', 't', ';']
  else if c = '"' then ['&', 'q', 'u', 'o', 't', ';']
  else if c = '\'' then ['&', '#', '3', '9', ';']
  else [c]

theorem escapeChars_eq (cs : List Char) : escapeChars cs = cs.flatMap escapedChar := by
  simp only [escapeChars, Text.replaceChar, List.flatMap_assoc]
  congr 1
  funext c
  by_cases hc : c ∈ ['&', '<', '>', '"', '\'']
  · simp only [List.mem_cons, List.not_mem_nil, or_false] at hc
    rcases hc with rfl | rfl | rfl | rfl | rfl <;> rfl
  · simp only [List.mem_cons, List.not_mem_nil, or_false, not_or] at hc
    obtain ⟨h1, h2, h3, h4, h5⟩ := hc
    simp [escapedChar, h1, h2, h3, h4, h5]

theorem not_isDelimiter_of_mem {cs : List Char} {c : Char} (h : c ∈ escapeChars cs) : isDelimiter c = false := by
  rw [escapeChars_eq, List.mem_flatMap] at h
  obtain ⟨d, -, hc⟩ := h
  unfold escapedChar at hc
  split_ifs at hc with h1 h2 h3 h4 h5
  all_goals simp only [List.mem_cons, List.not_mem_nil, or_false] at hc
  · rcases hc with rfl | rfl | rfl | rfl | rfl <;> rfl
  · rcases hc with rfl | rfl | rfl | rfl <;> rfl
  · rcases hc with rfl | rfl | rfl | rfl <;> rfl
  · rcases hc with rfl | rfl | rfl | rfl | rfl | rfl <;> rfl
  · rcases hc with rfl | rfl | rfl | rfl | rfl <;> rfl
  · subst hc
    simp [isDelimiter, h2, h3, h4, h5]

/-! ## Reading back -/

/-- A text with its entities replaced by what they stand for, in one pass. -/
def decodeChars : List Char → List Char
  | '&' :: 'a' :: 'm' :: 'p' :: ';' :: rest => '&' :: decodeChars rest
  | '&' :: 'l' :: 't' :: ';' :: rest => '<' :: decodeChars rest
  | '&' :: 'g' :: 't' :: ';' :: rest => '>' :: decodeChars rest
  | '&' :: 'q' :: 'u' :: 'o' :: 't' :: ';' :: rest => '"' :: decodeChars rest
  | '&' :: '#' :: '3' :: '9' :: ';' :: rest => '\'' :: decodeChars rest
  | c :: rest => c :: decodeChars rest
  | [] => []

theorem decodeChars_cons {c : Char} (hc : c ≠ '&') (rest : List Char) :
    decodeChars (c :: rest) = c :: decodeChars rest := by
  rw [decodeChars]
  all_goals
    intros
    exact absurd ‹c = '&'› hc

theorem decodeChars_escapedChar (c : Char) (rest : List Char) :
    decodeChars (escapedChar c ++ rest) = c :: decodeChars rest := by
  unfold escapedChar
  split_ifs with h1 h2 h3 h4 h5
  · rw [h1]; rfl
  · rw [h2]; rfl
  · rw [h3]; rfl
  · rw [h4]; rfl
  · rw [h5]; rfl
  · exact decodeChars_cons h1 rest

theorem decodeChars_escapeChars (cs : List Char) : decodeChars (escapeChars cs) = cs := by
  rw [escapeChars_eq]
  induction cs with
  | nil => rfl
  | cons c cs ih => rw [List.flatMap_cons, decodeChars_escapedChar, ih]

theorem escapeChars_inj {a b : List Char} (h : escapeChars a = escapeChars b) : a = b := by
  rw [← decodeChars_escapeChars a, h, decodeChars_escapeChars]

/-! ## Where an ampersand stands -/

/-- The characters that are written as entities. -/
def marked : List Char := ['&', '<', '>', '"', '\'']

/-- An ampersand stands only at the start of an entity, and nothing else of an entity is one. -/
theorem escapedChar_ampersand {c : Char} {before after : List Char} (h : escapedChar c = before ++ '&' :: after) :
    before = [] ∧ c ∈ marked := by
  have hat : '&' ∈ escapedChar c := h ▸ by simp
  have hc : c ∈ marked := by
    by_contra hc
    simp only [marked, List.mem_cons, List.not_mem_nil, or_false, not_or] at hc
    obtain ⟨h1, h2, h3, h4, h5⟩ := hc
    simp only [escapedChar, h1, h2, h3, h4, h5, if_false, List.mem_singleton] at hat
    exact h1 hat.symm
  refine ⟨?_, hc⟩
  cases before with
  | nil => rfl
  | cons d before =>
    have htail : '&' ∈ (escapedChar c).tail := by simp [h]
    simp only [marked, List.mem_cons, List.not_mem_nil, or_false] at hc
    rcases hc with rfl | rfl | rfl | rfl | rfl <;> exact absurd htail (by decide)

/-- Wherever an ampersand stands in an escaped text, one of the entities stands there. -/
theorem entity_at_ampersand {before after : List Char} :
    ∀ cs, escapeChars cs = before ++ '&' :: after → ∃ c ∈ marked, escapedChar c <+: '&' :: after := by
  intro cs
  rw [escapeChars_eq]
  -- the text is split at the first escaped character: the ampersand is in it or in what follows
  induction cs generalizing before with
  | nil => simp
  | cons c cs ih =>
    intro h
    rw [List.flatMap_cons] at h
    obtain ⟨between, hbefore, hrest⟩ | ⟨between, hchar, hafter⟩ := List.append_eq_append_iff.mp h
    · exact ih hrest
    · cases between with
      | nil =>
        rw [List.nil_append] at hafter
        exact ih (hafter.symm.trans (List.nil_append _).symm)
      | cons d between =>
        obtain ⟨rfl, rfl⟩ : '&' = d ∧ after = between ++ cs.flatMap escapedChar := by simpa using hafter
        obtain ⟨rfl, hc⟩ := escapedChar_ampersand hchar
        exact ⟨c, hc, _, by rw [hchar]; rfl⟩

/-! ## Escaping as a whole -/

/-- The five replacements, one after the other, write each character by itself, as it is or as its entity. So texts
escape piece by piece, no delimiter is left, every ampersand starts an entity, and one pass from the left that
replaces the entities gives the text back. -/
theorem escape_exact (s : String) :
    (escape s).toList = s.toList.flatMap escapedChar ∧
      (∀ t, escape (s ++ t) = escape s ++ escape t) ∧
      (∀ c ∈ (escape s).toList, c ∉ ['<', '>', '"', '\'']) ∧
      (∀ before after, (escape s).toList = before ++ '&' :: after →
        ∃ c ∈ ['&', '<', '>', '"', '\''], escapedChar c <+: '&' :: after) ∧
      String.ofList (decodeChars (escape s).toList) = s := by
  refine ⟨?_, fun t => ?_, fun c hc => ?_, fun before after h => ?_, ?_⟩
  · rw [escape, String.toList_ofList, escapeChars_eq]
  · simp only [escape, escapeChars_eq, String.toList_append, List.flatMap_append, String.ofList_append]
  · have hplain : isDelimiter c = false := not_isDelimiter_of_mem (by simpa [escape] using hc)
    simpa [isDelimiter, not_or, and_assoc] using hplain
  · rw [escape, String.toList_ofList] at h
    exact entity_at_ampersand s.toList h
  · rw [escape, String.toList_ofList, decodeChars_escapeChars, String.ofList_toList]

/-- What looks like an entity is text like any other, and every ampersand of the result starts an entity. -/
theorem escape_exact_sample : escape "&lt;<" = "&amp;lt;&lt;" ∧
    (∃ c ∈ ['&', '<', '>', '"', '\''], escapedChar c <+: "&lt;".toList) ∧
      String.ofList (decodeChars "&amp;lt;&lt;".toList) = "&lt;<" := by
  have hescape : escape "&lt;<" = "&amp;lt;&lt;" := by decide
  obtain ⟨-, -, -, hampersand, hdecode⟩ := escape_exact "&lt;<"
  rw [hescape] at hampersand hdecode
  exact ⟨hescape, hampersand "&amp;lt;".toList "lt;".toList (by decide), hdecode⟩

end CoveragePages.Markup
