/-
Where a script element ends. The text of the element takes an HTML tokenizer through its script data
states: `<!--` starts escaped text, and in there `<script` starts doubly escaped text, in which an end
tag of the element only leads back to escaped text. Of a text that opens no end tag, the comments and
the scripts that it opens tell in which state the tokenizer is left.
-/
import Mathlib.Data.List.Infix

namespace CoveragePages.ScriptData

/-! ## The tokenizer -/

/-- The states inside a script element. The part of a name that was read is in small letters. -/
inductive State where
  | data
  | lessThan
  | endTagOpen
  | endTagName (name : List Char)
  | escapeStart
  | escapeStartDash
  | escaped
  | escapedDash
  | escapedDashDash
  | escapedLessThan
  | escapedEndTagOpen
  | escapedEndTagName (name : List Char)
  | doubleEscapeStart (name : List Char)
  | doubleEscaped
  | doubleEscapedDash
  | doubleEscapedDashDash
  | doubleEscapedLessThan
  | doubleEscapeEnd (name : List Char)
  /-- After the name of the end tag that ends the element. -/
  | ended
  deriving DecidableEq

open State

/-- The name of the element. -/
def scriptName : List Char := ['s', 'c', 'r', 'i', 'p', 't']

/-- Whether a character ends the name of a tag. A carriage return stands for a line feed. -/
def endsName (c : Char) : Bool := c ∈ ['\t', '\n', '\x0c', '\r', ' ', '/', '>']

/-- A step from script data. -/
def fromData (c : Char) : State := if c = '<' then lessThan else data

/-- A step from escaped text. -/
def fromEscaped (c : Char) : State :=
  if c = '-' then escapedDash else if c = '<' then escapedLessThan else escaped

/-- A step from doubly escaped text. -/
def fromDoubleEscaped (c : Char) : State :=
  if c = '-' then doubleEscapedDash else if c = '<' then doubleEscapedLessThan else doubleEscaped

/-- A step inside a name, which either goes on, or ends and is the name of the element, or else is read as text. -/
def inName (name : List Char) (more : List Char → State) (done : State) (text : Char → State) (c : Char) : State :=
  if c.isAlpha then more (name ++ [c.toLower])
  else if endsName c ∧ name = scriptName then done
  else text c

/-- A step of the tokenizer. -/
def step : State → Char → State
  | data, c => fromData c
  | lessThan, c => if c = '/' then endTagOpen else if c = '!' then escapeStart else fromData c
  | endTagOpen, c => if c.isAlpha then endTagName [c.toLower] else fromData c
  | endTagName name, c => inName name endTagName ended fromData c
  | escapeStart, c => if c = '-' then escapeStartDash else fromData c
  | escapeStartDash, c => if c = '-' then escapedDashDash else fromData c
  | escaped, c => fromEscaped c
  | escapedDash, c => if c = '-' then escapedDashDash else fromEscaped c
  | escapedDashDash, c => if c = '-' then escapedDashDash else if c = '>' then data else fromEscaped c
  | escapedLessThan, c =>
    if c = '/' then escapedEndTagOpen else if c.isAlpha then doubleEscapeStart [c.toLower] else fromEscaped c
  | escapedEndTagOpen, c => if c.isAlpha then escapedEndTagName [c.toLower] else fromEscaped c
  | escapedEndTagName name, c => inName name escapedEndTagName ended fromEscaped c
  | doubleEscapeStart name, c => inName name doubleEscapeStart doubleEscaped fromEscaped c
  | doubleEscaped, c => fromDoubleEscaped c
  | doubleEscapedDash, c => if c = '-' then doubleEscapedDashDash else fromDoubleEscaped c
  | doubleEscapedDashDash, c => if c = '-' then doubleEscapedDashDash else if c = '>' then data else fromDoubleEscaped c
  | doubleEscapedLessThan, c => if c = '/' then doubleEscapeEnd [] else fromDoubleEscaped c
  | doubleEscapeEnd name, c => inName name doubleEscapeEnd escaped fromDoubleEscaped c
  | ended, _ => ended

/-- The state after a text. -/
def run (s : State) (cs : List Char) : State := cs.foldl step s

/-- Splits what follows a start tag where the element ends: right after the name of its end tag and the character
that ends the name. -/
def closing? : State → List Char → Option (List Char × List Char)
  | _, [] => none
  | s, c :: cs =>
    if step s c = ended then some ([c], cs)
    else (closing? (step s c) cs).map fun (element, rest) => (c :: element, rest)

/-! ## Running -/

theorem run_append (s : State) (a b : List Char) : run s (a ++ b) = run (run s a) b := List.foldl_append

theorem run_ended (cs : List Char) : run ended cs = ended := by
  induction cs with
  | nil => rfl
  | cons c cs ih => exact ih

/-- Text that does not end the element is passed over. -/
theorem closing?_append {s : State} {a : List Char} (h : run s a ≠ ended) (b : List Char) :
    closing? s (a ++ b) = (closing? (run s a) b).map fun (element, rest) => (a ++ element, rest) := by
  induction a generalizing s with
  | nil => simp [run]
  | cons c a ih =>
    have hc : step s c ≠ ended := by
      intro hc
      refine h ?_
      rw [run, List.foldl_cons, hc]
      exact run_ended a
    rw [List.cons_append, closing?, if_neg hc, ih (s := step s c) h, Option.map_map]
    rfl

theorem run_data {cs : List Char} (h : '<' ∉ cs) : run data cs = data := by
  induction cs with
  | nil => rfl
  | cons c cs ih =>
    obtain ⟨hc, hcs⟩ := not_or.1 (mt List.mem_cons.2 h)
    rw [run, List.foldl_cons, step, fromData, if_neg (Ne.symm hc)]
    exact ih hcs

/-! ## Texts that open no end tag -/

/-- How deep a text is escaped. -/
inductive Level where
  | plain
  | commented
  | nested
  deriving DecidableEq

namespace Level

/-- The name of the tag that is open at the end of a text, in small letters. The text is given from its end. -/
def tagName? : List Char → Option (List Char)
  | [] => none
  | c :: past =>
    if c = '<' then some []
    else if c.isAlpha then (tagName? past).map (· ++ [c.toLower])
    else none

/-- Whether a text ends with the start of a script tag, up to the character that ends the name. -/
def opensScript : List Char → Bool
  | [] => false
  | c :: past => endsName c ∧ tagName? past = some scriptName

/-- The level after one more character of a text, which is given from its end. -/
def next (past : List Char) : Level → Level
  | plain => if ['-', '-', '!', '<'] <+: past then commented else plain
  | commented => if ['>', '-', '-'] <+: past then plain else if opensScript past then nested else commented
  | nested => if ['>', '-', '-'] <+: past then plain else nested

/-- The level at the end of a text. -/
def after : List Char → Level
  | [] => plain
  | c :: past => (after past).next (c :: past)

/-- The state that the tokenizer is in at a level, by the last characters. -/
def state (past : List Char) : Level → State
  | plain =>
    if ['<'] <+: past then lessThan
    else if ['!', '<'] <+: past then escapeStart
    else if ['-', '!', '<'] <+: past then escapeStartDash
    else data
  | commented =>
    if ['-', '-'] <+: past then escapedDashDash
    else if ['-'] <+: past then escapedDash
    else match tagName? past with
      | some [] => escapedLessThan
      | some name => doubleEscapeStart name
      | none => escaped
  | nested =>
    if ['-', '-'] <+: past then doubleEscapedDashDash
    else if ['-'] <+: past then doubleEscapedDash
    else if ['<'] <+: past then doubleEscapedLessThan
    else doubleEscaped

/-- The state at a level after other text than its own marks. -/
def text : Level → State
  | plain => data
  | commented => escaped
  | nested => doubleEscaped

/-! ## Steps at a level -/

section

variable {past : List Char} {c : Char}

theorem not_dashes (h : ¬ ['-'] <+: past) : ¬ ['-', '-'] <+: past :=
  fun hdashes => h ((List.prefix_append ['-'] ['-']).trans hdashes)

theorem state_plain : state (c :: past) plain =
    if c = '!' ∧ ['<'] <+: past then escapeStart
    else if c = '-' ∧ ['!', '<'] <+: past then escapeStartDash
    else fromData c := by
  simp only [state, fromData, List.cons_prefix_cons, List.nil_prefix, and_true, eq_comm]
  split_ifs <;> simp_all

theorem next_plain (h : ¬ (c = '-' ∧ ['-', '!', '<'] <+: past)) : next (c :: past) plain = plain := by
  simp only [next, List.cons_prefix_cons, eq_comm, if_neg h]

theorem step_plain (h : ¬ (c = '/' ∧ ['<'] <+: past)) :
    step (state past plain) c = state (c :: past) (next (c :: past) plain) := by
  by_cases hless : ['<'] <+: past
  · obtain ⟨past, rfl⟩ := hless
    have hslash : c ≠ '/' := fun heq => h ⟨heq, List.prefix_append _ _⟩
    rw [next_plain (by simp), state_plain]
    simp [state, step, hslash]
  by_cases hstart : ['!', '<'] <+: past
  · obtain ⟨past, rfl⟩ := hstart
    rw [next_plain (by simp), state_plain]
    simp [state, step]
  by_cases hdash : ['-', '!', '<'] <+: past
  · obtain ⟨past, rfl⟩ := hdash
    by_cases hc : c = '-'
    · simp [hc, state, next, step]
    · rw [next_plain (fun h => hc h.1), state_plain]
      simp [state, step, hc]
  · rw [next_plain (fun h => hdash h.2), state_plain, if_neg (fun h => hless h.2), if_neg (fun h => hstart h.2)]
    simp only [state, if_neg hless, if_neg hstart, if_neg hdash, step]

theorem state_nested : state (c :: past) nested =
    if c = '-' ∧ ['-'] <+: past then doubleEscapedDashDash else fromDoubleEscaped c := by
  simp only [state, fromDoubleEscaped, List.cons_prefix_cons, List.nil_prefix, and_true, eq_comm]

theorem next_nested (h : ¬ (c = '>' ∧ ['-', '-'] <+: past)) : next (c :: past) nested = nested := by
  simp only [next, List.cons_prefix_cons, eq_comm, if_neg h]

theorem step_nested (h : ¬ (c = '/' ∧ ['<'] <+: past)) :
    step (state past nested) c = state (c :: past) (next (c :: past) nested) := by
  by_cases hdash : ['-'] <+: past
  · obtain ⟨past, rfl⟩ := hdash
    by_cases hclose : c = '>' ∧ ['-'] <+: past
    · obtain ⟨rfl, hprefix⟩ := hclose
      simp [state, next, step, hprefix]
    · rw [List.singleton_append, next_nested (by simpa using hclose), state_nested, state_nested]
      by_cases hprefix : ['-'] <+: past
      · have hc : c ≠ '>' := fun heq => hclose ⟨heq, hprefix⟩
        simp [step, hprefix, hc]
      · simp [step, hprefix, fromDoubleEscaped]
  · have hdashes := not_dashes hdash
    rw [next_nested (fun h => hdashes h.2), state_nested, if_neg (fun h => hdash h.2)]
    simp only [state, if_neg hdashes, if_neg hdash]
    split
    · rename_i hless
      rw [step, if_neg fun heq => h ⟨heq, hless⟩]
    · rfl

/-! ### In a comment -/

theorem not_isAlpha_of_endsName (h : endsName c = true) : c.isAlpha = false := by
  unfold endsName at h
  revert c
  simp

theorem not_dash_of_name {name : List Char} (h : tagName? past = some name) : ¬ ['-'] <+: past := by
  rintro ⟨past, rfl⟩
  simp [tagName?] at h

theorem prefix_of_tagName?_eq_nil (h : tagName? past = some []) : ['<'] <+: past := by
  cases past with
  | nil => cases h
  | cons a past =>
    rw [tagName?] at h
    split at h
    · simp_all
    · split at h
      · obtain ⟨name, -, hname⟩ := Option.map_eq_some_iff.1 h
        simp at hname
      · cases h

/-- Where no name goes on, a character counts for itself, or together with a dash before it. -/
theorem state_commented (h : c.isAlpha = false ∨ tagName? past = none) : state (c :: past) commented =
    if c = '-' ∧ ['-'] <+: past then escapedDashDash else fromEscaped c := by
  have hname : tagName? (c :: past) = if c = '<' then some [] else none := by
    rcases h with h | h <;> simp [tagName?, h]
  simp only [state, hname, fromEscaped, List.cons_prefix_cons, List.nil_prefix, and_true, eq_comm]
  split_ifs <;> rfl

theorem state_name (hc : c.isAlpha = true) {name : List Char} (h : tagName? past = some name) :
    state (c :: past) commented = doubleEscapeStart (name ++ [c.toLower]) := by
  have hdash : '-' ≠ c := by rintro rfl; cases hc
  have hless : c ≠ '<' := by rintro rfl; cases hc
  have hname : tagName? (c :: past) = some (name ++ [c.toLower]) := by simp [tagName?, hless, hc, h]
  simp only [state, List.cons_prefix_cons, hdash, hname, false_and, if_false]
  cases name <;> rfl

theorem state_nested_of_endsName (hc : endsName c = true) : state (c :: past) nested = doubleEscaped := by
  have hdash : c ≠ '-' := by rintro rfl; cases hc
  have hless : c ≠ '<' := by rintro rfl; cases hc
  rw [state_nested, if_neg (fun h => hdash h.1), fromDoubleEscaped, if_neg hdash, if_neg hless]

theorem next_commented (hclose : ¬ (c = '>' ∧ ['-', '-'] <+: past))
    (hname : ¬ (endsName c = true ∧ tagName? past = some scriptName)) : next (c :: past) commented = commented := by
  have hclose' : ¬ ['>', '-', '-'] <+: c :: past := by rwa [List.cons_prefix_cons, eq_comm]
  simp only [next, opensScript, if_neg hclose', decide_eq_true_eq, if_neg hname]

/-- A step inside the name of a tag, or right after its `<`. -/
theorem step_name {name : List Char} (hname : tagName? past = some name) (h : ¬ (c = '/' ∧ ['<'] <+: past)) :
    step (state past commented) c = inName name doubleEscapeStart doubleEscaped fromEscaped c := by
  have hdash := not_dash_of_name hname
  simp only [state, if_neg hdash, if_neg (not_dashes hdash), hname]
  cases name with
  | nil =>
    have hslash : c ≠ '/' := fun heq => h ⟨heq, prefix_of_tagName?_eq_nil hname⟩
    have hscript : [] ≠ scriptName := by decide
    simp only [step, inName, if_neg hslash, hscript, and_false, if_false, List.nil_append]
  | cons a name => rfl

theorem step_commented (h : ¬ (c = '/' ∧ ['<'] <+: past)) :
    step (state past commented) c = state (c :: past) (next (c :: past) commented) := by
  by_cases hdash : ['-'] <+: past
  · obtain ⟨past, rfl⟩ := hdash
    have hname : tagName? ('-' :: past) = none := by simp [tagName?]
    by_cases hclose : c = '>' ∧ ['-'] <+: past
    · obtain ⟨rfl, hprefix⟩ := hclose
      simp [state, next, step, hprefix]
    · rw [List.singleton_append, next_commented (by simpa using hclose) (by simp [hname]), state_commented (.inr hname),
        state_commented (.inl rfl)]
      by_cases hprefix : ['-'] <+: past
      · have hc : c ≠ '>' := fun heq => hclose ⟨heq, hprefix⟩
        simp [step, hprefix, hc]
      · simp [step, hprefix, fromEscaped]
  have hdashes := not_dashes hdash
  cases hname : tagName? past with
  | none =>
    rw [next_commented (fun h => hdashes h.2) (by simp [hname]), state_commented (.inr hname),
      if_neg (fun h => hdash h.2)]
    simp only [state, if_neg hdashes, if_neg hdash, hname, step]
  | some name =>
    rw [step_name hname h, inName]
    by_cases hc : c.isAlpha = true
    · -- the name goes on
      have hends : ¬ endsName c = true := fun hends => by simp [not_isAlpha_of_endsName hends] at hc
      rw [if_pos hc, next_commented (fun h => hdashes h.2) (fun h => hends h.1), state_name hc hname]
    rw [if_neg hc]
    by_cases hdone : endsName c = true ∧ name = scriptName
    · -- the name ends, and a script is nested
      have hnext : next (c :: past) commented = nested := by simp [next, opensScript, hdone, hname, hdashes]
      rw [if_pos hdone, hnext, state_nested_of_endsName hdone.1]
    · rw [if_neg hdone, next_commented (fun h => hdashes h.2) (by simpa [hname] using hdone),
        state_commented (.inl (by simpa using hc)), if_neg (fun h => hdash h.2)]

/-! ### At any level -/

theorem step_state (level : Level) (h : ¬ (c = '/' ∧ ['<'] <+: past)) :
    step (level.state past) c = (level.next (c :: past)).state (c :: past) := by
  cases level with
  | plain => exact step_plain h
  | commented => exact step_commented h
  | nested => exact step_nested h

theorem state_eq_text (level : Level) (hc : c ∉ ['<', '!', '-']) (halpha : c.isAlpha = false) :
    level.state (c :: past) = level.text := by
  simp only [List.mem_cons, List.not_mem_nil, or_false, not_or] at hc
  obtain ⟨hless, hmark, hdash⟩ := hc
  cases level with
  | plain => simp [state_plain, fromData, text, hless, hmark, hdash]
  | commented => simp [state_commented (.inl halpha), fromEscaped, text, hless, hdash]
  | nested => simp [state_nested, fromDoubleEscaped, text, hless, hdash]

end

end Level

/-- A text that opens no end tag leaves the tokenizer where its level says. -/
theorem run_state {cs : List Char} (h : ¬ ['<', '/'] <:+: cs) :
    run data cs = (Level.after cs.reverse).state cs.reverse := by
  induction cs using List.reverseRecOn with
  | nil => rfl
  | append_singleton cs c ih =>
    have hlast : ¬ (c = '/' ∧ ['<'] <+: cs.reverse) := by
      rintro ⟨rfl, hprefix⟩
      rw [← List.reverse_suffix, List.reverse_reverse] at hprefix
      obtain ⟨before, rfl⟩ := hprefix
      exact h ⟨before, [], by simp⟩
    rw [run_append, ih fun hcloser => h (hcloser.trans (List.prefix_append cs [c]).isInfix), List.reverse_append,
      List.reverse_singleton, List.singleton_append, Level.after]
    exact Level.step_state _ hlast

end CoveragePages.ScriptData
