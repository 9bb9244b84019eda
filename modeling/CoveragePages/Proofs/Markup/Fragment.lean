/-
Documents as fixed markup with data in it. What is delimited in such a text is its markup alone,
whatever the data; and where markup follows every piece of data, the text gives the data back.
-/
import CoveragePages.Proofs.Markup.Escape
import CoveragePages.Proofs.Text.Occurrences
import Mathlib.Data.List.Forall2
import Mathlib.Data.List.TakeWhile

namespace CoveragePages.Markup

/-- A piece of a document. -/
inductive Fragment where
  | fixed (markup : List Char)
  | data (value : List Char)

/-- A piece as it stands in the document. -/
def Fragment.chars : Fragment → List Char
  | fixed markup => markup
  | data value => escapeChars value

/-- The text of some pieces. -/
def spell (fragments : List Fragment) : List Char := fragments.flatMap Fragment.chars

@[simp] theorem spell_nil : spell [] = [] := rfl

@[simp] theorem spell_cons (f : Fragment) (fs : List Fragment) : spell (f :: fs) = f.chars ++ spell fs := rfl

@[simp] theorem spell_append (fs gs : List Fragment) : spell (fs ++ gs) = spell fs ++ spell gs :=
  List.flatMap_append

/-- Pieces with the same markup, and with data in the same places. -/
inductive SameMarkup : List Fragment → List Fragment → Prop
  | nil : SameMarkup [] []
  | fixed (m : List Char) {fs gs : List Fragment} : SameMarkup fs gs → SameMarkup (.fixed m :: fs) (.fixed m :: gs)
  | data (v w : List Char) {fs gs : List Fragment} : SameMarkup fs gs → SameMarkup (.data v :: fs) (.data w :: gs)

/-- The markup of a piece, if it is markup. -/
def Fragment.markup? : Fragment → Option (List Char)
  | fixed m => some m
  | data _ => none

theorem sameMarkup_of_markup {fs gs : List Fragment} (h : fs.map Fragment.markup? = gs.map Fragment.markup?) :
    SameMarkup fs gs := by
  induction fs generalizing gs with
  | nil =>
    cases List.map_eq_nil_iff.1 h.symm
    exact .nil
  | cons f fs ih =>
    obtain ⟨g, gs, rfl⟩ := List.exists_cons_of_ne_nil (fun hnil : gs = [] => by subst hnil; cases h)
    obtain ⟨hfg, hrest⟩ := List.cons.inj h
    cases f <;> cases g <;> cases hfg
    · exact .fixed _ (ih hrest)
    · exact .data _ _ (ih hrest)

theorem SameMarkup.append {fs gs fs' gs' : List Fragment} (h : SameMarkup fs gs) (h' : SameMarkup fs' gs') :
    SameMarkup (fs ++ fs') (gs ++ gs') := by
  induction h with
  | nil => exact h'
  | fixed m _ ih => exact .fixed m ih
  | data v w _ ih => exact .data v w ih

/-- The pieces of some lines, with a line break between each two of them. -/
def lines : List (List Fragment) → List Fragment
  | [] => []
  | [l] => l
  | l :: rest => l ++ .fixed ['\n'] :: lines rest

theorem toList_join {ss : List String} {ls : List (List Fragment)}
    (h : List.Forall₂ (fun s l => s.toList = spell l) ss ls) :
    (Text.join "\n" ss).toList = spell (lines ls) := by
  induction h with
  | nil => rfl
  | @cons s l ss ls hs hss ih =>
    cases hss with
    | nil => exact hs
    | cons _ _ =>
      simp only [Text.join, String.toList_append, hs, ih, lines, spell_append, spell_cons, List.append_assoc]
      rfl

/-! ## Delimiters -/

/-- The delimiters of a text, in order. -/
def delimiters (cs : List Char) : List Char := cs.filter isDelimiter

theorem delimiters_append (a b : List Char) : delimiters (a ++ b) = delimiters a ++ delimiters b :=
  List.filter_append ..

theorem delimiters_escapeChars (cs : List Char) : delimiters (escapeChars cs) = [] := by
  refine List.filter_eq_nil_iff.2 fun c hc => ?_
  rw [not_isDelimiter_of_mem hc]
  decide

theorem SameMarkup.delimiters_eq {fs gs : List Fragment} (h : SameMarkup fs gs) :
    delimiters (spell fs) = delimiters (spell gs) := by
  induction h with
  | nil => rfl
  | fixed m _ ih => rw [spell_cons, spell_cons, delimiters_append, delimiters_append, ih]
  | data v w _ ih =>
    rw [spell_cons, spell_cons, delimiters_append, delimiters_append, ih, Fragment.chars, Fragment.chars,
      delimiters_escapeChars, delimiters_escapeChars]

/-! ## Reading the data back -/

/-- The data of some pieces, in order. -/
def values (fs : List Fragment) : List (List Char) :=
  fs.filterMap fun
    | .data v => some v
    | .fixed _ => none

/-- Whether markup follows every piece of data, and has a delimiter in it. -/
def isDelimited : List Fragment → Bool
  | .data _ :: .fixed m :: rest => m.any isDelimiter && isDelimited rest
  | .data _ :: _ => false
  | .fixed _ :: rest => isDelimited rest
  | [] => true

theorem SameMarkup.isDelimited_eq {fs gs : List Fragment} (h : SameMarkup fs gs) : isDelimited fs = isDelimited gs := by
  induction h with
  | nil => rfl
  | fixed m _ ih => exact ih
  | data v w h ih =>
    cases h with
    | nil | data => rfl
    | fixed m h =>
      simp only [isDelimited] at ih ⊢
      rw [ih]

/-- Up to the first delimiter of the markup that follows it, escaped data has none. -/
theorem takeWhile_escapeChars {m : List Char} (hm : m.any isDelimiter = true) (v rest : List Char) :
    (escapeChars v ++ (m ++ rest)).takeWhile (!isDelimiter ·) = escapeChars v ++ m.takeWhile (!isDelimiter ·) := by
  have hv : ∀ c ∈ escapeChars v, (!isDelimiter c) = true := by
    intro c hc
    rw [not_isDelimiter_of_mem hc]
    rfl
  rw [List.takeWhile_append_of_pos hv, List.takeWhile_append, if_neg]
  intro hlen
  obtain ⟨d, hd, hdelimiter⟩ := List.any_eq_true.1 hm
  have hall := (List.takeWhile_prefix (!isDelimiter ·)).eq_of_length hlen
  rw [List.takeWhile_eq_self_iff] at hall
  have hd' := hall d hd
  rw [hdelimiter] at hd'
  cases hd'

theorem escapeChars_cancel {v w m x y : List Char} (hm : m.any isDelimiter = true)
    (h : escapeChars v ++ (m ++ x) = escapeChars w ++ (m ++ y)) : v = w := by
  have htake := congrArg (List.takeWhile (!isDelimiter ·)) h
  rw [takeWhile_escapeChars hm, takeWhile_escapeChars hm] at htake
  exact escapeChars_inj (List.append_cancel_right htake)

/-- Texts with the same markup that start alike have the same data. -/
theorem SameMarkup.cancel {fs gs : List Fragment} (h : SameMarkup fs gs) (hfs : isDelimited fs = true) {x y : List Char}
    (heq : spell fs ++ x = spell gs ++ y) : fs = gs ∧ x = y := by
  induction h with
  | nil => exact ⟨rfl, heq⟩
  | fixed m _ ih =>
    rw [spell_cons, spell_cons, List.append_assoc, List.append_assoc] at heq
    obtain ⟨rfl, hxy⟩ := ih hfs (List.append_cancel_left heq)
    exact ⟨rfl, hxy⟩
  | data v w h ih =>
    cases h with
    | nil => cases hfs
    | data => cases hfs
    | fixed m h =>
      obtain ⟨hm, hrest⟩ := Bool.and_eq_true_iff.1 hfs
      simp only [spell_cons, Fragment.chars, List.append_assoc] at heq ih
      obtain rfl := escapeChars_cancel hm heq
      obtain ⟨hfs, hxy⟩ := ih hrest (List.append_cancel_left heq)
      exact ⟨by rw [hfs], hxy⟩

/-! ## Counting in the markup -/

open Text (occurrences isApart occurrences_append apart_of_not_mem)

/-- How often a pattern stands in the markup of some pieces. -/
def countIn (pattern : List Char) : List Fragment → Nat
  | .fixed m :: rest => occurrences pattern m + countIn pattern rest
  | .data _ :: rest => countIn pattern rest
  | [] => 0

/-- Whether no markup of some pieces ends with a start of a pattern. -/
def isApartIn (pattern : List Char) : List Fragment → Bool
  | .fixed m :: rest => isApart pattern m && isApartIn pattern rest
  | .data _ :: rest => isApartIn pattern rest
  | [] => true

variable {pattern : List Char}

theorem countIn_append (fs gs : List Fragment) :
    countIn pattern (fs ++ gs) = countIn pattern fs + countIn pattern gs := by
  induction fs with
  | nil => simp [countIn]
  | cons f fs ih => cases f <;> simp [countIn, ih, Nat.add_assoc]

theorem isApartIn_append (fs gs : List Fragment) :
    isApartIn pattern (fs ++ gs) = (isApartIn pattern fs && isApartIn pattern gs) := by
  induction fs with
  | nil => rfl
  | cons f fs ih => cases f <;> simp [isApartIn, ih, Bool.and_assoc]

theorem SameMarkup.countIn_eq {fs gs : List Fragment} (h : SameMarkup fs gs) (pattern : List Char) :
    countIn pattern fs = countIn pattern gs ∧ isApartIn pattern fs = isApartIn pattern gs := by
  induction h with
  | nil => exact ⟨rfl, rfl⟩
  | fixed m _ ih => simp [countIn, isApartIn, ih]
  | data v w _ ih => exact ih

/-- A pattern that starts with a delimiter does not stand in data, nor across the end of it. -/
theorem occurrences_spell {d : Char} {ds : List Char} (hd : isDelimiter d = true) {fs : List Fragment}
    (h : isApartIn (d :: ds) fs = true) (rest : List Char) :
    occurrences (d :: ds) (spell fs ++ rest) = countIn (d :: ds) fs + occurrences (d :: ds) rest := by
  induction fs with
  | nil => simp [countIn]
  | cons f fs ih =>
    rw [spell_cons, List.append_assoc]
    cases f with
    | fixed m =>
      obtain ⟨hm, hrest⟩ := Bool.and_eq_true_iff.1 h
      rw [Fragment.chars, occurrences_append hm, ih hrest, countIn, Nat.add_assoc]
    | data v =>
      have hv : d ∉ escapeChars v := by
        intro hmem
        rw [not_isDelimiter_of_mem hmem] at hd
        cases hd
      obtain ⟨hapart, hzero⟩ := apart_of_not_mem ds hv
      rw [Fragment.chars, occurrences_append hapart, hzero, ih h, countIn, Nat.zero_add]

end CoveragePages.Markup
