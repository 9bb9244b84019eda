/-
Values of data scripts: JSON text in which some arrays and objects have a comma and space added
before the closing bracket. On every such text the scanner for the end of a value stops where the
text stops, and dropping the trailing commas leaves a JSON text with the same outline.

Both follow from one induction over the grammar: outside strings, what spells a part is passed over
by the scanner of ends, and comes out of the dropping of commas as a text that spells the part.
-/
import CoveragePages.Proofs.Json.Grammar
import CoveragePages.Proofs.Script.Scan
import CoveragePages.Proofs.Text.Blank
import Mathlib.Data.List.TakeWhile

namespace CoveragePages.Script

open Json (Spaces Opens Quoted Scalar Spelled SpelledText)

/-! ## Texts with commas added -/

/-- The state with respect to string literals after a text. -/
def Quoting.after (q : Quoting) (cs : List Char) : Quoting := cs.foldl (fun q c => q.next c.toNat) q

theorem Quoting.after_append (q : Quoting) (a b : List Char) : q.after (a ++ b) = (q.after a).after b :=
  List.foldl_append

theorem Quoting.after_snoc (q : Quoting) (cs : List Char) (c : Char) :
  q.after (cs ++ [c]) = (q.after cs).next c.toNat := q.after_append cs [c]

/-- Whether a text ends with an opening bracket and space. -/
def justOpened (cs : List Char) : Bool :=
  match Json.skipSpace cs.reverse with
  | '[' :: _ | '\x7b' :: _ => true
  | _ => false

theorem justOpened_append {o : Char} (ho : o = '[' ∨ o = '\x7b') {s : List Char} (hs : Spaces s) (before : List Char) :
    justOpened (before ++ [o] ++ s) = true := by
  have hs' : Spaces s.reverse := fun c hc => hs c (List.mem_reverse.1 hc)
  have hreverse : (before ++ [o] ++ s).reverse = s.reverse ++ o :: before.reverse := by
    rw [List.reverse_append, List.reverse_append]
    rfl
  rw [justOpened, hreverse, Json.skipSpace_append hs']
  rcases ho with rfl | rfl <;> rfl

/-- A text that follows another one; the same text with a comma and space added before some closing
brackets that stand outside strings and do not close an empty array or object; and the same text
with the added space alone. -/
inductive CommasAdded : List Char → List Char → List Char → List Char → Prop
  | done {before : List Char} : CommasAdded before [] [] []
  | keep {before cs written spaced : List Char} {c : Char} : CommasAdded (before ++ [c]) cs written spaced →
      CommasAdded before (c :: cs) (c :: written) (c :: spaced)
  | comma {before s z cs written spaced : List Char} {c : Char} : Quoting.outside.after before = .outside →
      c = ']' ∨ c = '\x7d' → justOpened before = false → Spaces s → Spaces z →
      CommasAdded (before ++ [c]) cs written spaced →
      CommasAdded before (c :: cs) (s ++ ',' :: (z ++ c :: written)) (s ++ (z ++ c :: spaced))

theorem CommasAdded.refl (before cs : List Char) : CommasAdded before cs cs cs := by
  induction cs generalizing before with
  | nil => exact .done
  | cons c cs ih => exact .keep (ih _)

theorem CommasAdded.split {before a b w t : List Char} (h : CommasAdded before (a ++ b) w t) :
    ∃ wa wb ta tb, w = wa ++ wb ∧ t = ta ++ tb ∧ CommasAdded before a wa ta ∧ CommasAdded (before ++ a) b wb tb := by
  induction a generalizing before w t with
  | nil => exact ⟨[], w, [], t, rfl, rfl, .done, by rwa [List.append_nil]⟩
  | cons c a ih =>
    cases h with
    | keep h =>
      obtain ⟨wa, wb, ta, tb, rfl, rfl, ha, hb⟩ := ih h
      exact ⟨c :: wa, wb, c :: ta, tb, rfl, rfl, .keep ha, by rwa [List.append_assoc] at hb⟩
    | comma h1 h2 h3 h4 h5 h =>
      obtain ⟨wa, wb, ta, tb, rfl, rfl, ha, hb⟩ := ih h
      refine ⟨_, wb, _, tb, ?_, ?_, .comma h1 h2 h3 h4 h5 ha, by rwa [List.append_assoc] at hb⟩
      · simp only [List.append_assoc, List.cons_append]
      · simp only [List.append_assoc, List.cons_append]

/-- Nothing is added before a character that is no closing bracket. -/
theorem CommasAdded.head {before cs w t : List Char} {c : Char} (h : CommasAdded before (c :: cs) w t)
    (hc : c ≠ ']' ∧ c ≠ '\x7d') :
    ∃ w' t', w = c :: w' ∧ t = c :: t' ∧ CommasAdded (before ++ [c]) cs w' t' := by
  cases h with
  | keep h => exact ⟨_, _, rfl, rfl, h⟩
  | comma _ h2 => exact (h2.elim hc.1 hc.2).elim

/-- Nothing is added inside strings. -/
theorem CommasAdded.head_inside {before cs w t : List Char} {c : Char} (h : CommasAdded before (c :: cs) w t)
    (hbefore : Quoting.outside.after before ≠ .outside) :
    ∃ w' t', w = c :: w' ∧ t = c :: t' ∧ CommasAdded (before ++ [c]) cs w' t' := by
  cases h with
  | keep h => exact ⟨_, _, rfl, rfl, h⟩
  | comma h1 => exact absurd h1 hbefore

theorem CommasAdded.eq_self {before cs w t : List Char} (h : CommasAdded before cs w t)
    (hcs : ∀ c ∈ cs, c ≠ ']' ∧ c ≠ '\x7d') : w = cs ∧ t = cs := by
  induction cs generalizing before w t with
  | nil => cases h; exact ⟨rfl, rfl⟩
  | cons c cs ih =>
    obtain ⟨w', t', rfl, rfl, h'⟩ := h.head (hcs c List.mem_cons_self)
    obtain ⟨rfl, rfl⟩ := ih h' fun d hd => hcs d (List.mem_cons_of_mem c hd)
    exact ⟨rfl, rfl⟩

theorem not_closer_of_isSpace {c : Char} (h : Json.isSpace c = true) : c ≠ ']' ∧ c ≠ '\x7d' := by
  constructor <;> (rintro rfl; cases h)

theorem CommasAdded.spaces {before s w t : List Char} (h : CommasAdded before s w t) (hs : Spaces s) : w = s ∧ t = s :=
  h.eq_self fun c hc => not_closer_of_isSpace (hs c hc)

/-! ## The insides of strings -/

/-- A text that stays inside a string: a backslash hides the character behind it, and there is no
quote that is not hidden. -/
inductive Hidden : List Char → Prop
  | nil : Hidden []
  | plain {c : Char} {cs : List Char} : c ≠ '"' → c ≠ '\\' → Hidden cs → Hidden (c :: cs)
  | escape {c : Char} {cs : List Char} : Hidden cs → Hidden ('\\' :: c :: cs)

theorem hexUnit_ne {a b c d : Char} {n : Nat} (h : Json.hexUnit? a b c d = some n) :
    ∀ x ∈ [a, b, c, d], x ≠ '"' ∧ x ≠ '\\' := by
  intro x hx
  have hx' := Json.isSome_hexValue h x hx
  constructor <;> (rintro rfl; cases hx')

theorem hidden_of_quoted {body : List Char} {ps : List Json.Piece} (h : Quoted body ps) : Hidden body := by
  induction h with
  | nil => exact .nil
  | plain _ hquote hslash _ ih => exact .plain hquote hslash ih
  | letter _ _ ih => exact .escape ih
  | @unit a b c d _ _ _ hcode _ ih =>
    -- the backslash hides the `u`; the four digits are plain
    have h := hexUnit_ne hcode
    simp only [List.forall_mem_cons] at h
    obtain ⟨ha, hb, hc, hd, -⟩ := h
    exact .escape (.plain ha.1 ha.2 (.plain hb.1 hb.2 (.plain hc.1 hc.2 (.plain hd.1 hd.2 ih))))

theorem next_inside {c : Char} (hquote : c ≠ '"') (hslash : c ≠ '\\') : Quoting.inside.next c.toNat = .inside :=
  (if_neg fun h => hslash (Char.toNat_inj.1 h)).trans (if_neg fun h => hquote (Char.toNat_inj.1 h))

theorem Hidden.after {body : List Char} (h : Hidden body) : Quoting.inside.after body = .inside := by
  induction h with
  | nil => rfl
  | plain hquote hslash _ ih => rwa [Quoting.after, List.foldl_cons, next_inside hquote hslash]
  | escape _ ih => exact ih

theorem Hidden.pastValueIn {body : List Char} (h : Hidden body) (depth : Nat) (rest : List Char) :
    pastValueIn .inside depth (body ++ rest) = pastValueIn .inside depth rest := by
  induction h with
  | nil => rfl
  | plain hquote hslash _ ih =>
    rw [List.cons_append, Script.pastValueIn, next_inside hquote hslash, ih]
    intro h; cases h
  | escape _ ih => exact ih

theorem Hidden.dropTrailingCommasIn {body : List Char} (h : Hidden body) (rest : List Char) :
    dropTrailingCommasIn .inside (body ++ rest) = body ++ dropTrailingCommasIn .inside rest := by
  induction h with
  | nil => rfl
  | plain hquote hslash _ ih =>
    rw [List.cons_append, Script.dropTrailingCommasIn, if_neg (fun h => absurd h.1 (by decide)),
      next_inside hquote hslash, ih]
    rfl
  | escape _ ih => exact congrArg (_ :: _ :: ·) ih

theorem CommasAdded.hidden {before body w t : List Char} (h : CommasAdded before body w t) (hbody : Hidden body)
    (hbefore : Quoting.outside.after before = .inside) : w = body ∧ t = body := by
  induction hbody generalizing before w t with
  | nil => cases h; exact ⟨rfl, rfl⟩
  | @plain c cs hquote hslash _ ih =>
    obtain ⟨w', t', rfl, rfl, h'⟩ := h.head_inside (by rw [hbefore]; decide)
    obtain ⟨rfl, rfl⟩ := ih h' (by rw [Quoting.after_snoc, hbefore, next_inside hquote hslash])
    exact ⟨rfl, rfl⟩
  | @escape c cs _ ih =>
    -- neither the backslash nor the character behind it is outside
    have hafter : Quoting.outside.after (before ++ ['\\']) = .escaped := by rw [Quoting.after_snoc, hbefore]; rfl
    obtain ⟨w₁, t₁, rfl, rfl, h₁⟩ := h.head_inside (by rw [hbefore]; decide)
    obtain ⟨w₂, t₂, rfl, rfl, h₂⟩ := h₁.head_inside (by rw [hafter]; decide)
    obtain ⟨rfl, rfl⟩ := ih h₂ (by rw [Quoting.after_snoc, hafter]; rfl)
    exact ⟨rfl, rfl⟩

/-! ## What the scanners pass over -/

/-- A text that, outside strings, the scanner of ends passes over from one bracket depth to another,
and that leaves another text when trailing commas are dropped. -/
structure Passes (n m : Nat) (cs plain : List Char) : Prop where
  value : ∀ depth rest, pastValueIn .outside (depth + n) (cs ++ rest) = pastValueIn .outside (depth + m) rest
  commas : ∀ rest, dropTrailingCommasIn .outside (cs ++ rest) = plain ++ dropTrailingCommasIn .outside rest

theorem Passes.nil {n : Nat} : Passes n n [] [] := ⟨fun _ _ => rfl, fun _ => rfl⟩

theorem Passes.append {n m k : Nat} {a a' b b' : List Char} (ha : Passes n m a a') (hb : Passes m k b b') :
    Passes n k (a ++ b) (a' ++ b') where
  value depth rest := by rw [List.append_assoc, ha.value, hb.value]
  commas rest := by rw [List.append_assoc, ha.commas, hb.commas, List.append_assoc]

/-- A character that means nothing to the scanners outside strings. -/
def Idle (c : Char) : Prop := c ∉ ['"', ';', ',', '[', ']', '\x7b', '\x7d']

theorem next_outside {c : Char} (h : c ≠ '"') : Quoting.outside.next c.toNat = .outside :=
  if_neg fun hc => h (Char.toNat_inj.1 hc)

theorem passes_of_idle {cs : List Char} (h : ∀ c ∈ cs, Idle c) {n : Nat} : Passes n n cs cs := by
  induction cs with
  | nil => exact .nil
  | cons c cs ih =>
    have hc := h c List.mem_cons_self
    have ih := ih fun d hd => h d (List.mem_cons_of_mem c hd)
    simp only [Idle, List.mem_cons, List.not_mem_nil, or_false, not_or] at hc
    obtain ⟨hquote, hsemi, hcomma, h1, h2, h3, h4⟩ := hc
    constructor
    · intro depth rest
      rw [List.cons_append, pastValueIn, if_neg (fun h => hsemi h.1), next_outside hquote, depthPast,
        if_neg (fun h => h.elim h1 h3), if_neg (fun h => h.elim h2 h4), ih.value]
    · intro rest
      rw [List.cons_append, dropTrailingCommasIn, if_neg (fun h => hcomma h.2.1), next_outside hquote, ih.commas]
      rfl

theorem idle_of_isSpace {c : Char} (h : Json.isSpace c = true) : Idle c := by
  simp only [Json.isSpace, Bool.or_eq_true, beq_iff_eq] at h
  unfold Idle
  rcases h with ((rfl | rfl) | rfl) | rfl <;> decide

theorem passes_spaces {s : List Char} (hs : Spaces s) {n : Nat} : Passes n n s s :=
  passes_of_idle fun c hc => idle_of_isSpace (hs c hc)

theorem passes_string {body : List Char} (h : Hidden body) {n : Nat} :
    Passes n n ('"' :: (body ++ ['"'])) ('"' :: (body ++ ['"'])) := by
  constructor
  · intro depth rest
    rw [List.cons_append, List.append_assoc, pastValueIn, if_neg (fun h => absurd h.1 (by decide))]
    -- what is left is the closing quote
    refine (h.pastValueIn (depth + n) ('"' :: rest)).trans ?_
    rw [pastValueIn]
    · rfl
    · intro h; cases h
  · intro rest
    have hbody := h.dropTrailingCommasIn ('"' :: rest)
    simp only [List.cons_append, List.append_assoc, List.nil_append]
    exact congrArg ('"' :: ·) hbody

theorem passes_open {o : Char} (ho : o = '[' ∨ o = '\x7b') {n : Nat} : Passes n (n + 1) [o] [o] := by
  rcases ho with rfl | rfl
  · exact ⟨fun _ _ => by rw [List.cons_append, pastValueIn, if_neg (fun h => absurd h.1 (by decide))]; rfl,
      fun _ => rfl⟩
  · exact ⟨fun _ _ => by rw [List.cons_append, pastValueIn, if_neg (fun h => absurd h.1 (by decide))]; rfl,
      fun _ => rfl⟩

theorem passes_close {c : Char} (hc : c = ']' ∨ c = '\x7d') {n : Nat} : Passes (n + 1) n [c] [c] := by
  rcases hc with rfl | rfl
  · exact ⟨fun _ _ => by rw [List.cons_append, pastValueIn, if_neg (fun h => absurd h.1 (by decide))]; rfl,
      fun _ => rfl⟩
  · exact ⟨fun _ _ => by rw [List.cons_append, pastValueIn, if_neg (fun h => absurd h.1 (by decide))]; rfl,
      fun _ => rfl⟩

/-! ## Commas -/

theorem isBlank_of_isSpace {c : Char} (h : Json.isSpace c = true) : Text.isBlank c = true := by
  simp only [Json.isSpace, Bool.or_eq_true, beq_iff_eq] at h
  rcases h with ((rfl | rfl) | rfl) | rfl <;> decide

theorem not_isBlank_of_isDigit {c : Char} (h : c.isDigit = true) : Text.isBlank c = false := by
  simp only [Char.isDigit, Bool.and_eq_true, decide_eq_true_eq, ge_iff_le, UInt32.le_iff_toNat_le] at h
  have h1 : 48 ≤ c.toNat := h.1
  have h2 : c.toNat ≤ 57 := h.2
  simp only [Text.isBlank, Bool.or_eq_false_iff, Bool.and_eq_false_iff, decide_eq_false_iff_not, beq_eq_false_iff_ne]
  omega

theorem not_isBlank_of_opens {c : Char} (h : Opens c) : Text.isBlank c = false := by
  rcases h with h | h
  · simp only [List.mem_cons, List.not_mem_nil, or_false] at h
    rcases h with rfl | rfl | rfl | rfl | rfl | rfl | rfl <;> decide
  · exact not_isBlank_of_isDigit h

/-- White space, as trimming takes it. -/
def Blanks (cs : List Char) : Prop := ∀ c ∈ cs, Text.isBlank c = true

theorem blanks_of_spaces {s : List Char} (hs : Spaces s) : Blanks s := fun c hc => isBlank_of_isSpace (hs c hc)

theorem Blanks.append {a b : List Char} (ha : Blanks a) (hb : Blanks b) : Blanks (a ++ b) :=
  fun c hc => (List.mem_append.1 hc).elim (ha c) (hb c)

theorem trimStart_append {s : List Char} (hs : Blanks s) {c : Char} (hc : Text.isBlank c = false) (cs : List Char) :
    Text.trimStart (s ++ c :: cs) = c :: cs := by
  refine Text.trimStart_append hs fun d hd => ?_
  cases hd
  exact hc

/-- Whether a character closes an array or an object. -/
def Closes (c : Char) : Prop := c = ']' ∨ c = '\x7d'

theorem Closes.not_isBlank {c : Char} (h : Closes c) : Text.isBlank c = false := by
  rcases h with rfl | rfl <;> rfl

/-- A text goes on with a closing bracket exactly when it is white space up to one. -/
theorem closesNext_iff {cs : List Char} : closesNext cs = true ↔ ∃ s c r, Blanks s ∧ Closes c ∧ cs = s ++ c :: r := by
  constructor
  · intro h
    have hcs := List.takeWhile_append_dropWhile (p := Text.isBlank) (l := cs)
    have hblanks : Blanks (cs.takeWhile Text.isBlank) := fun c hc => List.mem_takeWhile_imp hc
    unfold closesNext Text.trimStart at h
    split at h
    · rename_i r heq
      exact ⟨_, ']', r, hblanks, .inl rfl, by rw [← heq, hcs]⟩
    · rename_i r heq
      exact ⟨_, '\x7d', r, hblanks, .inr rfl, by rw [← heq, hcs]⟩
    · cases h
  · rintro ⟨s, c, r, hs, hc, rfl⟩
    rw [closesNext, trimStart_append hs hc.not_isBlank]
    rcases hc with rfl | rfl <;> rfl

theorem closesNext_opens {z : List Char} (hz : Spaces z) {c : Char} (hc : Opens c) (rest : List Char) :
    closesNext (z ++ c :: rest) = false := by
  rw [closesNext, trimStart_append (blanks_of_spaces hz) (not_isBlank_of_opens hc)]
  split
  · rename_i heq; cases heq; exact absurd rfl hc.not_closer.1
  · rename_i heq; cases heq; exact absurd rfl hc.not_closer.2
  · rfl

theorem pastValueIn_comma (depth : Nat) (rest : List Char) :
    pastValueIn .outside depth (',' :: rest) = pastValueIn .outside depth rest := by
  rw [pastValueIn, if_neg fun h => absurd h.1 (by decide)]
  rfl

/-- A comma before a closing bracket is dropped. -/
theorem passes_trailing_comma {z : List Char} (hz : Spaces z) {c : Char} (hc : c = ']' ∨ c = '\x7d') {n : Nat} :
    Passes (n + 1) n (',' :: (z ++ [c])) (z ++ [c]) := by
  have h : Passes (n + 1) n (z ++ [c]) (z ++ [c]) := (passes_spaces hz).append (passes_close hc)
  constructor
  · intro depth rest
    rw [List.cons_append, pastValueIn_comma, h.value]
  · intro rest
    have hclose : closesNext (z ++ [c] ++ rest) = true :=
      closesNext_iff.2 ⟨z, c, rest, blanks_of_spaces hz, hc, List.append_assoc ..⟩
    rw [List.cons_append, dropTrailingCommasIn, if_pos ⟨rfl, rfl, hclose⟩, h.commas]

/-- A comma before a value stays. -/
theorem passes_comma {n m : Nat} {b cs plain : List Char} (hb : Spaces b) (hcs : ∃ c r, cs = c :: r ∧ Opens c)
    (h : Passes n m (b ++ cs) plain) : Passes n m (',' :: (b ++ cs)) (',' :: plain) := by
  obtain ⟨c, r, rfl, hc⟩ := hcs
  constructor
  · intro depth rest
    rw [List.cons_append, pastValueIn_comma, h.value]
  · intro rest
    have hopen : closesNext (b ++ c :: r ++ rest) = false := by
      rw [List.append_assoc, List.cons_append]
      exact closesNext_opens hb hc (r ++ rest)
    rw [List.cons_append, dropTrailingCommasIn, if_neg (fun h => Bool.eq_false_iff.1 hopen h.2.2)]
    exact congrArg (',' :: ·) (h.commas rest)

/-! ## What the grammar spells -/

theorem idle_of_inNumber {c : Char} (h : Json.InNumber c) : Idle c := by
  rcases h with h | h
  · unfold Idle
    simp only [List.mem_cons, List.not_mem_nil, or_false, not_or]
    exact ⟨Json.ne_of_isDigit h rfl, Json.ne_of_isDigit h rfl, Json.ne_of_isDigit h rfl, Json.ne_of_isDigit h rfl,
      Json.ne_of_isDigit h rfl, Json.ne_of_isDigit h rfl, Json.ne_of_isDigit h rfl⟩
  · simp only [List.mem_cons, List.not_mem_nil, or_false] at h
    unfold Idle
    rcases h with rfl | rfl | rfl | rfl | rfl <;> decide

/-- A scalar is a string, or a text that means nothing to the scanners. -/
theorem scalar_cases {t : Json.Tree} {cs : List Char} (h : Scalar t cs) :
    (∃ body, Hidden body ∧ cs = '"' :: (body ++ ['"'])) ∨ ∀ c ∈ cs, Idle c := by
  unfold Idle
  cases h with
  | string hb => exact .inl ⟨_, hidden_of_quoted hb, rfl⟩
  | null | true_ | false_ => exact .inr (Json.forall_of_all rfl)
  | number hn => exact .inr fun c hc => idle_of_inNumber (hn.inNumber c hc)

/-- Outside strings, at the start of a value, the text leads outside strings again. -/
def Outside (cs : List Char) : Prop := Quoting.outside.after cs = .outside

theorem Outside.append {a b : List Char} (ha : Outside a) (hb : Outside b) : Outside (a ++ b) := by
  rw [Outside, Quoting.after_append, ha, hb]

theorem outside_of_idle {cs : List Char} (h : ∀ c ∈ cs, Idle c) : Outside cs := by
  induction cs with
  | nil => rfl
  | cons c cs ih =>
    have hquote : c ≠ '"' := by rintro rfl; exact h _ List.mem_cons_self (by decide)
    have hc : Outside [c] := next_outside hquote
    exact hc.append (ih fun d hd => h d (List.mem_cons_of_mem c hd))

theorem outside_spaces {s : List Char} (hs : Spaces s) : Outside s :=
  outside_of_idle fun c hc => idle_of_isSpace (hs c hc)

theorem outside_string {body : List Char} (h : Hidden body) : Outside ('"' :: (body ++ ['"'])) := by
  have hinside : Quoting.outside.after ('"' :: body) = .inside := h.after
  rw [Outside, ← List.cons_append, Quoting.after_snoc, hinside]
  rfl

theorem outside_of_spelled {p : Json.Part} {cs : List Char} (h : Spelled p cs) : Outside cs := by
  have hcons : ∀ {c : Char} {cs : List Char}, c ≠ '"' → Outside cs → Outside (c :: cs) := fun hc hcs =>
    Outside.append (a := [_]) (next_outside hc) hcs
  have hclose : Outside [']'] ∧ Outside ['\x7d'] := ⟨rfl, rfl⟩
  induction h with
  | scalar h =>
    rcases scalar_cases h with ⟨body, hb, rfl⟩ | h
    · exact outside_string hb
    · exact outside_of_idle h
  | emptyArray hs => exact hcons (by decide) ((outside_spaces hs).append hclose.1)
  | emptyObject hs => exact hcons (by decide) ((outside_spaces hs).append hclose.2)
  | array ha _ hz ih =>
    exact hcons (by decide) ((outside_spaces ha).append (ih.append ((outside_spaces hz).append hclose.1)))
  | object ha _ hz ih =>
    exact hcons (by decide) ((outside_spaces ha).append (ih.append ((outside_spaces hz).append hclose.2)))
  | item _ ih | oneMember _ ih => exact ih
  | moreItems _ ha hb _ ihv ih | moreMembers _ ha hb _ ihv ih =>
    exact ihv.append ((outside_spaces ha).append (hcons (by decide) ((outside_spaces hb).append ih)))
  | member hbody ha hb _ ih =>
    have hkey := outside_string (hidden_of_quoted hbody)
    have hrest := (outside_spaces ha).append (hcons (c := ':') (by decide) ((outside_spaces hb).append ih))
    simpa only [List.cons_append, List.append_assoc, List.nil_append] using hkey.append hrest

/-! ## Values with commas added -/

theorem CommasAdded.scalar {t : Json.Tree} {before cs w s : List Char} (h : CommasAdded before cs w s)
    (hbefore : Outside before) (hcs : Scalar t cs) : (w = cs ∧ s = cs) ∧ ∀ n, Passes n n cs cs := by
  rcases scalar_cases hcs with ⟨body, hb, rfl⟩ | hidle
  · obtain ⟨w₁, s₁, rfl, rfl, h₁⟩ := h.head (by decide)
    -- a bracket in the body is in a string, and the closing quote is no bracket
    obtain ⟨wa, wb, sa, sb, rfl, rfl, ha, hb'⟩ := h₁.split
    have hinside : Quoting.outside.after (before ++ ['"']) = .inside := by rw [Quoting.after_snoc, hbefore]; rfl
    obtain ⟨rfl, rfl⟩ := ha.hidden hb hinside
    obtain ⟨rfl, rfl⟩ := hb'.eq_self (Json.forall_of_all rfl)
    exact ⟨⟨rfl, rfl⟩, fun n => passes_string hb⟩
  · refine ⟨h.eq_self fun c hc => ?_, fun n => passes_of_idle hidle⟩
    have hidle := hidle c hc
    constructor
    · rintro rfl; exact hidle (by decide)
    · rintro rfl; exact hidle (by decide)

/-- A closing bracket, and what may be added before it. -/
theorem CommasAdded.closer {before w s : List Char} {c : Char} (h : CommasAdded before [c] w s)
    (hc : c = ']' ∨ c = '\x7d') : ∃ z, Spaces z ∧ s = z ++ [c] ∧ ∀ n, Passes (n + 1) n w s := by
  cases h with
  | keep h => cases h; exact ⟨[], Json.spaces_nil, rfl, fun n => passes_close hc⟩
  | @comma _ s z _ _ _ _ _ _ _ hs hz h =>
    cases h
    refine ⟨s ++ z, hs.append hz, (List.append_assoc _ _ _).symm, fun n => ?_⟩
    exact (passes_spaces hs).append (passes_trailing_comma hz hc)

theorem CommasAdded.closer_empty {before w s : List Char} {c : Char} (h : CommasAdded before [c] w s)
    (hbefore : justOpened before = true) : w = [c] ∧ s = [c] := by
  cases h with
  | keep h => cases h; exact ⟨rfl, rfl⟩
  | comma _ _ h => rw [h] at hbefore; cases hbefore

/-- What a text with commas added spells, and what the scanners make of it. -/
def Loosened (p : Json.Part) (cs : List Char) : Prop :=
  ∀ {before w s : List Char}, Outside before → CommasAdded before cs w s → Spelled p s ∧ ∀ n, Passes n n w s

theorem loosened_empty {p : Json.Part} {o c : Char} (ho : o = '[' ∨ o = '\x7b') (hc : c = ']' ∨ c = '\x7d')
    {a : List Char} (ha : Spaces a) (hp : Spelled p (o :: (a ++ [c]))) : Loosened p (o :: (a ++ [c])) := by
  intro before w s _ h
  have hoc : o ≠ ']' ∧ o ≠ '\x7d' := by rcases ho with rfl | rfl <;> decide
  obtain ⟨w₁, s₁, rfl, rfl, h₁⟩ := h.head hoc
  obtain ⟨wa, wc, sa, sc, rfl, rfl, hwa, hwc⟩ := h₁.split
  obtain ⟨rfl, rfl⟩ := hwa.spaces ha
  obtain ⟨rfl, rfl⟩ := hwc.closer_empty (justOpened_append ho ha before)
  exact ⟨hp, fun n => (passes_open ho).append ((passes_spaces ha).append (passes_close hc))⟩

theorem loosened_bracket {p q : Json.Part} {o c : Char} (ho : o = '[' ∨ o = '\x7b') (hc : c = ']' ∨ c = '\x7d')
    (hp : ∀ {a cs z : List Char}, Spaces a → Spelled q cs → Spaces z → Spelled p (o :: (a ++ (cs ++ (z ++ [c])))))
    {a cs z : List Char} (ha : Spaces a) (hz : Spaces z) (ih : Loosened q cs) :
    Loosened p (o :: (a ++ (cs ++ (z ++ [c])))) := by
  intro before w s hbefore h
  have hoc : o ≠ ']' ∧ o ≠ '\x7d' := by rcases ho with rfl | rfl <;> decide
  have hopen : Outside [o] := by rcases ho with rfl | rfl <;> rfl
  obtain ⟨w₁, s₁, rfl, rfl, h₁⟩ := h.head hoc
  obtain ⟨wa, w₂, sa, s₂, rfl, rfl, hwa, h₂⟩ := h₁.split
  obtain ⟨wi, w₃, si, s₃, rfl, rfl, hwi, h₃⟩ := h₂.split
  obtain ⟨wz, wc, sz, sc, rfl, rfl, hwz, hwc⟩ := h₃.split
  obtain ⟨rfl, rfl⟩ := hwa.spaces ha
  obtain ⟨hsi, hpi⟩ := ih ((hbefore.append hopen).append (outside_spaces ha)) hwi
  obtain ⟨rfl, rfl⟩ := hwz.spaces hz
  obtain ⟨z', hz', rfl, hpc⟩ := hwc.closer hc
  -- the space that came with the comma joins the space that was there
  constructor
  · rw [← List.append_assoc sz]
    exact hp ha hsi (hz.append hz')
  · intro n
    exact (passes_open ho).append ((passes_spaces ha).append ((hpi _).append ((passes_spaces hz).append (hpc n))))

theorem loosened_more {p q r : Json.Part}
    (hp : ∀ {cs a b ds : List Char}, Spelled q cs → Spaces a → Spaces b → Spelled r ds →
      Spelled p (cs ++ (a ++ ',' :: (b ++ ds))))
    {cs a b ds : List Char} (hcs : Spelled q cs) (ha : Spaces a) (hb : Spaces b) (hds : Spelled r ds)
    (ihq : Loosened q cs) (ihr : Loosened r ds) : Loosened p (cs ++ (a ++ ',' :: (b ++ ds))) := by
  intro before w s hbefore h
  obtain ⟨wq, w₁, sq, s₁, rfl, rfl, hwq, h₁⟩ := h.split
  obtain ⟨wa, w₂, sa, s₂, rfl, rfl, hwa, h₂⟩ := h₁.split
  obtain ⟨w₃, s₃, rfl, rfl, h₃⟩ := h₂.head (by decide)
  obtain ⟨wb, wr, sb, sr, rfl, rfl, hwb, hwr⟩ := h₃.split
  obtain ⟨hsq, hpq⟩ := ihq hbefore hwq
  obtain ⟨rfl, rfl⟩ := hwa.spaces ha
  obtain ⟨rfl, rfl⟩ := hwb.spaces hb
  have hcomma : Outside [','] := rfl
  have houtside := (((hbefore.append (outside_of_spelled hcs)).append (outside_spaces ha)).append hcomma).append
    (outside_spaces hb)
  obtain ⟨hsr, hpr⟩ := ihr houtside hwr
  -- the comma stays: what follows it starts like a value, in the written text as well
  obtain ⟨c, ds, rfl, hc⟩ := hds.cons
  obtain ⟨wr, sr, rfl, rfl, -⟩ := hwr.head hc.not_closer
  refine ⟨hp hsq ha hb hsr, fun n => ?_⟩
  exact (hpq n).append
    ((passes_spaces ha).append (passes_comma hb ⟨c, wr, rfl, hc⟩ ((passes_spaces hb).append (hpr n))))

theorem loosened_member {body : List Char} {ps : List Json.Piece} {v : Json.Tree} {a b cs : List Char}
    (hbody : Quoted body ps) (ha : Spaces a) (hb : Spaces b) (ih : Loosened (.value v) cs) :
    Loosened (.member (.string ((Json.joinPieces none ps).map String.ofList), v))
      ('"' :: (body ++ '"' :: (a ++ ':' :: (b ++ cs)))) := by
  intro before w s hbefore h
  have hkey : '"' :: (body ++ '"' :: (a ++ ':' :: (b ++ cs))) = '"' :: (body ++ ['"']) ++ (a ++ ':' :: (b ++ cs)) := by
    simp only [List.cons_append, List.append_assoc, List.nil_append]
  rw [hkey] at h
  obtain ⟨wk, w₁, sk, s₁, rfl, rfl, hwk, h₁⟩ := h.split
  obtain ⟨wa, w₂, sa, s₂, rfl, rfl, hwa, h₂⟩ := h₁.split
  obtain ⟨w₃, s₃, rfl, rfl, h₃⟩ := h₂.head (by decide)
  obtain ⟨wb, wv, sb, sv, rfl, rfl, hwb, hwv⟩ := h₃.split
  obtain ⟨⟨rfl, rfl⟩, hpk⟩ := hwk.scalar hbefore (.string hbody)
  obtain ⟨rfl, rfl⟩ := hwa.spaces ha
  obtain ⟨rfl, rfl⟩ := hwb.spaces hb
  have hcolon : Outside [':'] := rfl
  have houtside := (((hbefore.append (outside_string (hidden_of_quoted hbody))).append
    (outside_spaces ha)).append hcolon).append (outside_spaces hb)
  obtain ⟨hsv, hpv⟩ := ih houtside hwv
  constructor
  · simpa only [List.cons_append, List.append_assoc, List.nil_append] using Spelled.member hbody ha hb hsv
  · intro n
    have hidle : Passes n n [':'] [':'] := passes_of_idle (by unfold Idle; exact Json.forall_of_all rfl)
    exact (hpk n).append ((passes_spaces ha).append (hidle.append ((passes_spaces hb).append (hpv n))))

/-- Wherever commas are added to a JSON text outside strings, the scanner of ends passes over it, and
what is left without the commas spells the same. -/
theorem loosened_of_spelled {p : Json.Part} {cs : List Char} (h : Spelled p cs) : Loosened p cs := by
  induction h with
  | scalar hs =>
    intro before w s hbefore h
    obtain ⟨⟨rfl, rfl⟩, hp⟩ := h.scalar hbefore hs
    exact ⟨.scalar hs, hp⟩
  | emptyArray hs => exact loosened_empty (.inl rfl) (.inl rfl) hs (.emptyArray hs)
  | emptyObject hs => exact loosened_empty (.inr rfl) (.inr rfl) hs (.emptyObject hs)
  | array ha _ hz ih => exact loosened_bracket (.inl rfl) (.inl rfl) .array ha hz ih
  | object ha _ hz ih => exact loosened_bracket (.inr rfl) (.inr rfl) .object ha hz ih
  | item _ ih =>
    intro before w s hbefore h
    exact ⟨.item (ih hbefore h).1, (ih hbefore h).2⟩
  | oneMember _ ih =>
    intro before w s hbefore h
    exact ⟨.oneMember (ih hbefore h).1, (ih hbefore h).2⟩
  | moreItems hv ha hb h ihv ih => exact loosened_more .moreItems hv ha hb h ihv ih
  | moreMembers hm ha hb h ihm ih => exact loosened_more .moreMembers hm ha hb h ihm ih
  | member hbody ha hb _ ih => exact loosened_member hbody ha hb ih

/-! ## Whole values -/

theorem not_isBlank_of_inNumber {c : Char} (h : Json.InNumber c) : Text.isBlank c = false := by
  rcases h with h | h
  · exact not_isBlank_of_isDigit h
  · simp only [List.mem_cons, List.not_mem_nil, or_false] at h
    rcases h with rfl | rfl | rfl | rfl | rfl <;> decide

/-- A text whose last character trimming leaves. -/
def EndsSolid (cs : List Char) : Prop := ∃ r c, cs = r ++ [c] ∧ Text.isBlank c = false

theorem endsSolid_singleton {c : Char} (hc : Text.isBlank c = false) : EndsSolid [c] := ⟨[], c, rfl, hc⟩

theorem EndsSolid.append {cs : List Char} (h : EndsSolid cs) (a : List Char) : EndsSolid (a ++ cs) := by
  obtain ⟨r, c, rfl, hc⟩ := h
  exact ⟨a ++ r, c, (List.append_assoc a r [c]).symm, hc⟩

theorem EndsSolid.cons {cs : List Char} (h : EndsSolid cs) (x : Char) : EndsSolid (x :: cs) := h.append [x]

theorem endsSolid_of_forall {cs : List Char} (hne : cs ≠ []) (h : ∀ c ∈ cs, Text.isBlank c = false) : EndsSolid cs :=
  ⟨_, _, (List.dropLast_concat_getLast hne).symm, h _ (List.getLast_mem hne)⟩

theorem endsSolid_of_spelled {p : Json.Part} {cs : List Char} (h : Spelled p cs) : EndsSolid cs := by
  have hclose : EndsSolid ['"'] ∧ EndsSolid [']'] ∧ EndsSolid ['\x7d'] :=
    ⟨endsSolid_singleton rfl, endsSolid_singleton rfl, endsSolid_singleton rfl⟩
  induction h with
  | scalar h =>
    cases h with
    | null | true_ | false_ => exact endsSolid_of_forall (by decide) (Json.forall_of_all rfl)
    | string => exact (hclose.1.append _).cons _
    | number hn =>
      obtain ⟨c, r, rfl, -⟩ := hn.cons
      exact endsSolid_of_forall (List.cons_ne_nil c r) fun c hc => not_isBlank_of_inNumber (hn.inNumber c hc)
  | emptyArray => exact (hclose.2.1.append _).cons _
  | emptyObject => exact (hclose.2.2.append _).cons _
  | array => exact (((hclose.2.1.append _).append _).append _).cons _
  | object => exact (((hclose.2.2.append _).append _).append _).cons _
  | item _ ih | oneMember _ ih => exact ih
  | moreItems _ _ _ _ _ ih | moreMembers _ _ _ _ _ ih => exact (((ih.append _).cons _).append _).append _
  | member _ _ _ _ ih => exact (((((ih.append _).cons _).append _).cons _).append _).cons _

theorem trimmed_of_spelled {p : Json.Part} {cs : List Char} (h : Spelled p cs) : Text.Trimmed cs where
  start c hc := by
    obtain ⟨d, r, rfl, hd⟩ := h.cons
    cases hc
    exact not_isBlank_of_opens hd
  finish c hc := by
    obtain ⟨r, d, rfl, hd⟩ := endsSolid_of_spelled h
    rw [List.getLast?_concat] at hc
    cases hc
    exact hd

theorem trim_spelled {p : Json.Part} {s cs z : List Char} (hs : Blanks s) (h : Spelled p cs) (hz : Blanks z) :
    Text.trim (s ++ (cs ++ z)) = cs :=
  Text.trim_append hs (trimmed_of_spelled h) hz

/-- The text of a value with commas added to it. -/
def Written (text written : List Char) : Prop := ∃ spaced, CommasAdded [] text written spaced

/-- What stands between a value and the next statement: nothing, or a semicolon and more. -/
def Stops (rest : List Char) : Prop := ∀ c, rest.head? = some c → c = ';'

theorem stops_semicolon (rest : List Char) : Stops (';' :: rest) := by
  intro c hc
  cases hc
  rfl

theorem pastValueIn_stops {rest : List Char} (h : Stops rest) : pastValueIn .outside 0 rest = some rest := by
  cases rest with
  | nil => rfl
  | cons c rest => rw [h c rfl, pastValueIn, if_pos ⟨rfl, rfl⟩]

theorem CommasAdded.passes {text : String} {v : Json} (hv : Json.parse text = .ok v) {written spaced : List Char}
    (h : CommasAdded [] text.toList written spaced) :
    Passes 0 0 written spaced ∧ ∃ t, SpelledText t spaced ∧ Json.readAny (.text Json.maxDepth) t = .ok v := by
  obtain ⟨t, ⟨s, cs, z, hs, hcs, hz, htext⟩, hread⟩ := Json.parse_eq_ok_iff.1 hv
  rw [htext] at h
  obtain ⟨ws, w₁, ss, s₁, rfl, rfl, hws, h₁⟩ := h.split
  obtain ⟨wc, wz, sc, sz, rfl, rfl, hwc, hwz⟩ := h₁.split
  obtain ⟨rfl, rfl⟩ := hws.spaces hs
  obtain ⟨rfl, rfl⟩ := hwz.spaces hz
  obtain ⟨hspelled, hpasses⟩ := loosened_of_spelled hcs (outside_spaces hs) hwc
  constructor
  · exact (passes_spaces hs).append ((hpasses 0).append (passes_spaces hz))
  · exact ⟨t, ⟨_, sc, _, hs, hspelled, hz, rfl⟩, hread⟩

/-- A value reads as the JSON text that commas were added to. -/
theorem parse_written {text : String} {v : Json} (hv : Json.parse text = .ok v) {written a z : List Char}
    (hw : Written text.toList written) (ha : Spaces a) (hz : Spaces z) :
    Json.parse (String.ofList (Text.trim (dropTrailingCommas (a ++ (written ++ z))))) = .ok v := by
  obtain ⟨spaced, h⟩ := hw
  obtain ⟨hpasses, t, ⟨s, cs, y, hs, hcs, hy, rfl⟩, hread⟩ := h.passes hv
  have hall := ((passes_spaces ha).append (hpasses.append (passes_spaces hz))).commas []
  have hdrop : dropTrailingCommas (a ++ (written ++ z)) = a ++ s ++ (cs ++ (y ++ z)) := by
    rw [List.append_nil] at hall
    rw [dropTrailingCommas, hall, dropTrailingCommasIn, List.append_nil]
    simp only [List.append_assoc]
  rw [hdrop, trim_spelled (blanks_of_spaces (ha.append hs)) hcs (blanks_of_spaces (hy.append hz)), Json.parse_eq_ok_iff]
  refine ⟨t, ⟨[], cs, [], Json.spaces_nil, hcs, Json.spaces_nil, ?_⟩, hread⟩
  rw [String.toList_ofList, List.nil_append, List.append_nil]

/-- In a text that is JSON already, no comma is a trailing one. -/
theorem dropTrailingCommas_json {text : String} {v : Json} (hv : Json.parse text = .ok v) :
    dropTrailingCommas text.toList = text.toList := by
  have hall := ((CommasAdded.refl [] text.toList).passes hv).1.commas []
  rwa [List.append_nil, dropTrailingCommasIn, List.append_nil] at hall

end CoveragePages.Script
