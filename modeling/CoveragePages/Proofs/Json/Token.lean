/-
The tokens of JSON text: space, words, strings and numbers, each as a relation between a text and
what it stands for. The scanner of scalars takes exactly these texts: whatever it takes off the
front of a text is such a token, and it takes a token off any text that does not make it longer.
-/
import CoveragePages.Json.Scan
import Mathlib.Data.List.TakeDrop

namespace CoveragePages.Json

open Decimal

/-! ## Space -/

/-- A text of nothing but space. -/
def Spaces (cs : List Char) : Prop := ∀ c ∈ cs, isSpace c = true

instance (cs : List Char) : Decidable (Spaces cs) := decidable_of_iff (cs.all isSpace = true) List.all_eq_true

/-- What a check of every item shows. -/
theorem forall_of_all {α : Type} {P : α → Prop} [DecidablePred P] {l : List α} (h : l.all (P ·) = true) :
    ∀ a ∈ l, P a :=
  fun a ha => of_decide_eq_true (List.all_eq_true.1 h a ha)

theorem spaces_nil : Spaces [] := fun _ h => nomatch h

theorem Spaces.append {a b : List Char} (ha : Spaces a) (hb : Spaces b) : Spaces (a ++ b) := by
  intro c hc
  rcases List.mem_append.1 hc with h | h
  · exact ha c h
  · exact hb c h

theorem skipSpace_append {s : List Char} (hs : Spaces s) (cs : List Char) :
    skipSpace (s ++ cs) = skipSpace cs :=
  List.dropWhile_append_of_pos hs

theorem skipSpace_spaces {s : List Char} (hs : Spaces s) : skipSpace s = [] := by
  simpa [skipSpace] using skipSpace_append hs []

theorem skipSpace_cons {c : Char} (hc : isSpace c = false) (cs : List Char) : skipSpace (c :: cs) = c :: cs :=
  List.dropWhile_cons_of_neg (by rw [hc]; decide)

theorem exists_spaces (cs : List Char) : ∃ s, Spaces s ∧ cs = s ++ skipSpace cs :=
  ⟨cs.takeWhile isSpace, List.all_eq_true.1 List.all_takeWhile, List.takeWhile_append_dropWhile.symm⟩

/-- A text that may follow a value: nothing, or something that cannot belong to a token. -/
def Ends (cs : List Char) : Prop := ∀ c, cs.head? = some c → isSpace c = true ∨ c ∈ [',', ']', '\x7d']

theorem ends_nil : Ends [] := fun _ h => nomatch h

theorem ends_cons {c : Char} (h : c ∈ [',', ']', '\x7d']) (cs : List Char) : Ends (c :: cs) := by
  intro d hd
  cases hd
  exact .inr h

theorem Spaces.ends {s : List Char} (hs : Spaces s) {cs : List Char} (h : Ends cs) : Ends (s ++ cs) := by
  cases s with
  | nil => exact h
  | cons c s =>
    intro d hd
    cases hd
    exact .inl (hs c List.mem_cons_self)

/-! ## Words -/

theorem scanWord_sound : ∀ (word cs rest : List Char), scanWord word cs = .ok rest → cs = word ++ rest
  | [], cs, rest, h => by cases h; rfl
  | _ :: _, [], rest, h => by cases h
  | w :: word, c :: cs, rest, h => by
    simp only [scanWord] at h
    split at h
    · rename_i hw
      rw [hw, scanWord_sound word cs rest h, List.cons_append]
    · cases h

theorem scanNamed_ok {value t : Tree} {word cs rest : List Char} (h : scanNamed value word cs = (t, .ok rest)) :
    t = value ∧ cs = word ++ rest := by
  unfold scanNamed at h
  split at h
  · rename_i r hr
    cases h
    exact ⟨rfl, scanWord_sound word cs rest hr⟩
  · cases h

/-! ## Strings -/

/-- The inside of a string and its parts. -/
inductive Quoted : List Char → List Piece → Prop
  | nil : Quoted [] []
  | plain {c : Char} {cs : List Char} {ps : List Piece} : 0x20 ≤ c.toNat → c ≠ '"' → c ≠ '\\' →
      Quoted cs ps → Quoted (c :: cs) (.char c :: ps)
  | letter {e c : Char} {cs : List Char} {ps : List Piece} : escapeLetter? e = some c →
      Quoted cs ps → Quoted ('\\' :: e :: cs) (.char c :: ps)
  | unit {a b c d : Char} {code : Nat} {cs : List Char} {ps : List Piece} : hexUnit? a b c d = some code →
      Quoted cs ps → Quoted ('\\' :: 'u' :: a :: b :: c :: d :: cs) (.unit code :: ps)

theorem scanPieces_sound (cs : List Char) : ∀ {ps : List Piece} {rest : List Char},
    scanPieces cs = (ps, .ok rest) → ∃ body, cs = body ++ '"' :: rest ∧ Quoted body ps := by
  fun_induction scanPieces cs with
  | case1 | case4 | case5 | case7 | case8 => intro ps rest h; cases h
  | case2 r => intro ps rest h; cases h; exact ⟨[], rfl, .nil⟩
  | case3 a b c d r code hcode pieces after hr ih =>
    intro ps rest h
    cases h
    obtain ⟨body, hbody, hb⟩ := ih hr
    exact ⟨'\\' :: 'u' :: a :: b :: c :: d :: body, by rw [hbody]; rfl, .unit hcode hb⟩
  | case6 e r _ c hc pieces after hr ih =>
    intro ps rest h
    cases h
    obtain ⟨body, hbody, hb⟩ := ih hr
    exact ⟨'\\' :: e :: body, by rw [hbody]; rfl, .letter hc hb⟩
  | case9 c r hquote _ hlast hescape hc pieces after hr ih =>
    intro ps rest h
    cases h
    obtain ⟨body, hbody, hb⟩ := ih hr
    have hslash : c ≠ '\\' := by
      intro h
      cases r with
      | nil => exact hlast h rfl
      | cons e r => exact hescape e r h rfl
    exact ⟨c :: body, by rw [hbody]; rfl, .plain (by omega) hquote hslash hb⟩

theorem scanPieces_complete {body : List Char} {ps : List Piece} (h : Quoted body ps) (rest : List Char) :
    scanPieces (body ++ '"' :: rest) = (ps, .ok rest) := by
  induction h with
  | nil => rfl
  | @plain c _ _ h1 h2 h3 _ ih =>
    have hc : ¬ c.toNat < 0x20 := by omega
    rw [List.cons_append, scanPieces, if_neg hc, ih]
    · exact h2
    · exact fun _ _ _ _ _ h => absurd h h3
    · exact fun h => absurd h h3
    · exact fun _ _ h => absurd h h3
  | @letter e c _ _ hc _ ih =>
    have hu : e ≠ 'u' := by rintro rfl; cases hc
    rw [List.cons_append, List.cons_append, scanPieces]
    · rw [hc]; simp only [ih]
    · exact fun _ _ _ _ _ h => absurd h hu
  | unit hcode _ ih =>
    simp only [List.cons_append, scanPieces, hcode, ih]

theorem isSome_hexValue {a b c d : Char} {code : Nat} (h : hexUnit? a b c d = some code) :
    ∀ x ∈ [a, b, c, d], (hexValue? x).isSome := by
  simp only [hexUnit?, bind, Option.bind_eq_some_iff] at h
  obtain ⟨_, ha, _, hb, _, hc, _, hd, -⟩ := h
  simp [ha, hb, hc, hd]

/-- A character that stands for itself in a string. -/
def Plain (c : Char) : Prop := 0x20 ≤ c.toNat ∧ c ≠ '"' ∧ c ≠ '\\'

instance (c : Char) : Decidable (Plain c) := inferInstanceAs (Decidable (_ ∧ _))

theorem quoted_plain {cs : List Char} (h : ∀ c ∈ cs, Plain c) : Quoted cs (cs.map .char) := by
  induction cs with
  | nil => exact .nil
  | cons c cs ih =>
    obtain ⟨⟨h1, h2, h3⟩, hrest⟩ := List.forall_mem_cons.1 h
    exact .plain h1 h2 h3 (ih hrest)

theorem joinPieces_plain (cs : List Char) : joinPieces none (cs.map .char) = .ok cs := by
  induction cs with
  | nil => rfl
  | cons c cs ih =>
    rw [List.map_cons, joinPieces, ih]
    rfl

/-! ## Numbers -/

/-- A text of decimal digits, at least one. -/
def Digits (ds : List Char) : Prop := ds ≠ [] ∧ ∀ c ∈ ds, c.isDigit = true

/-- A text that does not start with a digit. -/
def NoDigit (cs : List Char) : Prop := ∀ c, cs.head? = some c → c.isDigit = false

theorem spanDigits_append {ds : List Char} (h : Digits ds) {rest : List Char} (hr : NoDigit rest) :
    spanDigits (ds ++ rest) = (ds, rest) := by
  have htake : rest.takeWhile Char.isDigit = [] ∧ rest.dropWhile Char.isDigit = rest := by
    cases rest with
    | nil => exact ⟨rfl, rfl⟩
    | cons c rest =>
      have hc := hr c rfl
      exact ⟨List.takeWhile_cons_of_neg (by simp [hc]), List.dropWhile_cons_of_neg (by simp [hc])⟩
  rw [spanDigits, List.span_eq_takeWhile_dropWhile, List.takeWhile_append_of_pos h.2,
    List.dropWhile_append_of_pos h.2, htake.1, htake.2, List.append_nil]

theorem spanDigits_sound {cs ds rest : List Char} (h : spanDigits cs = (ds, rest)) :
    cs = ds ++ rest ∧ ∀ c ∈ ds, c.isDigit = true := by
  rw [spanDigits, List.span_eq_takeWhile_dropWhile] at h
  cases h
  exact ⟨List.takeWhile_append_dropWhile.symm, List.all_eq_true.1 List.all_takeWhile⟩

/-- The digits before the point: a zero alone, or digits that do not start with one. -/
def Whole (ds : List Char) : Prop := Digits ds ∧ ∀ d ds', ds ≠ '0' :: d :: ds'

/-- The fraction of a number: nothing, or a point and digits. -/
inductive Fraction : Option (List Char) → List Char → Prop
  | absent : Fraction none []
  | present {ds : List Char} : Digits ds → Fraction (some ds) ('.' :: ds)

/-- The sign of an exponent, which may be left out. -/
inductive Sign : Bool → List Char → Prop
  | absent : Sign false []
  | plus : Sign false ['+']
  | minus : Sign true ['-']

/-- The exponent of a number: nothing, or a letter, a sign and digits. -/
inductive Exponent : Option Int → List Char → Prop
  | absent : Exponent none []
  | present {e : Char} {negative : Bool} {sign ds : List Char} : e = 'e' ∨ e = 'E' → Sign negative sign →
      Digits ds → Exponent (some (if negative then -(digitsValue ds : Int) else digitsValue ds)) (e :: sign ++ ds)

/-- The text of a number and its numeral. -/
inductive Number : Numeral → List Char → Prop
  | mk {negative : Bool} {whole fcs ecs : List Char} {fraction : Option (List Char)} {exponent : Option Int} :
      Whole whole → Fraction fraction fcs → Exponent exponent ecs →
      Number (numeralOf negative whole fraction exponent)
        ((if negative then ['-'] else []) ++ (whole ++ (fcs ++ ecs)))

/-- A text that cannot make a number longer. -/
def NoNumber (cs : List Char) : Prop :=
  ∀ c, cs.head? = some c → c.isDigit = false ∧ c ≠ '.' ∧ c ≠ 'e' ∧ c ≠ 'E'

theorem Ends.noNumber {cs : List Char} (h : Ends cs) : NoNumber cs := by
  intro c hc
  rcases h c hc with hs | hm
  · simp only [isSpace, Bool.or_eq_true, beq_iff_eq] at hs
    rcases hs with ((rfl | rfl) | rfl) | rfl <;> decide
  · simp only [List.mem_cons, List.not_mem_nil, or_false] at hm
    rcases hm with rfl | rfl | rfl <;> decide

theorem NoNumber.noDigit {cs : List Char} (h : NoNumber cs) : NoDigit cs := fun c hc => (h c hc).1

theorem scanWhole_sound {cs ds rest : List Char} (h : scanWhole cs = .ok (ds, rest)) :
    Whole ds ∧ cs = ds ++ rest := by
  unfold scanWhole at h
  split at h
  · cases h
  · cases h
  · rename_i hne hzero hspan
    cases h
    obtain ⟨hcs, hds⟩ := spanDigits_sound hspan
    exact ⟨⟨⟨hne, hds⟩, fun d ds' h => hzero d ds' h⟩, hcs⟩

theorem scanWhole_complete {ds : List Char} (h : Whole ds) {rest : List Char} (hr : NoDigit rest) :
    scanWhole (ds ++ rest) = .ok (ds, rest) := by
  unfold scanWhole
  rw [spanDigits_append h.1 hr]
  split
  · rename_i heq; cases heq; exact absurd rfl h.1.1
  · rename_i heq; cases heq; exact absurd rfl (h.2 _ _)
  · rename_i heq; cases heq; rfl

theorem scanFraction_sound {cs rest : List Char} {f : Option (List Char)} (h : scanFraction cs = .ok (f, rest)) :
    ∃ text, Fraction f text ∧ cs = text ++ rest := by
  unfold scanFraction at h
  split at h
  · rename_i cs
    generalize hspan : spanDigits cs = parts at h
    obtain ⟨ds, r⟩ := parts
    obtain ⟨hcs, hds⟩ := spanDigits_sound hspan
    simp only at h
    split at h
    · cases h
    · rename_i hne
      cases h
      exact ⟨_, .present ⟨hne, hds⟩, by rw [List.cons_append, ← hcs]⟩
  · cases h
    exact ⟨[], .absent, rfl⟩

theorem scanFraction_complete {f : Option (List Char)} {text : List Char} (h : Fraction f text) {rest : List Char}
    (hr : NoDigit rest) (hp : ∀ cs, rest ≠ '.' :: cs) : scanFraction (text ++ rest) = .ok (f, rest) := by
  cases h with
  | absent =>
    unfold scanFraction
    split
    · rename_i heq; exact absurd heq (hp _)
    · rfl
  | present hds =>
    simp only [List.cons_append, scanFraction, spanDigits_append hds hr, if_neg hds.1]

theorem splitSign_sound (cs : List Char) : ∃ sign, Sign (splitSign cs).1 sign ∧ cs = sign ++ (splitSign cs).2 := by
  unfold splitSign
  split
  · exact ⟨['-'], .minus, rfl⟩
  · exact ⟨['+'], .plus, rfl⟩
  · exact ⟨[], .absent, rfl⟩

theorem splitSign_complete {negative : Bool} {sign ds : List Char} (h : Sign negative sign) (hds : Digits ds)
    (rest : List Char) : splitSign (sign ++ (ds ++ rest)) = (negative, ds ++ rest) := by
  cases h with
  | plus => rfl
  | minus => rfl
  | absent =>
    obtain ⟨hne, hall⟩ := hds
    cases ds with
    | nil => exact absurd rfl hne
    | cons d ds =>
      have hd := hall d List.mem_cons_self
      rw [List.nil_append, List.cons_append]
      unfold splitSign
      split
      · rename_i heq; cases heq; cases hd
      · rename_i heq; cases heq; cases hd
      · rfl

theorem scanExponent_sound {cs rest : List Char} {x : Option Int} (h : scanExponent cs = .ok (x, rest)) :
    ∃ text, Exponent x text ∧ cs = text ++ rest := by
  unfold scanExponent at h
  split at h
  · cases h
    exact ⟨[], .absent, rfl⟩
  · rename_i e cs
    split at h
    · rename_i he
      obtain ⟨sign, hsign, hcs⟩ := splitSign_sound cs
      generalize splitSign cs = signed at h hsign hcs
      obtain ⟨negative, cs'⟩ := signed
      generalize hspan : spanDigits cs' = parts at h
      obtain ⟨ds, r⟩ := parts
      obtain ⟨hcs', hds⟩ := spanDigits_sound hspan
      simp only at h hsign hcs
      split at h
      · cases h
      · rename_i hne
        simp only [hspan, Except.ok.injEq, Prod.mk.injEq] at h hne
        obtain ⟨rfl, rfl⟩ := h
        refine ⟨_, .present he hsign ⟨hne, hds⟩, ?_⟩
        rw [hcs, hcs', List.cons_append, List.cons_append, List.append_assoc]
    · cases h
      exact ⟨[], .absent, rfl⟩

theorem scanExponent_complete {x : Option Int} {text : List Char} (h : Exponent x text) {rest : List Char}
    (hr : NoNumber rest) : scanExponent (text ++ rest) = .ok (x, rest) := by
  cases h with
  | absent =>
    cases rest with
    | nil => rfl
    | cons e rest =>
      have he : ¬ (e = 'e' ∨ e = 'E') := fun h => h.elim (hr e rfl).2.2.1 (hr e rfl).2.2.2
      simp only [List.nil_append, scanExponent, if_neg he]
  | present he hsign hds =>
    simp only [List.cons_append, List.append_assoc, scanExponent, if_pos he, splitSign_complete hsign hds,
      spanDigits_append hds hr.noDigit, if_neg hds.1]

theorem Exponent.noDigit {x : Option Int} {text : List Char} (h : Exponent x text) {rest : List Char}
    (hr : NoNumber rest) : NoDigit (text ++ rest) ∧ ∀ cs, text ++ rest ≠ '.' :: cs := by
  cases h with
  | absent => exact ⟨hr.noDigit, fun cs h => (hr '.' (by rw [← List.nil_append rest, h]; rfl)).2.1 rfl⟩
  | present he =>
    refine ⟨fun c hc => ?_, fun cs h => ?_⟩
    · cases hc
      rcases he with rfl | rfl <;> rfl
    · cases h
      rcases he with he | he <;> cases he

theorem Fraction.noDigit {f : Option (List Char)} {text : List Char} (h : Fraction f text) {rest : List Char}
    (hr : NoDigit rest) : NoDigit (text ++ rest) := by
  cases h with
  | absent => exact hr
  | present => intro c hc; cases hc; rfl

theorem scanMagnitude_sound {negative : Bool} {cs rest : List Char} {n : Numeral}
    (h : scanMagnitude negative cs = .ok (n, rest)) :
    ∃ whole fraction exponent fcs ecs, Whole whole ∧ Fraction fraction fcs ∧ Exponent exponent ecs ∧
      n = numeralOf negative whole fraction exponent ∧ cs = whole ++ (fcs ++ ecs) ++ rest := by
  unfold scanMagnitude at h
  cases hw : scanWhole cs with
  | error => rw [hw] at h; cases h
  | ok w =>
    obtain ⟨whole, r1⟩ := w
    rw [hw] at h
    cases hf : scanFraction r1 with
    | error => simp only [bind, Except.bind, hf] at h; cases h
    | ok f =>
      obtain ⟨fraction, r2⟩ := f
      cases hx : scanExponent r2 with
      | error => simp only [bind, Except.bind, hf, hx] at h; cases h
      | ok x =>
        obtain ⟨exponent, r3⟩ := x
        obtain ⟨hwhole, rfl⟩ := scanWhole_sound hw
        obtain ⟨fcs, hfraction, rfl⟩ := scanFraction_sound hf
        obtain ⟨ecs, hexponent, rfl⟩ := scanExponent_sound hx
        have hn : n = numeralOf negative whole fraction exponent ∧ rest = r3 := by
          simp only [bind, Except.bind, hf, hx] at h
          cases h
          exact ⟨rfl, rfl⟩
        exact ⟨whole, fraction, exponent, fcs, ecs, hwhole, hfraction, hexponent, hn.1, by
          rw [hn.2]; simp only [List.append_assoc]⟩

theorem scanMagnitude_complete (negative : Bool) {whole fcs ecs : List Char} {fraction : Option (List Char)}
    {exponent : Option Int} (hw : Whole whole) (hf : Fraction fraction fcs) (hx : Exponent exponent ecs)
    {rest : List Char} (hr : NoNumber rest) :
    scanMagnitude negative (whole ++ (fcs ++ ecs) ++ rest) =
      .ok (numeralOf negative whole fraction exponent, rest) := by
  obtain ⟨hd, hp⟩ := hx.noDigit hr
  have h1 := scanWhole_complete hw (hf.noDigit hd)
  have h2 := scanFraction_complete hf hd hp
  have h3 := scanExponent_complete hx hr
  simp only [List.append_assoc]
  unfold scanMagnitude
  simp only [bind, Except.bind, h1, h2, h3]
  rfl

/-! ## Scalars -/

/-- The text of a value that is no array or object. -/
inductive Scalar : Tree → List Char → Prop
  | null : Scalar .null ['n', 'u', 'l', 'l']
  | true_ : Scalar (.bool true) ['t', 'r', 'u', 'e']
  | false_ : Scalar (.bool false) ['f', 'a', 'l', 's', 'e']
  | string {body : List Char} {ps : List Piece} : Quoted body ps →
      Scalar (.string ((joinPieces none ps).map String.ofList)) ('"' :: (body ++ ['"']))
  | number {n : Numeral} {cs : List Char} : Number n cs → Scalar (.number n) cs

theorem scanString_sound {cs rest : List Char} {t : Tree} (h : scanString cs = (t, .ok rest)) :
    ∃ body, cs = body ++ '"' :: rest ∧ Scalar t ('"' :: (body ++ ['"'])) := by
  unfold scanString at h
  split at h
  · rename_i ps r hps
    cases h
    obtain ⟨body, hcs, hb⟩ := scanPieces_sound cs hps
    exact ⟨body, hcs, .string hb⟩
  · cases h

theorem scanString_complete {body : List Char} {ps : List Piece} (h : Quoted body ps) (rest : List Char) :
    scanString (body ++ '"' :: rest) = (.string ((joinPieces none ps).map String.ofList), .ok rest) := by
  unfold scanString
  rw [scanPieces_complete h rest]

theorem scanNumber_sound {cs rest : List Char} {t : Tree} (h : scanNumber cs = (t, .ok rest)) :
    ∃ text, Scalar t text ∧ cs = text ++ rest := by
  unfold scanNumber at h
  simp only at h
  split at h
  · rename_i n r hn
    cases h
    split at hn
    · obtain ⟨whole, fraction, exponent, fcs, ecs, hw, hf, hx, rfl, rfl⟩ := scanMagnitude_sound hn
      exact ⟨_, .number (.mk hw hf hx), by simp only [if_true, List.cons_append, List.nil_append]⟩
    · obtain ⟨whole, fraction, exponent, fcs, ecs, hw, hf, hx, rfl, rfl⟩ := scanMagnitude_sound hn
      exact ⟨_, .number (.mk hw hf hx), by simp⟩
  · cases h

/-- A digit is none of the characters that scanners tell values apart by. -/
theorem ne_of_isDigit {c d : Char} (hc : c.isDigit = true) (hd : d.isDigit = false) : c ≠ d := by
  rintro rfl
  rw [hc] at hd
  cases hd

theorem Whole.cons {ds : List Char} (h : Whole ds) : ∃ d ds', ds = d :: ds' ∧ d.isDigit = true := by
  cases ds with
  | nil => exact absurd rfl h.1.1
  | cons d ds' => exact ⟨d, ds', rfl, h.1.2 d List.mem_cons_self⟩

theorem scanNumber_complete {n : Numeral} {text : List Char} (h : Number n text) {rest : List Char}
    (hr : NoNumber rest) : scanNumber (text ++ rest) = (.number n, .ok rest) := by
  obtain @⟨negative, whole, fcs, ecs, fraction, exponent, hw, hf, hx⟩ := h
  have hm := scanMagnitude_complete negative hw hf hx hr
  unfold scanNumber
  cases negative with
  | true => simp only [if_true, List.cons_append, List.nil_append, hm]
  | false =>
    obtain ⟨d, ds, rfl, hd⟩ := hw.cons
    have hminus : d ≠ '-' := ne_of_isDigit hd rfl
    simp only [Bool.false_eq_true, if_false, List.nil_append, List.cons_append] at hm ⊢
    split
    · rename_i heq
      split at heq
      · rename_i heq'; cases heq'; exact absurd rfl hminus
      · rw [hm] at heq; cases heq; rfl
    · rename_i heq
      split at heq
      · rename_i heq'; cases heq'; exact absurd rfl hminus
      · rw [hm] at heq; cases heq

theorem Number.cons {n : Numeral} {text : List Char} (h : Number n text) :
    ∃ c cs, text = c :: cs ∧ (c = '-' ∨ c.isDigit = true) := by
  obtain @⟨negative, whole, fcs, ecs, fraction, exponent, hw, hf, hx⟩ := h
  obtain ⟨d, ds, rfl, hd⟩ := hw.cons
  cases negative with
  | true => exact ⟨_, _, rfl, .inl rfl⟩
  | false => exact ⟨_, _, rfl, .inr hd⟩

/-- The characters that numbers are made of. -/
def InNumber (c : Char) : Prop := c.isDigit = true ∨ c ∈ ['-', '+', '.', 'e', 'E']

theorem Fraction.inNumber {f : Option (List Char)} {text : List Char} (h : Fraction f text) :
    ∀ c ∈ text, InNumber c := by
  cases h with
  | absent => exact fun _ h => nomatch h
  | present hds => exact List.forall_mem_cons.2 ⟨.inr (by decide), fun c hc => .inl (hds.2 c hc)⟩

theorem Exponent.inNumber {x : Option Int} {text : List Char} (h : Exponent x text) : ∀ c ∈ text, InNumber c := by
  cases h with
  | absent => exact fun _ h => nomatch h
  | @present e _ sign ds he hsign hds =>
    have hs : ∀ c ∈ ds, InNumber c := fun c hc => .inl (hds.2 c hc)
    have he' : InNumber e := by
      rcases he with rfl | rfl
      · exact .inr (by decide)
      · exact .inr (by decide)
    cases hsign with
    | absent => exact List.forall_mem_cons.2 ⟨he', hs⟩
    | plus | minus => exact List.forall_mem_cons.2 ⟨he', List.forall_mem_cons.2 ⟨.inr (by decide), hs⟩⟩

theorem Number.inNumber {n : Numeral} {text : List Char} (h : Number n text) : ∀ c ∈ text, InNumber c := by
  obtain @⟨negative, whole, fcs, ecs, fraction, exponent, hw, hf, hx⟩ := h
  have hrest : ∀ c ∈ whole ++ (fcs ++ ecs), InNumber c := by
    intro c hc
    simp only [List.mem_append] at hc
    rcases hc with hc | hc | hc
    · exact .inl (hw.1.2 c hc)
    · exact hf.inNumber c hc
    · exact hx.inNumber c hc
  cases negative with
  | true => exact List.forall_mem_cons.2 ⟨.inr (by decide), hrest⟩
  | false => exact hrest

/-- The scanner of scalars takes nothing but scalars. -/
theorem scanScalar_sound {cs rest : List Char} {t : Tree} (h : scanScalar cs = (t, .ok rest)) :
    ∃ text, Scalar t text ∧ cs = text ++ rest := by
  unfold scanScalar at h
  split at h
  · cases h
  · obtain ⟨body, hcs, hs⟩ := scanString_sound h
    exact ⟨_, hs, by rw [hcs]; simp only [List.cons_append, List.append_assoc, List.nil_append]⟩
  · obtain ⟨rfl, rfl⟩ := scanNamed_ok h
    exact ⟨_, .null, rfl⟩
  · obtain ⟨rfl, rfl⟩ := scanNamed_ok h
    exact ⟨_, .true_, rfl⟩
  · obtain ⟨rfl, rfl⟩ := scanNamed_ok h
    exact ⟨_, .false_, rfl⟩
  · split at h
    · exact scanNumber_sound h
    · cases h

/-- The scanner of scalars takes every scalar that what follows does not make longer. -/
theorem scanScalar_complete {t : Tree} {text : List Char} (h : Scalar t text) {rest : List Char} (hr : Ends rest) :
    scanScalar (text ++ rest) = (t, .ok rest) := by
  cases h with
  | null | true_ | false_ => rfl
  | string hb =>
    simp only [List.cons_append, List.append_assoc, List.nil_append, scanScalar, scanString_complete hb]
  | number hn =>
    obtain ⟨c, cs, rfl, hc⟩ := hn.cons
    have hm := scanNumber_complete hn hr.noNumber
    rw [List.cons_append] at hm ⊢
    have hne : ∀ d : Char, d ≠ '-' → d.isDigit = false → c ≠ d := by
      intro d h1 h2
      rcases hc with rfl | hc
      · exact fun h => h1 h.symm
      · exact ne_of_isDigit hc h2
    unfold scanScalar
    split
    · rename_i heq; cases heq
    · rename_i heq; cases heq; exact absurd rfl (hne '"' (by decide) rfl)
    · rename_i heq; cases heq; exact absurd rfl (hne 'n' (by decide) rfl)
    · rename_i heq; cases heq; exact absurd rfl (hne 't' (by decide) rfl)
    · rename_i heq; cases heq; exact absurd rfl (hne 'f' (by decide) rfl)
    · rename_i heq; cases heq; rw [if_pos hc, hm]

end CoveragePages.Json
