/-
The scanners of data scripts on characters. The program scans the UTF-8 bytes that are left; here
each scanner is given on the characters that are left, and shown to leave the bytes of exactly
those. So no scanner stops inside a character, and what follows argues about characters alone.
-/
import CoveragePages.Json.Scan
import CoveragePages.Proofs.Text.Bytes
import CoveragePages.Script.Scan

namespace CoveragePages.Script

open Text

/-! ## Single bytes -/

theorem byte_eq_iff {c x : Char} (hc : c.toNat < 128) (hx : x.toNat < 128) : byte c = byte x ↔ c = x := by
  obtain ⟨b, bs, hb, heq⟩ := bytes_cons_eq c []
  rw [bytes_cons_ascii hc] at hb
  cases hb
  exact heq x hx

theorem ne_byte {b : UInt8} (hb : 128 ≤ b.toNat) {x : Char} (hx : x.toNat < 128) : b ≠ byte x := by
  rintro rfl
  rw [byte, Nat.toUInt8, UInt8.toNat_ofNat', Nat.mod_eq_of_lt (by omega)] at hb
  omega

theorem isSpace_byte {c : Char} (hc : c.toNat < 128) : isSpace (byte c) = Json.isSpace c := by
  have h : ∀ x : Char, x.toNat < 128 → (byte c == byte x) = (c == x) := by
    intro x hx
    rw [Bool.eq_iff_iff, beq_iff_eq, beq_iff_eq, byte_eq_iff hc hx]
  rw [isSpace, Json.isSpace, h ' ' (by decide), h '\t' (by decide), h '\r' (by decide), h '\n' (by decide)]
  ac_rfl

theorem ascii_of_isSpace {c : Char} (hc : Json.isSpace c = true) : c.toNat < 128 := by
  simp only [Json.isSpace, Bool.or_eq_true, beq_iff_eq] at hc
  rcases hc with ((rfl | rfl) | rfl) | rfl <;> decide

theorem isSpace_high {b : UInt8} (hb : 128 ≤ b.toNat) : isSpace b = false := by
  simp only [isSpace, Bool.or_eq_false_iff, beq_eq_false_iff_ne]
  exact ⟨⟨⟨ne_byte hb (by decide), ne_byte hb (by decide)⟩, ne_byte hb (by decide)⟩, ne_byte hb (by decide)⟩

/-! ## Trivia -/

/-- `skipTriviaIn` on characters. -/
def pastTriviaIn : Trivia → List Char → List Char
  | _, [] => []
  | .space, [c] => if Json.isSpace c then [] else [c]
  | .space, c :: d :: rest =>
    if c = '/' ∧ d = '/' then pastTriviaIn .lineComment rest
    else if c = '/' ∧ d = '*' then pastTriviaIn .blockComment rest
    else if Json.isSpace c then pastTriviaIn .space (d :: rest)
    else c :: d :: rest
  | .lineComment, c :: rest => pastTriviaIn (if c = '\n' then .space else .lineComment) rest
  | .blockComment, [_] => []
  | .blockComment, c :: d :: rest =>
    if c = '*' ∧ d = '/' then pastTriviaIn .space rest else pastTriviaIn .blockComment (d :: rest)

/-- What is left after the trivia at the start, in characters. -/
def pastTrivia (cs : List Char) : List Char := pastTriviaIn .space cs

theorem skipTriviaIn_high {st : Trivia} (hst : st ≠ .space) {hs : List UInt8} (hhs : ∀ b ∈ hs, 128 ≤ b.toNat)
    (bs : List UInt8) : skipTriviaIn st (hs ++ bs) = skipTriviaIn st bs := by
  induction hs with
  | nil => rfl
  | cons h hs ih =>
    have hh := hhs h List.mem_cons_self
    have ih := ih fun b hb => hhs b (List.mem_cons_of_mem h hb)
    rw [← ih, List.cons_append]
    cases st with
    | space => exact absurd rfl hst
    | lineComment => rw [skipTriviaIn, if_neg (ne_byte hh (by decide))]
    | blockComment =>
      cases hs ++ bs with
      | nil => rfl
      | cons b rest => rw [skipTriviaIn, if_neg (fun h => ne_byte hh (by decide) h.1)]

/-- Between tokens, the byte scanner stops at a character that starts no trivia. -/
theorem skipTriviaIn_stop {c : Char} {rest : List Char} (hspace : Json.isSpace c = false)
    (hslash : ∀ d r, rest = d :: r → c = '/' → d ≠ '/' ∧ d ≠ '*') :
    skipTriviaIn .space (bytes (c :: rest)) = bytes (c :: rest) := by
  by_cases hc : c.toNat < 128
  · have hs : ¬ isSpace (byte c) = true := by rw [isSpace_byte hc, hspace]; decide
    have hb : bytes (c :: rest) = byte c :: bytes rest := bytes_cons_ascii hc rest
    rw [hb]
    cases rest with
    | nil => rw [bytes_nil, skipTriviaIn, if_neg hs]
    | cons d r =>
      obtain ⟨b, bs, hb, heq⟩ := bytes_cons_eq d r
      have hcd : ∀ x : Char, x.toNat < 128 → (x = '/' ∨ x = '*') → ¬ (byte c = byte '/' ∧ b = byte x) := by
        rintro x hx hx' ⟨h1, h2⟩
        have hd := hslash d r rfl ((byte_eq_iff hc (by decide)).1 h1)
        rcases hx' with rfl | rfl
        · exact hd.1 ((heq _ hx).1 h2)
        · exact hd.2 ((heq _ hx).1 h2)
      rw [hb, skipTriviaIn, if_neg (hcd '/' (by decide) (.inl rfl)), if_neg (hcd '*' (by decide) (.inr rfl)), if_neg hs]
  · obtain ⟨b, b', bs, hb, hhigh⟩ := bytes_cons_high (Nat.le_of_not_lt hc) rest
    have hbh := hhigh b List.mem_cons_self
    rw [hb, List.cons_append, List.cons_append, skipTriviaIn, if_neg (fun h => ne_byte hbh (by decide) h.1),
      if_neg (fun h => ne_byte hbh (by decide) h.1), if_neg (by rw [isSpace_high hbh]; decide)]

/-- Inside a comment, the byte scanner passes over a character that does not close it. -/
theorem skipTriviaIn_pass (st : Trivia) (hst : st ≠ .space) {c : Char} {rest : List Char}
    (hline : st = .lineComment → c ≠ '\n') (hblock : st = .blockComment → ∀ r, rest = '/' :: r → c ≠ '*') :
    skipTriviaIn st (bytes (c :: rest)) = skipTriviaIn st (bytes rest) := by
  by_cases hc : c.toNat < 128
  · have hb : bytes (c :: rest) = byte c :: bytes rest := bytes_cons_ascii hc rest
    rw [hb]
    cases st with
    | space => exact absurd rfl hst
    | lineComment => rw [skipTriviaIn, if_neg (fun h => hline rfl ((byte_eq_iff hc (by decide)).1 h))]
    | blockComment =>
      cases rest with
      | nil => rfl
      | cons d r =>
        obtain ⟨b, bs, hb, heq⟩ := bytes_cons_eq d r
        rw [hb, skipTriviaIn, if_neg]
        rintro ⟨h1, h2⟩
        have hd := (heq '/' (by decide)).1 h2
        exact hblock rfl r (by rw [hd]) ((byte_eq_iff hc (by decide)).1 h1)
  · obtain ⟨b, b', bs, hb, hhigh⟩ := bytes_cons_high (Nat.le_of_not_lt hc) rest
    rw [hb, skipTriviaIn_high hst hhigh]

theorem skipTriviaIn_bytes (st : Trivia) (cs : List Char) :
    skipTriviaIn st (bytes cs) = bytes (pastTriviaIn st cs) := by
  fun_induction pastTriviaIn st cs with
  | case1 st => cases st <;> rfl
  | case2 c hc =>
    have ha := ascii_of_isSpace hc
    rw [bytes_cons_ascii ha]
    exact if_pos ((isSpace_byte ha).trans hc)
  | case3 c hc => exact skipTriviaIn_stop (Bool.eq_false_iff.2 hc) (fun _ _ h => nomatch h)
  | case4 c d rest h ih =>
    rw [h.1, h.2, bytes_cons_ascii (by decide), bytes_cons_ascii (by decide), ← ih]
    exact if_pos ⟨rfl, rfl⟩
  | case5 c d rest h1 h2 ih =>
    rw [h2.1, h2.2, bytes_cons_ascii (by decide), bytes_cons_ascii (by decide), ← ih]
    exact (if_neg (by decide)).trans (if_pos ⟨rfl, rfl⟩)
  | case6 c d rest h1 h2 hc ih =>
    -- white space; `d` may take several bytes
    have ha := ascii_of_isSpace hc
    obtain ⟨b, bs, hb, heq⟩ := bytes_cons_eq d rest
    have hslash : ¬ byte c = byte '/' := by
      rw [byte_eq_iff ha (by decide)]
      rintro rfl
      cases hc
    have hcons : bytes (c :: d :: rest) = byte c :: bytes (d :: rest) := bytes_cons_ascii ha _
    rw [hcons, hb, skipTriviaIn, if_neg (fun h => hslash h.1), if_neg (fun h => hslash h.1),
      if_pos ((isSpace_byte ha).trans hc), ← hb, ih]
  | case7 c d rest h1 h2 hc =>
    refine skipTriviaIn_stop (Bool.eq_false_iff.2 hc) fun d' r heq hslash => ?_
    cases heq
    exact ⟨fun h => h1 ⟨hslash, h⟩, fun h => h2 ⟨hslash, h⟩⟩
  | case8 c rest ih =>
    -- in a line comment, only its newline is looked for
    by_cases hc : c = '\n'
    · rw [if_pos hc] at ih
      rw [hc, if_pos rfl, bytes_cons_ascii (by decide), ← ih, skipTriviaIn]
      exact congrArg (skipTriviaIn · (bytes rest)) (if_pos rfl)
    · rw [if_neg hc] at ih
      rw [if_neg hc, skipTriviaIn_pass .lineComment (by decide) (fun _ => hc) (by intro h; cases h), ih]
  | case9 c => exact skipTriviaIn_pass .blockComment (by decide) (by intro h; cases h) (fun _ _ h => nomatch h)
  | case10 c d rest h ih =>
    rw [h.1, h.2, bytes_cons_ascii (by decide), bytes_cons_ascii (by decide), ← ih]
    exact if_pos ⟨rfl, rfl⟩
  | case11 c d rest h ih =>
    rw [skipTriviaIn_pass .blockComment (by decide) (by intro h; cases h), ih]
    intro _ r heq hc
    cases heq
    exact h ⟨hc, rfl⟩

theorem skipTrivia_bytes (cs : List Char) : skipTrivia (bytes cs) = bytes (pastTrivia cs) :=
  skipTriviaIn_bytes .space cs

/-! ## Names -/

/-- Whether a character can start a name. -/
def startsName (c : Char) : Bool := c == '_' || c == '$' || c.isAlpha

/-- Whether a character can stand in a name after its start. -/
def continuesName (c : Char) : Bool := startsName c || c.isDigit

/-- What is left after the name at the start, in characters. -/
def pastName : List Char → List Char
  | [] => []
  | c :: rest => if startsName c then rest.dropWhile continuesName else c :: rest

theorem byte_toNat {c : Char} (hc : c.toNat < 128) : (byte c).toNat = c.toNat := by
  rw [byte, Nat.toUInt8, UInt8.toNat_ofNat', Nat.mod_eq_of_lt (by omega)]

theorem byte_between {lo hi c : Char} (hlo : lo.toNat < 128) (hhi : hi.toNat < 128) (hc : c.toNat < 128) :
    (byte lo ≤ byte c && byte c ≤ byte hi) = (c.val ≥ lo.val && c.val ≤ hi.val) := by
  have h : ∀ {a b : Char}, a.toNat < 128 → b.toNat < 128 → (byte a ≤ byte b ↔ a.val ≤ b.val) := by
    intro a b ha hb
    rw [UInt8.le_iff_toNat_le, UInt32.le_iff_toNat_le, byte_toNat ha, byte_toNat hb]
    rfl
  simp only [h hlo hc, h hc hhi, ge_iff_le]

/-- Letters are two ranges of code points. -/
theorem startsName_eq (c : Char) : startsName c =
    (c == '_' || c == '$' || (decide (c.val ≥ 'A'.val ∧ c.val ≤ 'Z'.val) || (c.val ≥ 'a'.val && c.val ≤ 'z'.val))) :=
      rfl

theorem isNameStart_byte {c : Char} (hc : c.toNat < 128) : isNameStart (byte c) = startsName c := by
  have h : ∀ x : Char, x.toNat < 128 → (byte c == byte x) = (c == x) := by
    intro x hx
    rw [Bool.eq_iff_iff, beq_iff_eq, beq_iff_eq, byte_eq_iff hc hx]
  rw [isNameStart, h '_' (by decide), h '$' (by decide), byte_between (by decide) (by decide) hc,
    byte_between (by decide) (by decide) hc, startsName_eq, Bool.decide_and]
  ac_rfl

theorem isNamePart_byte {c : Char} (hc : c.toNat < 128) : isNamePart (byte c) = continuesName c := by
  rw [isNamePart, isNameStart_byte hc, byte_between (by decide) (by decide) hc]
  rfl

theorem isNamePart_high {b : UInt8} (hb : 128 ≤ b.toNat) : isNamePart b = false ∧ isNameStart b = false := by
  have hlt : ∀ {x : Char}, x.toNat < 128 → ¬ b ≤ byte x := by
    intro x hx h
    rw [UInt8.le_iff_toNat_le, byte_toNat hx] at h
    omega
  have hne : ∀ {x : Char}, x.toNat < 128 → (b == byte x) = false := by
    intro x hx
    exact beq_eq_false_iff_ne.2 (ne_byte hb hx)
  have hstart : isNameStart b = false := by
    rw [isNameStart, hne (by decide), hne (by decide), decide_eq_false (hlt (x := 'z') (by decide)),
      decide_eq_false (hlt (x := 'Z') (by decide)), Bool.and_false, Bool.and_false]
    rfl
  refine ⟨?_, hstart⟩
  rw [isNamePart, hstart, decide_eq_false (hlt (x := '9') (by decide)), Bool.and_false]
  rfl

theorem ascii_of_continuesName {c : Char} (hc : continuesName c = true) : c.toNat < 128 := by
  have hle : ∀ {x : Char}, x.toNat < 128 → c.val ≤ x.val → c.toNat < 128 :=
    fun hx h => Nat.lt_of_le_of_lt (UInt32.le_iff_toNat_le.1 h) hx
  simp only [continuesName, startsName_eq, Char.isDigit, Bool.or_eq_true, beq_iff_eq, Bool.and_eq_true,
    decide_eq_true_eq] at hc
  rcases hc with ((rfl | rfl) | h | h) | h
  · decide
  · decide
  · exact hle (by decide) h.2
  · exact hle (by decide) h.2
  · exact hle (by decide) h.2

theorem skipName_bytes (cs : List Char) : skipName (bytes cs) = bytes (pastName cs) := by
  have hpart : ∀ cs, (bytes cs).dropWhile isNamePart = bytes (cs.dropWhile continuesName) := by
    intro cs
    induction cs with
    | nil => rfl
    | cons c cs ih =>
      by_cases hc : c.toNat < 128
      · have hb : bytes (c :: cs) = byte c :: bytes cs := bytes_cons_ascii hc cs
        rw [List.dropWhile_cons, hb, List.dropWhile_cons, isNamePart_byte hc, ih]
        split
        · rfl
        · exact hb.symm
      · obtain ⟨b, b', bs, hb, hhigh⟩ := bytes_cons_high (Nat.le_of_not_lt hc) cs
        have hn : ¬ continuesName c = true := fun h => hc (ascii_of_continuesName h)
        rw [List.dropWhile_cons_of_neg hn, hb, List.cons_append, List.dropWhile_cons_of_neg]
        rw [(isNamePart_high (hhigh b List.mem_cons_self)).1]
        decide
  cases cs with
  | nil => rfl
  | cons c cs =>
    by_cases hc : c.toNat < 128
    · have hb : bytes (c :: cs) = byte c :: bytes cs := bytes_cons_ascii hc cs
      rw [hb, skipName, pastName, isNameStart_byte hc, hpart]
      split
      · rfl
      · exact hb.symm
    · obtain ⟨b, b', bs, hb, hhigh⟩ := bytes_cons_high (Nat.le_of_not_lt hc) cs
      have hn : ¬ startsName c = true := fun h => hc (ascii_of_continuesName (by rw [continuesName, h]; rfl))
      rw [pastName, if_neg hn, hb, List.cons_append, skipName, (isNamePart_high (hhigh b List.mem_cons_self)).2]
      rfl

/-! ## Values -/

/-- `depthAfter` for a character. -/
def depthPast (depth : Nat) (c : Char) : Nat :=
  if c = '[' ∨ c = '\x7b' then depth + 1 else if c = ']' ∨ c = '\x7d' then depth - 1 else depth

/-- `skipValueIn` on characters. -/
def pastValueIn : Quoting → Nat → List Char → Option (List Char)
  | .outside, 0, [] => some []
  | _, _, [] => none
  | .outside, depth, c :: rest =>
    if c = ';' ∧ depth = 0 then some (c :: rest)
    else pastValueIn (Quoting.outside.next c.toNat) (depthPast depth c) rest
  | quoting, depth, c :: rest => pastValueIn (quoting.next c.toNat) depth rest

/-- What is left from the end of the value at the start on, in characters. -/
def pastValue? (cs : List Char) : Option (List Char) := pastValueIn .outside 0 cs

theorem depthAfter_byte {c : Char} (hc : c.toNat < 128) (depth : Nat) :
    depthAfter depth (byte c) = depthPast depth c := by
  simp only [depthAfter, depthPast, byte_eq_iff hc (x := '[') (by decide), byte_eq_iff hc (x := '\x7b') (by decide),
    byte_eq_iff hc (x := ']') (by decide), byte_eq_iff hc (x := '\x7d') (by decide)]

theorem depthAfter_high {b : UInt8} (hb : 128 ≤ b.toNat) (depth : Nat) : depthAfter depth b = depth := by
  rw [depthAfter, if_neg, if_neg]
  · exact fun h => h.elim (ne_byte hb (by decide)) (ne_byte hb (by decide))
  · exact fun h => h.elim (ne_byte hb (by decide)) (ne_byte hb (by decide))

/-- Outside strings and inside them, a byte above ASCII changes nothing. -/
theorem next_high {q : Quoting} (hq : q ≠ .escaped) {n : Nat} (hn : 128 ≤ n) : q.next n = q := by
  have hquote : n ≠ '"'.toNat := by rintro rfl; exact absurd hn (by decide)
  have hslash : n ≠ '\\'.toNat := by rintro rfl; exact absurd hn (by decide)
  cases q with
  | outside => exact if_neg hquote
  | inside => exact (if_neg hslash).trans (if_neg hquote)
  | escaped => exact absurd rfl hq

theorem skipValueIn_high {q : Quoting} (hq : q ≠ .escaped) (depth : Nat) {hs : List UInt8}
    (hhs : ∀ b ∈ hs, 128 ≤ b.toNat) (bs : List UInt8) : skipValueIn q depth (hs ++ bs) = skipValueIn q depth bs := by
  induction hs with
  | nil => rfl
  | cons h hs ih =>
    have hh := hhs h List.mem_cons_self
    have ih := ih fun b hb => hhs b (List.mem_cons_of_mem h hb)
    have hnext := next_high hq hh
    rw [← ih, List.cons_append]
    cases q with
    | outside => rw [skipValueIn, if_neg (fun h => ne_byte hh (by decide) h.1), hnext, depthAfter_high hh]
    | inside => rw [skipValueIn, hnext]; exact fun h => nomatch h
    | escaped => exact absurd rfl hq

theorem skipValueIn_bytes (q : Quoting) (depth : Nat) (cs : List Char) :
    skipValueIn q depth (bytes cs) = (pastValueIn q depth cs).map bytes := by
  induction cs generalizing q depth with
  | nil => cases q <;> cases depth <;> rfl
  | cons c cs ih =>
    by_cases hc : c.toNat < 128
    · have hb : bytes (c :: cs) = byte c :: bytes cs := bytes_cons_ascii hc cs
      rw [hb]
      cases q with
      | outside =>
        have hsemi : byte c = byte ';' ↔ c = ';' := byte_eq_iff hc (by decide)
        rw [skipValueIn, pastValueIn, byte_toNat hc, depthAfter_byte hc, ih]
        simp only [hsemi]
        split
        · rw [Option.map_some, hb]
        · rfl
      | inside | escaped =>
        rw [skipValueIn, pastValueIn, byte_toNat hc, ih]
        · exact fun h => nomatch h
        · exact fun h => nomatch h
    · obtain ⟨b, b', bs, hb, hhigh⟩ := bytes_cons_high (Nat.le_of_not_lt hc) cs
      have hsemi : c ≠ ';' := by rintro rfl; exact hc (by decide)
      have hdepth : depthPast depth c = depth := by
        rw [depthPast, if_neg, if_neg]
        · rintro (rfl | rfl) <;> exact hc (by decide)
        · rintro (rfl | rfl) <;> exact hc (by decide)
      rw [hb]
      cases q with
      | outside =>
        rw [skipValueIn_high (by decide) depth hhigh, pastValueIn, if_neg (fun h => hsemi h.1), hdepth,
          next_high (by decide) (Nat.le_of_not_lt hc), ih]
      | inside =>
        rw [skipValueIn_high (by decide) depth hhigh, pastValueIn, next_high (by decide) (Nat.le_of_not_lt hc), ih]
        exact fun h => nomatch h
      | escaped =>
        -- the first byte is the hidden one; the others are passed over inside the string
        rw [List.cons_append, skipValueIn, pastValueIn]
        · exact (skipValueIn_high (q := .inside) (by decide) depth (fun x hx => hhigh x (List.mem_cons_of_mem b hx))
            (bytes cs)).trans (ih .inside depth)
        · exact fun h => nomatch h
        · exact fun h => nomatch h

theorem skipValue?_bytes (cs : List Char) : skipValue? (bytes cs) = (pastValue? cs).map bytes :=
  skipValueIn_bytes .outside 0 cs

/-! ## What is left is a suffix -/

theorem pastTriviaIn_suffix (st : Trivia) (cs : List Char) : pastTriviaIn st cs <:+ cs := by
  fun_induction pastTriviaIn st cs with
  | case1 | case3 | case7 => exact List.suffix_refl _
  | case2 | case9 => exact List.nil_suffix
  | case4 c d rest _ ih | case5 c d rest _ _ ih | case10 c d rest _ ih =>
    exact ih.trans ((List.suffix_cons d rest).trans (List.suffix_cons c (d :: rest)))
  | case6 c d rest _ _ _ ih | case11 c d rest _ ih => exact ih.trans (List.suffix_cons c (d :: rest))
  | case8 c rest ih => exact ih.trans (List.suffix_cons c rest)

theorem pastTrivia_suffix (cs : List Char) : pastTrivia cs <:+ cs := pastTriviaIn_suffix .space cs

theorem pastName_suffix (cs : List Char) : pastName cs <:+ cs := by
  unfold pastName
  split
  · exact List.suffix_refl _
  · split
    · exact (List.dropWhile_suffix _).trans (List.suffix_cons _ _)
    · exact List.suffix_refl _

theorem pastValueIn_suffix {q : Quoting} {depth : Nat} {cs rest : List Char} (h : pastValueIn q depth cs = some rest) :
    rest <:+ cs := by
  fun_induction pastValueIn q depth cs with
  | case1 => cases h; exact List.suffix_refl _
  | case2 => cases h
  | case3 depth c cs hc => cases h; exact List.suffix_refl _
  | case4 depth c cs hc ih => exact (ih h).trans (List.suffix_cons c cs)
  | case5 q depth c cs hq ih => exact (ih h).trans (List.suffix_cons c cs)

theorem pastValue?_suffix {cs rest : List Char} (h : pastValue? cs = some rest) : rest <:+ cs := pastValueIn_suffix h

end CoveragePages.Script
