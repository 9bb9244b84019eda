/-
The scanners of data scripts as loops over byte positions. Every read of a byte is checked, and a loop
that goes on must move on: what fails either is a fault of its own. Each scanner is shown to run without
one, and to stop at the place the scanner on the bytes that are left stops at.
-/
import CoveragePages.Proofs.Script.Scan

namespace CoveragePages.Script

/-! ## Places -/

/-- The position at which the bytes that are left start. -/
def place (bs left : List UInt8) : Nat := bs.length - left.length

section Places

variable {bs left rest : List UInt8} {b : UInt8}

@[simp] theorem place_nil : place bs [] = bs.length := rfl

@[simp] theorem place_self : place bs bs = 0 := Nat.sub_self _

theorem place_le : place bs left ≤ bs.length := Nat.sub_le _ _

theorem place_cons (h : b :: rest <:+ bs) : place bs rest = place bs (b :: rest) + 1 := by
  have hle := h.length_le
  rw [List.length_cons] at hle
  rw [place, place, List.length_cons]
  omega

theorem place_cons_lt (h : b :: rest <:+ bs) : place bs (b :: rest) < bs.length := by
  have hle := h.length_le
  rw [List.length_cons] at hle
  rw [place, List.length_cons]
  omega

theorem place_lt_place (hleft : left <:+ bs) (hrest : rest.length < left.length) : place bs left < place bs rest := by
  have hle := hleft.length_le
  rw [place, place]
  omega

theorem getElem?_place (h : left <:+ bs) : bs[place bs left]? = left.head? := by
  obtain ⟨pre, rfl⟩ := h
  rw [place, List.length_append, Nat.add_sub_cancel, List.getElem?_append_right (Nat.le_refl _), Nat.sub_self,
    List.head?_eq_getElem?]

end Places

/-! ## Faults -/

/-- What a reading by positions must never come to. -/
inductive Fault where
  /-- A byte read outside the text. -/
  | byte (pos : Nat)
  /-- A slice that leaves the text or cuts a character. -/
  | slice (start stop : Nat)
  /-- A slice of a list of characters that starts after its end. -/
  | tail (start : Nat)
  /-- A loop that goes on where it has been, or outside the text. -/
  | stuck (pos : Nat)

/-- A computation all of whose reads are checked. -/
abbrev Checked := Except Fault

/-- The byte at a position. -/
def byteAt (bs : List UInt8) (pos : Nat) : Checked UInt8 :=
  match bs[pos]? with
  | some b => .ok b
  | none => .error (.byte pos)

theorem byteAt_place {bs rest : List UInt8} {b : UInt8} (h : b :: rest <:+ bs) :
    byteAt bs (place bs (b :: rest)) = .ok b := by
  rw [byteAt, getElem?_place h]
  rfl

/-! ## Loops -/

/-- What a round of a loop comes to. -/
inductive Round (σ α : Type) where
  | next (pos : Nat) (state : σ)
  | stop (result : α)

/-- Repeats a body from a position on until it stops. -/
def loop {σ α : Type} (size : Nat) (body : Nat → σ → Checked (Round σ α)) (pos : Nat) (state : σ) : Checked α :=
  match body pos state with
  | .error fault => .error fault
  | .ok (.stop result) => .ok result
  | .ok (.next pos' state') =>
    if _hmoves : pos < pos' ∧ pos' ≤ size then loop size body pos' state' else .error (.stuck pos)
termination_by size - pos

/-- A loop computes a function of the place it is at if at every place its body either stops with that function's
value, or goes on at a later place where the function has the same value. -/
theorem loop_eq {σ α ι : Type} {size : Nat} {body : Nat → σ → Checked (Round σ α)} (pos : ι → Nat) (Valid : ι → Prop)
    (result : ι → σ → α)
    (hround : ∀ i state, Valid i →
      body (pos i) state = .ok (.stop (result i state)) ∨
        ∃ j state', Valid j ∧ pos i < pos j ∧ pos j ≤ size ∧
          body (pos i) state = .ok (.next (pos j) state') ∧ result j state' = result i state)
    {i : ι} (hi : Valid i) (state : σ) : loop size body (pos i) state = .ok (result i state) := by
  induction hleft : size - pos i using Nat.strongRecOn generalizing i state with
  | ind n ih =>
    rw [loop]
    obtain hstop | ⟨j, state', hj, hmoves, hinside, hnext, hsame⟩ := hround i state hi
    · rw [hstop]
    · rw [hnext]
      simp only [dif_pos (And.intro hmoves hinside)]
      rw [ih (size - pos j) (by omega) hj state' rfl, hsame]

/-! ## Trivia -/

/-- One round of the search for the end of a line: the newline is not passed. -/
def lineEndRound (bs : List UInt8) (pos : Nat) (_ : Unit) : Checked (Round Unit Nat) := do
  if pos < bs.length then
    if (← byteAt bs pos) ≠ byte '\n' then return .next (pos + 1) () else return .stop pos
  else return .stop pos

/-- The next newline from a position on, or the end of the text. -/
def lineEndAt (bs : List UInt8) (pos : Nat) : Checked Nat := loop bs.length (lineEndRound bs) pos ()

/-- One round of the search for a star and a slash. The second byte is read only after a star. -/
def blockEndRound (bs : List UInt8) (pos : Nat) (_ : Unit) : Checked (Round Unit Nat) := do
  if pos + 1 < bs.length then
    if (← byteAt bs pos) = byte '*' then
      if (← byteAt bs (pos + 1)) = byte '/' then return .stop pos else return .next (pos + 1) ()
    else return .next (pos + 1) ()
  else return .stop pos

/-- The next star and slash from a position on, or where there is no room for them. -/
def blockEndAt (bs : List UInt8) (pos : Nat) : Checked Nat := loop bs.length (blockEndRound bs) pos ()

/-- One round of skipping trivia: a white space, or a whole comment. -/
def triviaRound (bs : List UInt8) (pos : Nat) (_ : Unit) : Checked (Round Unit Nat) := do
  if pos < bs.length then
    let b ← byteAt bs pos
    if isSpace b then return .next (pos + 1) ()
    else if b = byte '/' ∧ bs[pos + 1]? = some (byte '/') then return .next (← lineEndAt bs pos) ()
    else if b = byte '/' ∧ bs[pos + 1]? = some (byte '*') then
      return .next (min ((← blockEndAt bs (pos + 2)) + 2) bs.length) ()
    else return .stop pos
  else return .stop pos

/-- The end of the trivia at a position. -/
def triviaEndAt (bs : List UInt8) (pos : Nat) : Checked Nat := loop bs.length (triviaRound bs) pos ()

/-- What is left from the end of the line on. -/
def fromLineEnd (left : List UInt8) : List UInt8 := left.dropWhile (· ≠ byte '\n')

/-- What is left from the next star and slash on, or from the last byte on if there are none. -/
def fromBlockEnd : List UInt8 → List UInt8
  | [] => []
  | [b] => [b]
  | b :: c :: rest => if b = byte '*' ∧ c = byte '/' then b :: c :: rest else fromBlockEnd (c :: rest)

section Trivia

variable {bs left : List UInt8}

theorem lineEndAt_place (h : left <:+ bs) : lineEndAt bs (place bs left) = .ok (place bs (fromLineEnd left)) := by
  refine loop_eq (place bs) (· <:+ bs) (fun left _ => place bs (fromLineEnd left)) ?_ h ()
  rintro (_ | ⟨b, rest⟩) - h
  · left
    simp [lineEndRound, fromLineEnd, pure, Except.pure]
  · simp only [lineEndRound, if_pos (place_cons_lt h), byteAt_place h, bind, Except.bind, pure, Except.pure]
    by_cases hb : b = byte '\n'
    · left
      simp [hb, fromLineEnd]
    · right
      refine ⟨rest, (), (List.suffix_cons b rest).trans h, place_lt_place h (Nat.lt_succ_self _), place_le, ?_, ?_⟩
      · rw [if_pos hb, place_cons h]
      · simp [hb, fromLineEnd]

theorem blockEndAt_place (h : left <:+ bs) : blockEndAt bs (place bs left) = .ok (place bs (fromBlockEnd left)) := by
  refine loop_eq (place bs) (· <:+ bs) (fun left _ => place bs (fromBlockEnd left)) ?_ h ()
  rintro (_ | ⟨b, _ | ⟨c, rest⟩⟩) - h
  · left
    rw [blockEndRound, place_nil, if_neg (by omega)]
    rfl
  · left
    have hlast : ¬ place bs [b] + 1 < bs.length := by rw [← place_cons h]; exact Nat.lt_irrefl _
    rw [blockEndRound, if_neg hlast]
    rfl
  · have hnext := (List.suffix_cons b (c :: rest)).trans h
    simp only [blockEndRound, byteAt_place h, ← place_cons h, if_pos (place_cons_lt hnext), byteAt_place hnext, bind,
      Except.bind, pure, Except.pure]
    by_cases hclose : b = byte '*' ∧ c = byte '/'
    · left
      rw [if_pos hclose.1, if_pos hclose.2, fromBlockEnd, if_pos hclose]
    · right
      refine ⟨c :: rest, (), hnext, place_lt_place h (Nat.lt_succ_self _), place_le, ?_,
        by rw [fromBlockEnd, if_neg hclose]⟩
      split
      · rename_i hstar
        rw [if_neg fun hslash => hclose ⟨hstar, hslash⟩]
      · rfl

/-- A step over two bytes that is clamped at the end of the text. -/
theorem place_drop (h : left <:+ bs) : min (place bs left + 2) bs.length = place bs (left.drop 2) := by
  have hle := h.length_le
  rw [place, place, List.length_drop]
  omega

theorem skipTriviaIn_lineComment (left : List UInt8) :
    skipTriviaIn .lineComment left = skipTriviaIn .space (fromLineEnd left) := by
  induction left with
  | nil => rfl
  | cons b rest ih =>
    by_cases hb : b = byte '\n'
    · rw [skipTriviaIn, if_pos hb, fromLineEnd, List.dropWhile_cons_of_neg (by simp [hb]), hb]
      cases rest <;> rfl
    · rw [skipTriviaIn, if_neg hb, ih, fromLineEnd, fromLineEnd, List.dropWhile_cons_of_pos (by simp [hb])]

theorem skipTriviaIn_blockComment (left : List UInt8) :
    skipTriviaIn .blockComment left = skipTriviaIn .space ((fromBlockEnd left).drop 2) := by
  fun_induction fromBlockEnd left with
  | case1 | case2 => rfl
  | case3 b c rest h => rw [skipTriviaIn, if_pos h]; rfl
  | case4 b c rest h ih => rw [skipTriviaIn, if_neg h, ih]

theorem fromLineEnd_suffix (left : List UInt8) : fromLineEnd left <:+ left := List.dropWhile_suffix _

theorem fromBlockEnd_suffix (left : List UInt8) : fromBlockEnd left <:+ left := by
  fun_induction fromBlockEnd left with
  | case1 | case2 | case3 => exact List.suffix_refl _
  | case4 b c rest h ih => exact ih.trans (List.suffix_cons b (c :: rest))

theorem skipTrivia_space {b : UInt8} (hb : isSpace b = true) (rest : List UInt8) :
    skipTrivia (b :: rest) = skipTrivia rest := by
  have hslash : b ≠ byte '/' := by rintro rfl; exact absurd hb (by decide)
  cases rest with
  | nil => exact if_pos hb
  | cons c rest => rw [skipTrivia, skipTriviaIn, if_neg fun h => hslash h.1, if_neg fun h => hslash h.1, if_pos hb]; rfl

theorem skipTrivia_line (rest : List UInt8) :
    skipTrivia (byte '/' :: byte '/' :: rest) = skipTrivia (fromLineEnd rest) := by
  rw [skipTrivia, skipTriviaIn, if_pos ⟨rfl, rfl⟩, skipTriviaIn_lineComment]
  rfl

theorem skipTrivia_block (rest : List UInt8) :
    skipTrivia (byte '/' :: byte '*' :: rest) = skipTrivia ((fromBlockEnd rest).drop 2) := by
  rw [skipTrivia, skipTriviaIn, if_neg (by decide), if_pos ⟨rfl, rfl⟩, skipTriviaIn_blockComment]
  rfl

/-- The trivia ends at a byte that is no white space and starts no comment. -/
theorem skipTrivia_stop {b : UInt8} {rest : List UInt8} (hspace : ¬ isSpace b = true)
    (hline : ¬ (b = byte '/' ∧ rest.head? = some (byte '/')))
    (hblock : ¬ (b = byte '/' ∧ rest.head? = some (byte '*'))) : skipTrivia (b :: rest) = b :: rest := by
  cases rest with
  | nil => exact if_neg hspace
  | cons c rest =>
    rw [List.head?_cons, Option.some_inj] at hline hblock
    rw [skipTrivia, skipTriviaIn, if_neg hline, if_neg hblock, if_neg hspace]

/-- Each round of skipping trivia passes over a white space or a comment, or stops where the trivia ends. -/
theorem triviaRound_place (h : left <:+ bs) :
    triviaRound bs (place bs left) () = .ok (.stop (place bs (skipTrivia left))) ∨
      ∃ rest, rest <:+ left ∧ rest.length < left.length ∧
        triviaRound bs (place bs left) () = .ok (.next (place bs rest) ()) ∧ skipTrivia rest = skipTrivia left := by
  rcases left with _ | ⟨b, rest⟩
  · left
    rw [triviaRound, place_nil, if_neg (Nat.lt_irrefl _)]
    rfl
  have hrest := (List.suffix_cons b rest).trans h
  have hget : bs[place bs (b :: rest) + 1]? = rest.head? := by rw [← place_cons h, getElem?_place hrest]
  simp only [triviaRound, if_pos (place_cons_lt h), byteAt_place h, hget, lineEndAt_place h, bind, Except.bind, pure,
    Except.pure]
  by_cases hspace : isSpace b = true
  · right
    refine ⟨rest, List.suffix_cons b rest, Nat.lt_succ_self _, ?_, (skipTrivia_space hspace rest).symm⟩
    rw [if_pos hspace, place_cons h]
  rw [if_neg hspace]
  by_cases hline : b = byte '/' ∧ rest.head? = some (byte '/')
  · right
    obtain ⟨rfl, hslash⟩ := hline
    obtain ⟨rest, rfl⟩ := List.head?_eq_some_iff.1 hslash
    -- the search starts at the two slashes, which are no newlines
    have hend : fromLineEnd (byte '/' :: byte '/' :: rest) = fromLineEnd rest := rfl
    have hshort : (fromLineEnd rest).length < (byte '/' :: byte '/' :: rest).length := by
      have hle := (fromLineEnd_suffix rest).length_le
      rw [List.length_cons, List.length_cons]
      omega
    refine ⟨fromLineEnd rest, ?_, hshort, ?_, (skipTrivia_line rest).symm⟩
    · exact (fromLineEnd_suffix rest).trans ((List.suffix_cons _ rest).trans (List.suffix_cons _ _))
    · rw [if_pos ⟨rfl, hslash⟩, hend]
  rw [if_neg hline]
  by_cases hblock : b = byte '/' ∧ rest.head? = some (byte '*')
  · right
    obtain ⟨rfl, hstar⟩ := hblock
    obtain ⟨rest, rfl⟩ := List.head?_eq_some_iff.1 hstar
    have hbody := (List.suffix_cons _ rest).trans hrest
    have hpast := (List.drop_suffix 2 _).trans (fromBlockEnd_suffix rest)
    have hshort : ((fromBlockEnd rest).drop 2).length < (byte '/' :: byte '*' :: rest).length := by
      have hle := hpast.length_le
      rw [List.length_cons, List.length_cons]
      omega
    refine ⟨(fromBlockEnd rest).drop 2, ?_, hshort, ?_, (skipTrivia_block rest).symm⟩
    · exact hpast.trans ((List.suffix_cons _ rest).trans (List.suffix_cons _ _))
    · have hjump : place bs (byte '/' :: byte '*' :: rest) + 2 = place bs rest := by rw [place_cons hrest, place_cons h]
      rw [if_pos ⟨rfl, hstar⟩, hjump, blockEndAt_place hbody]
      simp only [place_drop ((fromBlockEnd_suffix rest).trans hbody)]
  · left
    rw [if_neg hblock, skipTrivia_stop hspace hline hblock]

theorem triviaEndAt_place (h : left <:+ bs) : triviaEndAt bs (place bs left) = .ok (place bs (skipTrivia left)) := by
  refine loop_eq (place bs) (· <:+ bs) (fun left _ => place bs (skipTrivia left)) ?_ h ()
  intro left _ h
  obtain hstop | ⟨rest, hsuffix, hshorter, hnext, hsame⟩ := triviaRound_place h
  · exact .inl hstop
  · exact .inr ⟨rest, (), hsuffix.trans h, place_lt_place h hshorter, place_le, hnext, by rw [hsame]⟩

end Trivia

/-! ## Names -/

/-- One round of the search for the end of a name. A digit stands in a name only after its start. -/
def nameRound (bs : List UInt8) (start pos : Nat) (_ : Unit) : Checked (Round Unit Nat) := do
  if pos < bs.length then
    let b ← byteAt bs pos
    if isNameStart b || (start < pos && byte '0' ≤ b && b ≤ byte '9') then return .next (pos + 1) ()
    else return .stop pos
  else return .stop pos

/-- The end of the name at a position; the position itself if there is no name. -/
def nameEndAt (bs : List UInt8) (start : Nat) : Checked Nat := loop bs.length (nameRound bs start) start ()

section Names

variable {bs left : List UInt8}

/-- After the start of a name, all its parts are passed over. -/
theorem nameRound_place {start : Nat} (h : left <:+ bs) (hstart : start < place bs left) :
    loop bs.length (nameRound bs start) (place bs left) () = .ok (place bs (left.dropWhile isNamePart)) := by
  refine loop_eq (place bs) (fun left => left <:+ bs ∧ start < place bs left)
    (fun left _ => place bs (left.dropWhile isNamePart)) ?_ ⟨h, hstart⟩ ()
  rintro (_ | ⟨b, rest⟩) - ⟨h, hstart⟩
  · left
    rw [nameRound, place_nil, if_neg (Nat.lt_irrefl _)]
    rfl
  · have hrest := (List.suffix_cons b rest).trans h
    have hpart : (isNameStart b || (decide (start < place bs (b :: rest)) && byte '0' ≤ b && b ≤ byte '9')) =
          isNamePart b := by
      rw [decide_eq_true hstart, Bool.true_and, isNamePart]
    simp only [nameRound, if_pos (place_cons_lt h), byteAt_place h, bind, Except.bind, pure, Except.pure, hpart]
    by_cases hb : isNamePart b = true
    · right
      have hmoves := place_lt_place h (Nat.lt_succ_self rest.length)
      refine ⟨rest, (), ⟨hrest, Nat.lt_trans hstart hmoves⟩, hmoves, place_le, ?_,
            by rw [List.dropWhile_cons_of_pos hb]⟩
      rw [if_pos hb, place_cons h]
    · left
      rw [if_neg hb, List.dropWhile_cons_of_neg hb]

theorem nameEndAt_place (h : left <:+ bs) : nameEndAt bs (place bs left) = .ok (place bs (skipName left)) := by
  rw [nameEndAt]
  rcases left with _ | ⟨b, rest⟩
  · rw [loop, nameRound, place_nil, if_neg (Nat.lt_irrefl _)]
    rfl
  · have hrest := (List.suffix_cons b rest).trans h
    have hmoves : place bs (b :: rest) < place bs rest := place_lt_place h (Nat.lt_succ_self _)
    rw [loop]
    simp only [nameRound, if_pos (place_cons_lt h), byteAt_place h, bind, Except.bind, pure, Except.pure, Nat.lt_irrefl,
      decide_false, Bool.false_and, Bool.or_false, skipName]
    by_cases hb : isNameStart b = true
    · simp only [if_pos hb, ← place_cons h, dif_pos (And.intro hmoves place_le)]
      exact nameRound_place hrest hmoves
    · simp only [if_neg hb]

end Names

/-! ## Values -/

/-- One round of the search for the end of a value. There is no end if the text stops inside a string or bracket. -/
def valueRound (bs : List UInt8) (pos : Nat) (state : Quoting × Nat) :
    Checked (Round (Quoting × Nat) (Option Nat)) := do
  let (quoting, depth) := state
  if pos < bs.length then
    let b ← byteAt bs pos
    if quoting = .outside then
      if b = byte ';' ∧ depth = 0 then return .stop (some pos)
      else return .next (pos + 1) (quoting.next b.toNat, depthAfter depth b)
    else return .next (pos + 1) (quoting.next b.toNat, depth)
  else return .stop (if quoting = .outside ∧ depth = 0 then some pos else none)

/-- The end of the value at a position. -/
def valueEndAt (bs : List UInt8) (pos : Nat) : Checked (Option Nat) := loop bs.length (valueRound bs) pos (.outside, 0)

theorem valueEndAt_place {bs left : List UInt8} (h : left <:+ bs) :
    valueEndAt bs (place bs left) = .ok ((skipValue? left).map (place bs)) := by
  refine loop_eq (place bs) (· <:+ bs)
    (fun left (state : Quoting × Nat) => (skipValueIn state.1 state.2 left).map (place bs)) ?_ h _
  rintro (_ | ⟨b, rest⟩) ⟨quoting, depth⟩ h
  · left
    rw [valueRound, place_nil, if_neg (Nat.lt_irrefl _)]
    cases quoting <;> cases depth <;> rfl
  · have hrest := (List.suffix_cons b rest).trans h
    have hmoves := place_lt_place h (Nat.lt_succ_self rest.length)
    simp only [valueRound, if_pos (place_cons_lt h), byteAt_place h, bind, Except.bind, pure, Except.pure,
      ← place_cons h]
    cases quoting with
    | outside =>
      by_cases hend : b = byte ';' ∧ depth = 0
      · left
        simp only [if_true, if_pos hend, skipValueIn, Option.map_some]
      · right
        refine ⟨rest, (Quoting.outside.next b.toNat, depthAfter depth b), hrest, hmoves, place_le, ?_, ?_⟩
        · simp only [if_true, if_neg hend]
        · simp only [skipValueIn, if_neg hend]
    | inside | escaped => exact .inr ⟨rest, _, hrest, hmoves, place_le, rfl, rfl⟩

end CoveragePages.Script
