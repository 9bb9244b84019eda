/-
The two scanners of a value side by side: the search for its end, over bytes, and the leaving out of trailing
commas, over characters. Before each character of the value both stand the same with respect to strings, so
what one takes for the inside of a string the other does too.

Both are loops. One that steps over bytes meets several for some characters; those after the first are above
ASCII, and none of them moves the automaton.
-/
import CoveragePages.Proofs.Script.Literals
import CoveragePages.Proofs.Script.Rounds

namespace CoveragePages.Script

open Text

/-! ## States of a loop -/

/-- The state with which a loop that starts at a position enters the round at another, if it comes there. -/
def stateAt {σ α : Type} (size : Nat) (body : Nat → σ → Checked (Round σ α)) (target pos : Nat) (state : σ) :
    Option σ :=
  if pos = target then some state
  else
    match body pos state with
    | .ok (.next pos' state') =>
      if _hmoves : pos < pos' ∧ pos' ≤ size then stateAt size body target pos' state' else none
    | _ => none
termination_by size - pos

section Loops

variable {σ α : Type} {size target pos : Nat} {body : Nat → σ → Checked (Round σ α)} {state : σ}

theorem stateAt_self : stateAt size body pos pos state = some state := by
  rw [stateAt, if_pos rfl]

theorem stateAt_next {pos' : Nat} {state' : σ} (hbody : body pos state = .ok (.next pos' state'))
    (hmoves : pos < pos') (htarget : pos' ≤ target) (hsize : target ≤ size) :
    stateAt size body target pos state = stateAt size body target pos' state' := by
  rw [stateAt, if_neg (by omega), hbody]
  exact dif_pos ⟨hmoves, by omega⟩

/-- A loop answers what its body answers in a round that the loop comes to. -/
theorem loop_of_stateAt {state' : σ} (hstate : stateAt size body target pos state = some state') {result : α}
    (hstop : body target state' = .ok (.stop result)) : loop size body pos state = .ok result := by
  fun_induction stateAt size body target pos state with
  | case1 =>
    cases hstate
    rw [loop, hstop]
  | case2 pos state _ pos' state'' hbody hmoves ih =>
    rw [loop, hbody]
    exact (dif_pos hmoves).trans (ih hstate)
  | case3 | case4 => cases hstate

end Loops

/-! ## The search for the end of a value -/

/-- The state of the search after a byte that does not end the value. -/
def valueNext (state : Quoting × Nat) (b : UInt8) : Quoting × Nat :=
  (state.1.next b.toNat, if state.1 = .outside then depthAfter state.2 b else state.2)

/-- The state in which the search for the end of the value at a position is at another one. -/
def valueStateAt (bs : List UInt8) (start pos : Nat) : Option (Quoting × Nat) :=
  stateAt bs.length (valueRound bs) pos start (.outside, 0)

section Values

variable {bs left rest : List UInt8}

theorem skipValueIn_suffix {q : Quoting} {depth : Nat} (h : skipValueIn q depth bs = some left) : left <:+ bs := by
  fun_induction skipValueIn q depth bs with
  | case1 => cases h; exact List.suffix_refl _
  | case2 => cases h
  | case3 => cases h; exact List.suffix_refl _
  | case4 depth b rest _ ih => exact (ih h).trans (List.suffix_cons b rest)
  | case5 q depth b rest _ ih => exact (ih h).trans (List.suffix_cons b rest)

/-- A value ends at its semicolon or at the end of the text, outside strings and brackets. -/
theorem outside_of_skipValueIn_self {q : Quoting} {depth : Nat} (h : skipValueIn q depth left = some left) :
    q = .outside ∧ depth = 0 := by
  have hshorter : ∀ {q : Quoting} {depth : Nat} {b : UInt8} {rest : List UInt8},
      skipValueIn q depth rest ≠ some (b :: rest) := by
    intro q depth b rest h
    have hle := (skipValueIn_suffix h).length_le
    rw [List.length_cons] at hle
    omega
  cases left with
  | nil =>
    cases q with
    | outside =>
      cases depth with
      | zero => exact ⟨rfl, rfl⟩
      | succ => cases h
    | inside | escaped => cases h
  | cons b rest =>
    cases q with
    | outside =>
      rw [skipValueIn] at h
      split at h
      · rename_i hend
        exact ⟨rfl, hend.2⟩
      · exact absurd h hshorter
    | inside | escaped =>
      change skipValueIn (Quoting.next _ b.toNat) depth rest = _ at h
      exact absurd h hshorter

/-- A byte before the end of the value is passed over, and the search goes on behind it. -/
theorem skipValueIn_cons {state : Quoting × Nat} {b : UInt8}
    (h : skipValueIn state.1 state.2 (b :: rest) = some left) (hleft : left <:+ rest) :
    ¬ (state.1 = .outside ∧ b = byte ';' ∧ state.2 = 0) ∧
      skipValueIn (valueNext state b).1 (valueNext state b).2 rest = some left := by
  obtain ⟨q, depth⟩ := state
  have hend : ¬ (q = .outside ∧ b = byte ';' ∧ depth = 0) := by
    rintro ⟨rfl, hend⟩
    simp only [skipValueIn, if_pos hend] at h
    cases h
    exact absurd hleft.length_le (by rw [List.length_cons]; omega)
  refine ⟨hend, ?_⟩
  cases q with
  | outside =>
    simp only [skipValueIn, if_neg fun h => hend ⟨rfl, h⟩] at h
    exact h
  | inside | escaped => exact h

theorem valueRound_next {state : Quoting × Nat} {b : UInt8} (h : b :: rest <:+ bs)
    (hend : ¬ (state.1 = .outside ∧ b = byte ';' ∧ state.2 = 0)) :
    valueRound bs (place bs (b :: rest)) state = .ok (.next (place bs rest) (valueNext state b)) := by
  obtain ⟨q, depth⟩ := state
  simp only [valueRound, if_pos (place_cons_lt h), byteAt_place h, bind, Except.bind, pure, Except.pure,
    ← place_cons h]
  cases q with
  | outside => simp only [if_true, if_neg fun h => hend ⟨rfl, h⟩, valueNext]
  | inside | escaped => rfl

/-- The search comes to every place up to the end of the value, with the state that the bytes before lead to. -/
theorem stateAt_valueRound {passed : List UInt8} (h : passed ++ rest <:+ bs) (state : Quoting × Nat)
    (hleft : left <:+ rest) (hend : skipValueIn state.1 state.2 (passed ++ rest) = some left) :
    stateAt bs.length (valueRound bs) (place bs rest) (place bs (passed ++ rest)) state =
        some (passed.foldl valueNext state) ∧
      skipValueIn (passed.foldl valueNext state).1 (passed.foldl valueNext state).2 rest = some left := by
  induction passed generalizing state with
  | nil => exact ⟨stateAt_self, hend⟩
  | cons b passed ih =>
    have hnext := (List.suffix_cons b (passed ++ rest)).trans h
    have hpast : left <:+ passed ++ rest := hleft.trans (List.suffix_append passed rest)
    obtain ⟨hgoes, hend⟩ := skipValueIn_cons hend hpast
    obtain ⟨hstate, hrest⟩ := ih hnext (valueNext state b) hend
    refine ⟨?_, hrest⟩
    rw [List.foldl_cons, ← hstate]
    have hle : place bs (passed ++ rest) ≤ place bs rest := by
      rw [place, place, List.length_append]
      omega
    exact stateAt_next (valueRound_next h hgoes) (place_lt_place h (Nat.lt_succ_self _)) hle place_le

end Values

/-! ## Bytes of characters -/

/-- Bytes above ASCII move the automaton only behind a backslash. -/
theorem foldl_next_high {q : Quoting} (hq : q ≠ .escaped) {hs : List UInt8} (hhs : ∀ b ∈ hs, 128 ≤ b.toNat) :
    hs.foldl (fun q b => q.next b.toNat) q = q := by
  induction hs with
  | nil => rfl
  | cons b hs ih =>
    rw [List.foldl_cons, next_high hq (hhs b List.mem_cons_self)]
    exact ih fun x hx => hhs x (List.mem_cons_of_mem b hx)

/-- Over the bytes of a text the automaton comes to where it comes over its characters. -/
theorem Quoting.after_bytes (q : Quoting) (cs : List Char) :
    (bytes cs).foldl (fun q b => q.next b.toNat) q = q.after cs := by
  induction cs generalizing q with
  | nil => rfl
  | cons c cs ih =>
    have hcs : q.after (c :: cs) = (q.next c.toNat).after cs := rfl
    rw [hcs, ← ih]
    by_cases hc : c.toNat < 128
    · have hb : bytes (c :: cs) = byte c :: bytes cs := bytes_cons_ascii hc cs
      rw [hb, List.foldl_cons, byte_toNat hc]
    · have hc := Nat.le_of_not_lt hc
      obtain ⟨b, b', hs, hb, hbytes⟩ := bytes_cons_high hc cs
      rw [hb, List.foldl_append]
      congr 1
      cases q with
      | outside | inside => rw [foldl_next_high (by decide) hbytes, next_high (by decide) hc]
      | escaped =>
        -- the backslash hides the first byte, and so the character
        exact foldl_next_high (q := .inside) (by decide) fun x hx => hbytes x (List.mem_cons_of_mem b hx)

theorem foldl_valueNext (bs : List UInt8) (state : Quoting × Nat) :
    (bs.foldl valueNext state).1 = bs.foldl (fun q b => q.next b.toNat) state.1 := by
  induction bs generalizing state with
  | nil => rfl
  | cons b bs ih => exact ih (valueNext state b)

theorem place_bytes (before rest : List Char) : place (bytes (before ++ rest)) (bytes rest) = byteLength before := by
  rw [place, bytes_append, List.length_append, Nat.add_sub_cancel]
  rfl

theorem place_bytes_append (front passed rest : List Char) :
    place (bytes (front ++ (passed ++ rest))) (bytes rest) = byteLength front + byteLength passed := by
  rw [← List.append_assoc, place_bytes, byteLength_append]

/-! ## Leaving out trailing commas -/

/-- One round of `dropCommasFrom`, with what is kept as part of the state: the character at an index goes behind it, or
is left out. -/
def commaRound (chars : List Char) (i : Nat) (state : Quoting × List Char) :
    Checked (Round (Quoting × List Char) (List Char)) := do
  let (quoting, kept) := state
  match chars[i]? with
  | none => return .stop kept
  | some c =>
    if quoting = .outside ∧ c = ',' then
      if closesNext (← tailAt chars (i + 1)) then return .next (i + 1) (quoting, kept)
      else return .next (i + 1) (quoting.next c.toNat, kept ++ [c])
    else return .next (i + 1) (quoting.next c.toNat, kept ++ [c])

/-- The value without its trailing commas, in rounds. -/
def keptAt (chars : List Char) : Checked (List Char) := loop chars.length (commaRound chars) 0 (.outside, [])

/-- The state in which leaving out the trailing commas of a value is at an index. -/
def commaStateAt (chars : List Char) (i : Nat) : Option (Quoting × List Char) :=
  stateAt chars.length (commaRound chars) i 0 (.outside, [])

/-- Each round moves the automaton by its character, and keeps what the program keeps. -/
theorem commaRound_next (before rest : List Char) (c : Char) (quoting : Quoting) (kept : List Char) :
    ∃ kept', commaRound (before ++ c :: rest) before.length (quoting, kept) =
        .ok (.next (before.length + 1) (quoting.next c.toNat, kept')) ∧
      kept' ++ dropTrailingCommasIn (quoting.next c.toNat) rest = kept ++ dropTrailingCommasIn quoting (c :: rest) := by
  have hget : (before ++ c :: rest)[before.length]? = some c := by simp
  simp only [commaRound, hget, tailAt_append, bind, Except.bind, pure, Except.pure, dropTrailingCommasIn]
  by_cases hcomma : quoting = .outside ∧ c = ','
  · obtain ⟨rfl, rfl⟩ := hcomma
    by_cases hcloses : closesNext rest = true
    · rw [if_pos ⟨rfl, rfl⟩, if_pos hcloses, if_pos ⟨rfl, rfl, hcloses⟩]
      exact ⟨kept, rfl, rfl⟩
    · rw [if_pos ⟨rfl, rfl⟩, if_neg hcloses, if_neg fun h => hcloses h.2.2]
      exact ⟨kept ++ [','], rfl, List.append_assoc ..⟩
  · rw [if_neg hcomma, if_neg fun h => hcomma ⟨h.1, h.2.1⟩]
    exact ⟨kept ++ [c], rfl, List.append_assoc ..⟩

/-- The loop comes to every index, with the state that the characters before lead to. -/
theorem stateAt_commaRound (before passed rest : List Char) (quoting : Quoting) (kept : List Char) :
    ∃ kept', stateAt (before ++ (passed ++ rest)).length (commaRound (before ++ (passed ++ rest)))
        (before.length + passed.length) before.length (quoting, kept) = some (quoting.after passed, kept') ∧
      kept' ++ dropTrailingCommasIn (quoting.after passed) rest =
        kept ++ dropTrailingCommasIn quoting (passed ++ rest) := by
  induction passed generalizing before quoting kept with
  | nil => exact ⟨kept, stateAt_self, rfl⟩
  | cons c passed ih =>
    obtain ⟨kept₁, hround, hkept₁⟩ := commaRound_next before (passed ++ rest) c quoting kept
    obtain ⟨kept', hstate, hkept'⟩ := ih (before ++ [c]) (quoting.next c.toNat) kept₁
    have htarget : (before ++ [c]).length + passed.length = before.length + (c :: passed).length := by
      simp only [List.length_append, List.length_cons, List.length_nil]
      omega
    have hindex : (before ++ [c]).length = before.length + 1 := List.length_append
    have hchars : before ++ [c] ++ (passed ++ rest) = before ++ (c :: passed ++ rest) := List.append_assoc ..
    rw [htarget, hindex, hchars] at hstate
    refine ⟨kept', (stateAt_next hround (Nat.lt_succ_self _) ?_ ?_).trans hstate, hkept'.trans hkept₁⟩
    · rw [List.length_cons]
      omega
    · simp

theorem commaStateAt_eq (passed rest : List Char) :
    ∃ kept, commaStateAt (passed ++ rest) passed.length = some (Quoting.outside.after passed, kept) ∧
      kept ++ dropTrailingCommasIn (Quoting.outside.after passed) rest = dropTrailingCommas (passed ++ rest) := by
  have h := stateAt_commaRound [] passed rest .outside []
  simpa [commaStateAt, dropTrailingCommas] using h

/-- The rounds end with what the program keeps. -/
theorem commaStateAt_end (chars : List Char) :
    commaStateAt chars chars.length = some (Quoting.outside.after chars, dropTrailingCommas chars) := by
  obtain ⟨kept, hstate, hkept⟩ := commaStateAt_eq chars []
  rw [List.append_nil] at hstate hkept
  rw [hstate, ← hkept, dropTrailingCommasIn, List.append_nil]

theorem keptAt_eq (chars : List Char) : keptAt chars = .ok (dropTrailingCommas chars) := by
  refine loop_of_stateAt (commaStateAt_end chars) ?_
  simp [commaRound, pure, Except.pure]

/-! ## Both on one value -/

/-- The value that the search finds lies between two character boundaries. -/
theorem exists_of_skipValue? {rest : List Char} {left : List UInt8} (h : skipValue? (bytes rest) = some left) :
    ∃ raw after, rest = raw ++ after ∧ left = bytes after := by
  rw [skipValue?_bytes] at h
  obtain ⟨after, hafter, rfl⟩ := Option.map_eq_some_iff.1 h
  obtain ⟨raw, rfl⟩ := pastValue?_suffix hafter
  exact ⟨raw, after, rfl, rfl⟩

section Value

variable (front : List Char) {passed rest after : List Char}

/-- At each character of the value, the search stands where the characters before lead to. -/
theorem valueStateAt_eq (hafter : after <:+ rest) (hend : skipValue? (bytes (passed ++ rest)) = some (bytes after)) :
    ∃ depth, valueStateAt (bytes (front ++ (passed ++ rest))) (byteLength front)
        (byteLength front + byteLength passed) = some (Quoting.outside.after passed, depth) ∧
      skipValueIn (Quoting.outside.after passed) depth (bytes rest) = some (bytes after) := by
  have hstart := place_bytes front (passed ++ rest)
  have htarget := place_bytes_append front passed rest
  have hsuffix := bytes_suffix (List.suffix_append front (passed ++ rest))
  rw [skipValue?, bytes_append passed] at hend
  rw [bytes_append passed] at hstart hsuffix
  obtain ⟨hstate, hrest⟩ := stateAt_valueRound hsuffix (.outside, 0) (bytes_suffix hafter) hend
  have hquoting : ((bytes passed).foldl valueNext (.outside, 0)).1 = Quoting.outside.after passed :=
    (foldl_valueNext _ _).trans (Quoting.after_bytes .outside passed)
  rw [hstart, htarget] at hstate
  rw [hquoting] at hrest
  exact ⟨_, hstate.trans (congrArg some (Prod.ext hquoting rfl)), hrest⟩

/-- At the end of the value, the search is outside strings and brackets. -/
theorem valueStateAt_end (hend : skipValue? (bytes (passed ++ after)) = some (bytes after)) :
    valueStateAt (bytes (front ++ (passed ++ after))) (byteLength front) (byteLength front + byteLength passed) =
        some (.outside, 0) ∧
      Outside passed := by
  obtain ⟨depth, hstate, hself⟩ := valueStateAt_eq front (List.suffix_refl after) hend
  obtain ⟨houtside, rfl⟩ := outside_of_skipValueIn_self hself
  exact ⟨hstate.trans (by rw [houtside]), houtside⟩

theorem valueEndAt_eq (hend : skipValue? (bytes (passed ++ after)) = some (bytes after)) :
    valueEndAt (bytes (front ++ (passed ++ after))) (byteLength front) =
      .ok (some (byteLength front + byteLength passed)) := by
  have h := valueEndAt_place (bytes_suffix (List.suffix_append front (passed ++ after)))
  rwa [place_bytes, hend, Option.map_some, place_bytes_append] at h

end Value

theorem bytes_isInfix {a b : List Char} (h : a <:+: b) : bytes a <:+: bytes b := by
  obtain ⟨s, t, rfl⟩ := h
  exact ⟨bytes s, bytes t, by simp only [bytes_append]⟩

/-- Wherever a value starts in a text, the search for its end and the leaving out of its trailing commas agree on
strings: before each of its characters both loops stand the same, outside exactly if no literal is open, and both end
outside. What is kept is the value without exactly the commas outside strings whose next character, white space aside,
is a closing bracket. Each literal is kept byte for byte, and a value that is JSON already is kept as it is. -/
theorem scanners_agree_on_strings {text : String} {start : Nat} {rest : List Char} {left : List UInt8}
    (hstart : dropBytes? text.toList start = some rest) (hend : skipValue? (bytes rest) = some left) :
    ∃ raw, (Source.of text).between (bytes rest) left = .ok raw ∧
      valueEndAt (bytes text.toList) start = .ok (some (start + byteLength raw)) ∧
      keptAt raw = .ok (dropTrailingCommas raw) ∧
      (∀ before after, raw = before ++ after → ∃ quoting depth kept,
        valueStateAt (bytes text.toList) start (start + byteLength before) = some (quoting, depth) ∧
          commaStateAt raw before.length = some (quoting, kept) ∧
          (quoting = .outside ↔ ∃ literals, Literals before literals)) ∧
      valueStateAt (bytes text.toList) start (start + byteLength raw) = some (.outside, 0) ∧
      commaStateAt raw raw.length = some (.outside, dropTrailingCommas raw) ∧
      dropTrailingCommas raw = (raw.zipIdx.filter fun p => ¬ TrailingComma raw p.2).map Prod.fst ∧
      (∃ literals, Literals raw literals) ∧
      (∀ literals, Literals raw literals → Literals (dropTrailingCommas raw) literals ∧
        ∀ literal ∈ literals, bytes literal <:+: bytes (dropTrailingCommas raw)) ∧
      ∀ v, Json.parse (String.ofList raw) = .ok v → dropTrailingCommas raw = raw := by
  obtain ⟨front, htext, rfl⟩ := exists_of_dropBytes? hstart
  obtain ⟨raw, after, rfl, rfl⟩ := exists_of_skipValue? hend
  have hslice := between_bytes (htext ▸ List.suffix_append front _) (List.suffix_append raw after)
  obtain ⟨hfinish, houtside⟩ := valueStateAt_end front hend
  rw [upTo_append] at hslice
  rw [htext]
  refine ⟨raw, hslice, valueEndAt_eq front hend, keptAt_eq raw, ?flags, hfinish, ?finish,
    dropTrailingCommas_eq_filter raw, exists_literals_iff.2 houtside, ?literals, ?json⟩
  case flags =>
    rintro before mid rfl
    rw [List.append_assoc] at hend ⊢
    obtain ⟨depth, hvalue, -⟩ := valueStateAt_eq front (List.suffix_append mid after) hend
    obtain ⟨kept, hcommas, -⟩ := commaStateAt_eq before mid
    exact ⟨_, depth, kept, hvalue, hcommas, exists_literals_iff.symm⟩
  case finish => rw [commaStateAt_end, houtside]
  case literals =>
    intro literals h
    have hkept := h.dropTrailingCommas
    exact ⟨hkept, fun literal hmem => bytes_isInfix (hkept.isInfix hmem)⟩
  case json =>
    intro v hv
    have hkept := dropTrailingCommas_json hv
    rwa [String.toList_ofList] at hkept

/-- A script with a character of two bytes before its value. -/
def sampleScript : String := "// é\nvar x=[\"é,]\\\"\",1,];"

/-- The value of that script: in its string, a comma before a bracket and an escaped quote. -/
def sampleValue : List Char := "[\"é,]\\\"\",1,]".toList

/-- Behind the backslash, at byte 19 and character 6, both scanners pass over an escaped quote; of the two commas before
brackets the one in the string stays. The second value is JSON with such a string. -/
theorem scanners_agree_on_strings_sample :
    (dropBytes? sampleScript.toList 12 = some (sampleValue ++ [';']) ∧
      skipValue? (bytes (sampleValue ++ [';'])) = some [byte ';'] ∧
      (∃ depth kept, valueStateAt (bytes sampleScript.toList) 12 19 = some (.escaped, depth) ∧
        commaStateAt sampleValue 6 = some (.escaped, kept)) ∧
      dropTrailingCommas sampleValue = "[\"é,]\\\"\",1]".toList ∧
      bytes "\"é,]\\\"\"".toList <:+: bytes (dropTrailingCommas sampleValue)) ∧
    dropBytes? "[\",]\"]".toList 0 = some "[\",]\"]".toList ∧
      skipValue? (bytes "[\",]\"]".toList) = some [] ∧
      Json.parse "[\",]\"]" = .ok (.array [.string ",]"]) ∧
      dropTrailingCommas "[\",]\"]".toList = "[\",]\"]".toList := by
  have hstart : dropBytes? sampleScript.toList 12 = some (sampleValue ++ [';']) := by decide
  have hend : skipValue? (bytes (sampleValue ++ [';'])) = some [byte ';'] := by decide
  have hjsonStart : dropBytes? "[\",]\"]".toList 0 = some "[\",]\"]".toList := by decide
  have hjsonEnd : skipValue? (bytes "[\",]\"]".toList) = some [] := by decide
  have hjson : Json.parse "[\",]\"]" = .ok (.array [.string ",]"]) := rfl
  refine ⟨⟨hstart, hend, ?_⟩, hjsonStart, hjsonEnd, hjson, ?_⟩
  · obtain ⟨raw, hslice, -, -, hstates, -, -, hfilter, -, hliterals, -⟩ := scanners_agree_on_strings hstart hend
    have hraw : (Source.of sampleScript).between (bytes (sampleValue ++ [';'])) (bytes [';']) =
        .ok (upTo (sampleValue ++ [';']) [';']) :=
      between_bytes ⟨"// é\nvar x=".toList, by decide⟩ (List.suffix_append sampleValue [';'])
    rw [upTo_append] at hraw
    cases hslice.symm.trans hraw
    refine ⟨?_, ?_, ?_⟩
    · obtain ⟨quoting, depth, kept, hvalue, hcommas, -⟩ := hstates (sampleValue.take 6) (sampleValue.drop 6) rfl
      obtain ⟨kept', hcommas', -⟩ := commaStateAt_eq (sampleValue.take 6) (sampleValue.drop 6)
      cases hcommas.symm.trans hcommas'
      exact ⟨depth, kept, hvalue, hcommas⟩
    · rw [hfilter]
      decide
    · have hbody : Hidden ['é', ',', ']', '\\', '"'] :=
        .plain (by decide) (by decide) (.plain (by decide) (by decide) (.plain (by decide) (by decide) (.escape .nil)))
      have hrest : Literals [',', '1', ',', ']'] [] :=
        .plain (by decide) (.plain (by decide) (.plain (by decide) (.plain (by decide) .nil)))
      exact (hliterals _ (.plain (by decide) (.literal hbody hrest))).2 _ (List.mem_singleton_self _)
  · obtain ⟨raw, hslice, -, -, -, -, -, -, -, -, hkept⟩ := scanners_agree_on_strings hjsonStart hjsonEnd
    have hraw : (Source.of "[\",]\"]").between (bytes "[\",]\"]".toList) [] = .ok "[\",]\"]".toList := by rfl
    cases hslice.symm.trans hraw
    exact hkept _ hjson

end CoveragePages.Script
