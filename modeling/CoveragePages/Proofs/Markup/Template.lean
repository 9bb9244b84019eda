/-
Row templates against the texts they are read from. Reading passes over one placeholder after the other;
it is stuck at the first one that is not closed or holds nothing but white space, and otherwise takes the
text apart into pieces that spell it. The pieces can be written back, because a literal that a field
follows does not end in a brace and no field holds what closes a placeholder.
-/
import CoveragePages.Markup.Template
import CoveragePages.Proofs.Text.Blank
import CoveragePages.Proofs.Text.Bytes
import CoveragePages.Proofs.Text.Search
import Mathlib.Data.List.Chain

namespace CoveragePages.RowTemplate

open Text

/-! ## Passing over placeholders -/

/-- A text goes on with a placeholder: after `before` the first opener, then `inside` up to the first closer,
and `rest` after it. -/
structure Placeholder (cs before inside rest : List Char) : Prop where
  eq : cs = before ++ (opener ++ (inside ++ (closer ++ rest)))
  opens : ¬ opener <:+: before ++ opener.dropLast
  closes : ¬ closer <:+: inside ++ closer.dropLast

/-- What passing over a placeholder takes off a text. -/
def taken (before inside : List Char) : List Char := before ++ (opener ++ (inside ++ closer))

/-- What passing over a placeholder adds to the pieces. -/
def takenPieces (before inside : List Char) : List Piece := literalPieces before ++ [.field (trim inside)]

/-- The scan of a text from the left has passed over some of it, in pieces, and goes on with the rest. -/
inductive Scan (cs : List Char) : List Char → List Piece → List Char → Prop
  | start : Scan cs [] [] cs
  | pass {passed before inside rest cs' : List Char} {ps : List Piece} : Scan cs passed ps cs' →
      Placeholder cs' before inside rest → ¬ (∀ c ∈ inside, isBlank c = true) →
      Scan cs (passed ++ taken before inside) (ps ++ takenPieces before inside) rest

/-- The scan of a text meets a placeholder that is refused. Its offset is how many bytes stand before it. -/
inductive Stuck (cs : List Char) : Refusal → Prop
  | unterminated {passed before inside : List Char} {ps : List Piece} :
      Scan cs passed ps (before ++ (opener ++ inside)) → ¬ opener <:+: before ++ opener.dropLast →
      ¬ closer <:+: inside →
      Stuck cs (.unterminated (byteLength (passed ++ before)))
  | empty {passed before inside rest cs' : List Char} {ps : List Piece} : Scan cs passed ps cs' →
      Placeholder cs' before inside rest → (∀ c ∈ inside, isBlank c = true) →
      Stuck cs (.empty (byteLength (passed ++ before)))

section

variable {cs cs' passed before inside rest : List Char} {ps qs : List Piece}

theorem Placeholder.eq_taken (h : Placeholder cs before inside rest) : cs = taken before inside ++ rest := by
  rw [h.eq, taken]
  simp only [List.append_assoc]

theorem Placeholder.length_lt (h : Placeholder cs before inside rest) : rest.length < cs.length := by
  rw [h.eq]
  simp only [List.length_append]
  have hopener : opener.length = 2 := rfl
  omega

theorem Scan.eq (h : Scan cs passed ps rest) : cs = passed ++ rest := by
  induction h with
  | start => rfl
  | pass _ hnext _ ih => rw [ih, hnext.eq_taken, List.append_assoc]

/-! ## Steps of the reader -/

theorem breakOn_opener : breakOn? opener cs = some (before, rest) ↔
    cs = before ++ (opener ++ rest) ∧ ¬ opener <:+: before ++ opener.dropLast := breakOn?_eq_some_iff (by decide)

theorem breakOn_closer : breakOn? closer cs = some (inside, rest) ↔
    cs = inside ++ (closer ++ rest) ∧ ¬ closer <:+: inside ++ closer.dropLast := breakOn?_eq_some_iff (by decide)

theorem readPieces_end (fuel offset : Nat) (h : ¬ opener <:+: cs) :
    readPieces (fuel + 1) offset cs = .ok (literalPieces cs) := by
  rw [readPieces, (breakOn?_eq_none_iff (by decide)).2 h]

theorem readPieces_unterminated (fuel offset : Nat) (hopens : ¬ opener <:+: before ++ opener.dropLast)
    (h : ¬ closer <:+: inside) :
    readPieces (fuel + 1) offset (before ++ (opener ++ inside)) =
      .error (.unterminated (offset + byteLength before)) := by
  rw [readPieces, breakOn_opener.2 ⟨rfl, hopens⟩]
  simp only [(breakOn?_eq_none_iff (by decide)).2 h]

theorem readPieces_empty (fuel offset : Nat) (h : Placeholder cs before inside rest)
    (hblank : ∀ c ∈ inside, isBlank c = true) :
    readPieces (fuel + 1) offset cs = .error (.empty (offset + byteLength before)) := by
  rw [readPieces, breakOn_opener.2 ⟨h.eq, h.opens⟩]
  simp only [breakOn_closer.2 ⟨rfl, h.closes⟩, if_pos (trim_eq_nil_iff.2 hblank)]

/-- One round of the reader: a placeholder is taken, and reading goes on behind it. -/
theorem readPieces_pass (fuel offset : Nat) (h : Placeholder cs before inside rest)
    (hname : ¬ ∀ c ∈ inside, isBlank c = true) :
    readPieces (fuel + 1) offset cs =
      (takenPieces before inside ++ ·) <$> readPieces fuel (offset + byteLength (taken before inside)) rest := by
  have hoffset : offset + byteLength before + opener.length + byteLength inside + closer.length =
      offset + byteLength (taken before inside) := by
    have hbraces : byteLength opener = opener.length ∧ byteLength closer = closer.length := by decide
    rw [taken, byteLength_append, byteLength_append, byteLength_append, hbraces.1, hbraces.2]
    omega
  rw [readPieces, breakOn_opener.2 ⟨h.eq, h.opens⟩]
  simp only [breakOn_closer.2 ⟨rfl, h.closes⟩, if_neg (mt trim_eq_nil_iff.1 hname), hoffset]
  cases readPieces fuel (offset + byteLength (taken before inside)) rest with
  | error r => rfl
  | ok qs => simp [takenPieces, bind, Except.bind, pure, Except.pure, Functor.map, Except.map]

/-! ## Runs of the reader -/

/-- Reading a text comes down to reading the rest of it, wherever the scan has got to. -/
theorem Scan.readPieces (h : Scan cs passed ps rest) {fuel : Nat} (hfuel : cs.length < fuel) :
    ∃ fuel', rest.length < fuel' ∧ RowTemplate.readPieces fuel 0 cs =
      (ps ++ ·) <$> RowTemplate.readPieces fuel' (byteLength passed) rest := by
  induction h with
  | start =>
    refine ⟨fuel, hfuel, ?_⟩
    rw [show byteLength [] = 0 from rfl]
    cases RowTemplate.readPieces fuel 0 cs <;> rfl
  | @pass passed before inside rest cs' ps _ hnext hname ih =>
    obtain ⟨fuel', hlt, heq⟩ := ih
    obtain ⟨fuel', rfl⟩ : ∃ f, fuel' = f + 1 := ⟨fuel' - 1, by omega⟩
    have hshort := hnext.length_lt
    refine ⟨fuel', by omega, ?_⟩
    rw [heq, readPieces_pass fuel' _ hnext hname, byteLength_append]
    cases RowTemplate.readPieces fuel' (byteLength passed + byteLength (taken before inside)) rest with
    | error r => rfl
    | ok qs => simp [Functor.map, Except.map]

theorem Scan.parseChars_end (h : Scan cs passed ps rest) (hend : ¬ opener <:+: rest) :
    parseChars cs = .ok ⟨ps ++ literalPieces rest⟩ := by
  obtain ⟨fuel, hlt, heq⟩ := h.readPieces (Nat.lt_succ_self cs.length)
  obtain ⟨fuel, rfl⟩ : ∃ f, fuel = f + 1 := ⟨fuel - 1, by omega⟩
  rw [parseChars, heq, readPieces_end _ _ hend]
  rfl

theorem Stuck.parseChars {r : Refusal} (h : Stuck cs r) : parseChars cs = .error r := by
  cases h with
  | unterminated hscan hopens hcloses =>
    obtain ⟨fuel, hlt, heq⟩ := hscan.readPieces (Nat.lt_succ_self cs.length)
    obtain ⟨fuel, rfl⟩ : ∃ f, fuel = f + 1 := ⟨fuel - 1, by omega⟩
    rw [RowTemplate.parseChars, heq, readPieces_unterminated _ _ hopens hcloses, byteLength_append]
    rfl
  | empty hscan hnext hblank =>
    obtain ⟨fuel, hlt, heq⟩ := hscan.readPieces (Nat.lt_succ_self cs.length)
    obtain ⟨fuel, rfl⟩ : ∃ f, fuel = f + 1 := ⟨fuel - 1, by omega⟩
    rw [RowTemplate.parseChars, heq, readPieces_empty _ _ hnext hblank, byteLength_append]
    rfl

/-- The scan ends: at the last placeholder or stuck. -/
theorem Scan.ends (h : Scan cs passed ps rest) :
    (∃ passed' ps' rest', Scan cs passed' ps' rest' ∧ ¬ opener <:+: rest') ∨ ∃ r, Stuck cs r := by
  induction hn : rest.length using Nat.strongRecOn generalizing passed ps rest with
  | _ n ih =>
    cases hopen : breakOn? opener rest with
    | none => exact .inl ⟨passed, ps, rest, h, (breakOn?_eq_none_iff (by decide)).1 hopen⟩
    | some halves =>
      obtain ⟨before, after⟩ := halves
      obtain ⟨rfl, hopens⟩ := breakOn_opener.1 hopen
      cases hclose : breakOn? closer after with
      | none => exact .inr ⟨_, .unterminated h hopens ((breakOn?_eq_none_iff (by decide)).1 hclose)⟩
      | some halves =>
        obtain ⟨inside, rest'⟩ := halves
        obtain ⟨rfl, hcloses⟩ := breakOn_closer.1 hclose
        have hnext : Placeholder _ before inside rest' := ⟨rfl, hopens, hcloses⟩
        by_cases hblank : ∀ c ∈ inside, isBlank c = true
        · exact .inr ⟨_, .empty h hnext hblank⟩
        · exact ih rest'.length (hn ▸ hnext.length_lt) (h.pass hnext hblank) rfl

theorem parseChars_error_iff {r : Refusal} : parseChars cs = .error r ↔ Stuck cs r := by
  refine ⟨fun h => ?_, Stuck.parseChars⟩
  rcases Scan.ends (Scan.start : Scan cs [] [] cs) with ⟨passed, ps, rest, hscan, hend⟩ | ⟨r', hstuck⟩
  · rw [hscan.parseChars_end hend] at h
    cases h
  · rw [hstuck.parseChars] at h
    cases h
    exact hstuck

theorem parseChars_ok_iff {t : RowTemplate} : parseChars cs = .ok t ↔
    ∃ passed ps rest, Scan cs passed ps rest ∧ ¬ opener <:+: rest ∧ t.pieces = ps ++ literalPieces rest := by
  constructor
  · intro h
    rcases Scan.ends (Scan.start : Scan cs [] [] cs) with ⟨passed, ps, rest, hscan, hend⟩ | ⟨r', hstuck⟩
    · rw [hscan.parseChars_end hend] at h
      cases h
      exact ⟨passed, ps, rest, hscan, hend, rfl⟩
    · rw [hstuck.parseChars] at h
      cases h
  · rintro ⟨passed, ps, rest, hscan, hend, hpieces⟩
    rw [hscan.parseChars_end hend, ← hpieces]

end

/-! ## The text of the pieces -/

/-- Pieces that a text is made of, with any white space around the name of a field. -/
inductive Spells : List Piece → List Char → Prop
  | nil : Spells [] []
  | literal {markup cs : List Char} {ps : List Piece} : Spells ps cs → Spells (.literal markup :: ps) (markup ++ cs)
  | field {name inside cs : List Char} {ps : List Piece} : trim inside = name → Spells ps cs →
      Spells (.field name :: ps) (opener ++ (inside ++ (closer ++ cs)))

section

variable {cs ds before inside passed rest : List Char} {ps qs : List Piece}

theorem Spells.append (h : Spells ps cs) (h' : Spells qs ds) : Spells (ps ++ qs) (cs ++ ds) := by
  induction h with
  | nil => exact h'
  | literal _ ih =>
    rw [List.append_assoc]
    exact .literal ih
  | field hname _ ih =>
    simp only [List.append_assoc]
    exact .field hname ih

theorem spells_literalPieces (cs : List Char) : Spells (literalPieces cs) cs := by
  unfold literalPieces
  split
  · rename_i h
    rw [h]
    exact .nil
  · have hliteral : Spells [.literal cs] (cs ++ []) := .literal .nil
    rwa [List.append_nil] at hliteral

theorem spells_takenPieces (before inside : List Char) : Spells (takenPieces before inside) (taken before inside) := by
  have hfield : Spells [.field (trim inside)] (opener ++ (inside ++ (closer ++ []))) := .field rfl .nil
  rw [List.append_nil] at hfield
  exact (spells_literalPieces before).append hfield

theorem Scan.spells (h : Scan cs passed ps rest) : Spells ps passed := by
  induction h with
  | start => exact .nil
  | pass _ _ _ ih => exact ih.append (spells_takenPieces _ _)

/-! ## Well-formed pieces -/

/-- A piece that says something, and that reading does not take further apart. -/
def Piece.Proper : Piece → Prop
  | literal markup => markup ≠ [] ∧ ¬ opener <:+: markup
  | field name => name ≠ [] ∧ Trimmed name ∧ ¬ closer <:+: name

/-- Two pieces may stand beside each other: two literals would be one, and a brace at the end of a literal would
open the field after it. -/
def Piece.Beside : Piece → Piece → Prop
  | literal _, literal _ => False
  | literal markup, field _ => markup.getLast? ≠ some '\x7b'
  | field _, _ => True

/-- The pieces of a template that was read. -/
structure WellFormed (ps : List Piece) : Prop where
  proper : ∀ p ∈ ps, p.Proper
  beside : ps.IsChain Piece.Beside

/-- Pieces that end in a field, or no pieces. -/
def EndsInField (ps : List Piece) : Prop := ∀ p, ps.getLast? = some p → ∃ name, p = .field name

theorem WellFormed.append (h : WellFormed ps) (hlast : EndsInField ps) (h' : WellFormed qs) :
    WellFormed (ps ++ qs) where
  proper p hp := (List.mem_append.1 hp).elim (h.proper p) (h'.proper p)
  beside := by
    refine List.isChain_append.2 ⟨h.beside, h'.beside, fun p hp q _ => ?_⟩
    obtain ⟨name, rfl⟩ := hlast p hp
    exact trivial

theorem wellFormed_literalPieces (h : ¬ opener <:+: cs) : WellFormed (literalPieces cs) := by
  unfold literalPieces
  split
  · exact ⟨nofun, .nil⟩
  · rename_i hne
    exact ⟨List.forall_mem_singleton.2 ⟨hne, h⟩, .singleton _⟩

theorem Placeholder.wellFormed (h : Placeholder cs before inside rest) (hname : ¬ ∀ c ∈ inside, isBlank c = true) :
    WellFormed (takenPieces before inside) := by
  have hopens : ¬ opener <:+: before ∧ before.getLast? ≠ some '\x7b' := by
    have hfirst := mt double_infix_concat.2 h.opens
    exact ⟨fun hin => hfirst (.inl hin), fun hlast => hfirst (.inr ⟨hlast, rfl⟩)⟩
  have hfield : (Piece.field (trim inside)).Proper := by
    refine ⟨mt trim_eq_nil_iff.1 hname, trimmed_trim inside, fun hin => h.closes ?_⟩
    obtain ⟨a, z, -, -, heq⟩ := exists_trim inside
    have hinside : trim inside <:+: inside := ⟨a, z, by rw [List.append_assoc, ← heq]⟩
    exact (hin.trans hinside).trans (List.prefix_append _ _).isInfix
  unfold takenPieces literalPieces
  split
  · exact ⟨List.forall_mem_singleton.2 hfield, .singleton _⟩
  · rename_i hne
    exact ⟨List.forall_mem_cons.2 ⟨⟨hne, hopens.1⟩, List.forall_mem_singleton.2 hfield⟩,
      .cons_cons hopens.2 (.singleton _)⟩

/-- What holds of the pieces wherever the scan has got to. -/
theorem Scan.wellFormed (h : Scan cs passed ps rest) : WellFormed ps ∧ EndsInField ps := by
  induction h with
  | start => exact ⟨⟨nofun, .nil⟩, nofun⟩
  | pass _ hnext hname ih =>
    refine ⟨ih.1.append ih.2 (hnext.wellFormed hname), fun p hp => ?_⟩
    rw [takenPieces, ← List.append_assoc, List.getLast?_concat] at hp
    cases hp
    exact ⟨_, rfl⟩

/-! ## Writing pieces back -/

/-- A piece written back, with one blank on either side of a name. -/
def Piece.written : Piece → List Char
  | literal markup => markup
  | field name => opener ++ (' ' :: (name ++ [' '])) ++ closer

/-- A template written back. -/
def written (template : RowTemplate) : String := String.ofList (template.pieces.flatMap Piece.written)

/-- A proper field is written as a placeholder, behind any literal that may stand before it. -/
theorem placeholder_written {name : List Char} (hname : (Piece.field name).Proper) (hopens : ¬ opener <:+: before)
    (hlast : before.getLast? ≠ some '\x7b') (rest : List Char) :
    Placeholder (before ++ ((Piece.field name).written ++ rest)) before (' ' :: (name ++ [' '])) rest ∧
      takenPieces before (' ' :: (name ++ [' '])) = literalPieces before ++ [.field name] ∧
      ¬ ∀ c ∈ ' ' :: (name ++ [' ']), isBlank c = true := by
  obtain ⟨hne, htrimmed, hcloser⟩ := hname
  have hblank : ∀ c ∈ [' '], isBlank c = true := List.forall_mem_singleton.2 rfl
  have htrim : trim (' ' :: (name ++ [' '])) = name := trim_append hblank htrimmed hblank
  refine ⟨⟨by simp [Piece.written], fun h => ?_, fun h => ?_⟩, by rw [takenPieces, htrim], fun h => ?_⟩
  · rcases double_infix_concat.1 h with h | ⟨h, -⟩
    · exact hopens h
    · exact hlast h
  · -- the blanks keep the braces of the closer off the name
    rcases double_infix_concat.1 h with h | ⟨h, -⟩
    · rw [List.infix_cons_iff] at h
      rcases h with h | h
      · exact absurd (List.cons_prefix_cons.1 h).1 (by decide)
      · rcases double_infix_concat.1 h with h | ⟨-, h⟩
        · exact hcloser h
        · cases h
    · rw [← List.cons_append, List.getLast?_concat] at h
      cases h
  · rw [trim_eq_nil_iff.2 h] at htrim
    exact hne htrim.symm

/-- Pieces that are read from what they are written as. -/
def ReadBack (ps : List Piece) : Prop :=
  ∀ fuel offset : Nat, (ps.flatMap Piece.written).length < fuel →
    RowTemplate.readPieces fuel offset (ps.flatMap Piece.written) = .ok ps

/-- A field is read back in one round, with any literal that stands before it. -/
theorem ReadBack.field (h : ReadBack qs) {name : List Char} (hname : (Piece.field name).Proper)
    (hopens : ¬ opener <:+: before)
    (hlast : before.getLast? ≠ some '\x7b') (hwritten : (literalPieces before).flatMap Piece.written = before) :
    ReadBack (literalPieces before ++ .field name :: qs) := by
  intro fuel offset hfuel
  obtain ⟨fuel, rfl⟩ : ∃ f, fuel = f + 1 := ⟨fuel - 1, by omega⟩
  obtain ⟨hnext, hpieces, hnamed⟩ := placeholder_written hname hopens hlast (qs.flatMap Piece.written)
  have hshort := hnext.length_lt
  rw [List.flatMap_append, hwritten, List.flatMap_cons] at hfuel ⊢
  rw [readPieces_pass fuel offset hnext hnamed, h _ _ (by omega), hpieces]
  simp [Functor.map, Except.map]

theorem WellFormed.tail {p : Piece} (h : WellFormed (p :: ps)) : WellFormed ps :=
  ⟨fun q hq => h.proper q (List.mem_cons_of_mem p hq), h.beside.tail⟩

/-- Well-formed pieces are read back: each field in a round of its own, and the markup behind the last one in the
round after it. -/
theorem WellFormed.readBack : ∀ {ps : List Piece}, WellFormed ps → ReadBack ps
  | [], _ => fun fuel offset hfuel => by
    obtain ⟨fuel, rfl⟩ : ∃ f, fuel = f + 1 := ⟨fuel - 1, by omega⟩
    exact readPieces_end fuel offset (by decide)
  | [.literal markup], h => fun fuel offset hfuel => by
    obtain ⟨fuel, rfl⟩ : ∃ f, fuel = f + 1 := ⟨fuel - 1, by omega⟩
    obtain ⟨hne, hopener⟩ := h.proper _ List.mem_cons_self
    rw [List.flatMap_singleton, Piece.written, readPieces_end fuel offset hopener, literalPieces, if_neg hne]
  | .literal _ :: .literal _ :: _, h => (List.isChain_cons_cons.1 h.beside).1.elim
  | .field name :: qs, h =>
    (h.tail.readBack.field (h.proper _ List.mem_cons_self) (by decide) nofun rfl :
      ReadBack (literalPieces [] ++ .field name :: qs))
  | .literal markup :: .field name :: qs, h => by
    obtain ⟨hne, hopener⟩ := h.proper _ List.mem_cons_self
    have hpieces : literalPieces markup = [.literal markup] := if_neg hne
    have hfield := h.tail.tail.readBack.field (h.tail.proper (.field name) List.mem_cons_self) hopener
      (List.isChain_cons_cons.1 h.beside).1 (by rw [hpieces, List.flatMap_singleton, Piece.written])
    rwa [hpieces] at hfield

theorem parse_written {t : RowTemplate} (h : WellFormed t.pieces) : parse t.written = .ok t := by
  rw [parse, written, String.toList_ofList, parseChars, h.readBack _ _ (Nat.lt_succ_self _)]
  rfl

end

/-- A text is refused exactly where the scan of it is stuck, with the offset of that placeholder. A template that is
read spells the text, its pieces are well formed, and it is read again when it is written back. -/
theorem templates_spell_texts (text : String) :
    (∀ r, parse text = .error r ↔ Stuck text.toList r) ∧
    ∀ t, parse text = .ok t → Spells t.pieces text.toList ∧ WellFormed t.pieces ∧ parse t.written = .ok t := by
  refine ⟨fun r => parseChars_error_iff, fun t h => ?_⟩
  obtain ⟨passed, ps, rest, hscan, hend, hpieces⟩ := parseChars_ok_iff.1 h
  obtain ⟨hwellFormed, hlast⟩ := hscan.wellFormed
  have hall : WellFormed t.pieces := hpieces ▸ hwellFormed.append hlast (wellFormed_literalPieces hend)
  refine ⟨?_, hall, parse_written hall⟩
  rw [hpieces, hscan.eq]
  exact hscan.spells.append (spells_literalPieces rest)

/-- Braces everywhere: in the name of a field, around a literal and at the end. -/
theorem templates_spell_texts_braces :
    let text := "a\x7b\x7b\x7bx\x7d \x7d\x7d\x7d\x7b\x7b y\x7d\x7d\x7b"
    let t : RowTemplate :=
      ⟨[.literal ['a'], .field ['\x7b', 'x', '\x7d'], .literal ['\x7d'], .field ['y'], .literal ['\x7b']]⟩
    parse text = .ok t ∧ Spells t.pieces text.toList ∧ WellFormed t.pieces ∧ parse t.written = .ok t ∧
      Stuck "\x7b\x7ba\x7d\x7dé\x7b\x7b \x7d\x7d".toList (.empty 7) := by
  intro text t
  have hparse : parse text = .ok t := by decide
  have hstuck : parse "\x7b\x7ba\x7d\x7dé\x7b\x7b \x7d\x7d" = .error (.empty 7) := by decide
  exact ⟨hparse, ((templates_spell_texts text).2 t hparse).1, ((templates_spell_texts text).2 t hparse).2.1,
    ((templates_spell_texts text).2 t hparse).2.2, ((templates_spell_texts _).1 _).1 hstuck⟩

end CoveragePages.RowTemplate
