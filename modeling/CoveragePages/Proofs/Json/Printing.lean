/-
Printed values are JSON: the text of a value on one line spells the value's own outline. Numbers are
unsigned integers of 64 bits here, the only ones that the report prints for other programs to read.
-/
import CoveragePages.Json.Printer
import CoveragePages.Proofs.Json.Grammar

namespace CoveragePages.Json

open Decimal

/-! ## Digits -/

theorem digitValue_digitChar {d : Nat} (h : d < 10) : digitValue d.digitChar = d := by
  have h0 : '0'.toNat = 48 := rfl
  rw [digitValue, Nat.toNat_digitChar_of_lt_ten h, h0]
  omega

theorem digitsValue_toDigits (n : Nat) : digitsValue (Nat.toDigits 10 n) = n := by
  induction n using Nat.strongRecOn with
  | _ n ih =>
    by_cases h : n < 10
    · rw [Nat.toDigits_of_lt_base h]
      simp [digitsValue, digitValue_digitChar h]
    · have hrest := ih (n / 10) (by omega)
      rw [Nat.toDigits_of_base_le (by omega) (by omega)]
      unfold digitsValue at hrest ⊢
      rw [List.foldl_append, hrest, List.foldl_cons, List.foldl_nil, digitValue_digitChar (Nat.mod_lt _ (by omega))]
      omega

theorem toString_inj {m n : Nat} (h : toString m = toString n) : m = n := by
  have hvalue : ∀ k : Nat, digitsValue (toString k).toList = k := by
    intro k
    have hdigits : (toString k).toList = Nat.toDigits 10 k := String.toList_ofList
    rw [hdigits, digitsValue_toDigits]
  rw [← hvalue m, h, hvalue n]

theorem toDigits_ne_zero_cons {n : Nat} (hn : 0 < n) (ds : List Char) : Nat.toDigits 10 n ≠ '0' :: ds := by
  induction n using Nat.strongRecOn generalizing ds with
  | _ n ih =>
    intro heq
    by_cases h : n < 10
    · have hvalue := digitsValue_toDigits n
      rw [Nat.toDigits_of_lt_base h] at heq
      rw [Nat.toDigits_of_lt_base h, heq, (List.cons.inj heq).2.symm] at hvalue
      have hzero : digitsValue ['0'] = 0 := rfl
      omega
    · rw [Nat.toDigits_of_base_le (by omega) (by omega)] at heq
      cases hq : Nat.toDigits 10 (n / 10) with
      | nil => exact absurd hq Nat.toDigits_ne_nil
      | cons d ds' =>
        rw [hq] at heq
        cases heq
        exact ih (n / 10) (by omega) (by omega) ds' hq

theorem whole_toDigits (n : Nat) : Whole (Nat.toDigits 10 n) := by
  refine ⟨⟨Nat.toDigits_ne_nil, fun c hc => Nat.isDigit_of_mem_toDigits (by omega) (by omega) hc⟩, fun d ds h => ?_⟩
  rcases Nat.eq_zero_or_pos n with rfl | hn
  · cases h
  · exact toDigits_ne_zero_cons hn _ h

/-- Digits of a number that fits a word all go into it. -/
theorem fillWord_of_lt {ds : List Char} : ∀ {word : Nat},
    ds.foldl (fun n c => n * 10 + digitValue c) word < UInt64.size →
    fillWord word ds = (ds.foldl (fun n c => n * 10 + digitValue c) word, []) := by
  induction ds with
  | nil => exact fun _ => rfl
  | cons d ds ih =>
    intro word h
    have hgrows : ∀ (ds : List Char) (n : Nat), n ≤ ds.foldl (fun n c => n * 10 + digitValue c) n := by
      intro ds
      induction ds with
      | nil => exact Nat.le_refl
      | cons d ds ih =>
        intro n
        have hdigit : n ≤ n * 10 + digitValue d := by omega
        exact Nat.le_trans hdigit (ih (n * 10 + digitValue d))
    rw [fillWord, if_pos (Nat.lt_of_le_of_lt (hgrows ds _) h), List.foldl_cons]
    exact ih h

theorem scalar_integerText {n : Nat} (h : n < UInt64.size) : Scalar (.number (.integer n)) (integerText n) := by
  have hnumeral : numeralOf false (Nat.toDigits 10 n) none none = .integer n := by
    have hfill : fillWord 0 (Nat.toDigits 10 n) = (digitsValue (Nat.toDigits 10 n), []) :=
      fillWord_of_lt (by rw [← digitsValue, digitsValue_toDigits]; exact h)
    rw [digitsValue_toDigits] at hfill
    simp only [numeralOf, hfill, wordNumeral, Bool.false_eq_true, if_false]
  have hnumber := @Number.mk false _ _ _ _ _ (whole_toDigits n) .absent .absent
  rw [hnumeral] at hnumber
  have htext : integerText n = Nat.toDigits 10 n := by simp [integerText]
  rw [htext]
  simpa using Scalar.number hnumber

/-! ## Strings -/

theorem joinPieces_char {ps : List Piece} {cs : List Char} (h : joinPieces none ps = .ok cs) (c : Char) :
    joinPieces none (.char c :: ps) = .ok (c :: cs) := by
  rw [joinPieces, h]
  rfl

theorem joinPieces_unit {ps : List Piece} {cs : List Char} (h : joinPieces none ps = .ok cs) {code : Nat}
    (hcode : code < 0xd800) :
    joinPieces none (.unit code :: ps) = .ok (Char.ofNat code :: cs) := by
  have hlow : isLowSurrogate code = false := by simp [isLowSurrogate]; omega
  have hhigh : isHighSurrogate code = false := by simp [isHighSurrogate]; omega
  have hstep : joinPieces none (.unit code :: ps) = (do return Char.ofNat code :: (← joinPieces none ps)) := by
    rcases ps with _ | ⟨c | low, ps⟩ <;> simp [joinPieces, hlow, hhigh]
  rw [hstep, h]
  rfl

theorem hexUnit_digits : ∀ n < 0x20, hexUnit? '0' '0' (Nat.digitChar (n / 16)) (Nat.digitChar (n % 16)) = some n := by
  decide

/-- The inside of a printed string gives back its characters. -/
theorem quoted_escaped (cs : List Char) : ∃ ps, Quoted (cs.flatMap escapedChar) ps ∧ joinPieces none ps = .ok cs := by
  induction cs with
  | nil => exact ⟨[], .nil, rfl⟩
  | cons c cs ih =>
    obtain ⟨ps, hps, hjoin⟩ := ih
    have hletter : ∀ e, escapeLetter? e = some c → escapedChar c = ['\\', e] →
        ∃ ps, Quoted (escapedChar c ++ cs.flatMap escapedChar) ps ∧ joinPieces none ps = .ok (c :: cs) := by
      intro e he heq
      rw [heq]
      exact ⟨_, .letter he hps, joinPieces_char hjoin c⟩
    rw [List.flatMap_cons]
    by_cases hc : c ∈ ['"', '\\', '\x08', '\x0c', '\n', '\r', '\t']
    · simp only [List.mem_cons, List.not_mem_nil, or_false] at hc
      rcases hc with rfl | rfl | rfl | rfl | rfl | rfl | rfl
      · exact hletter '"' rfl rfl
      · exact hletter '\\' rfl rfl
      · exact hletter 'b' rfl rfl
      · exact hletter 'f' rfl rfl
      · exact hletter 'n' rfl rfl
      · exact hletter 'r' rfl rfl
      · exact hletter 't' rfl rfl
    · simp only [List.mem_cons, List.not_mem_nil, or_false, not_or] at hc
      obtain ⟨h1, h2, h3, h4, h5, h6, h7⟩ := hc
      by_cases hlow : c.toNat < 0x20
      · have heq : escapedChar c =
            ['\\', 'u', '0', '0', Nat.digitChar (c.toNat / 16), Nat.digitChar (c.toNat % 16)] := by
          simp [escapedChar, hlow]
        rw [heq]
        have hjoin' := joinPieces_unit hjoin (show c.toNat < 0xd800 by omega)
        rw [Char.ofNat_toNat] at hjoin'
        exact ⟨_, .unit (hexUnit_digits _ hlow) hps, hjoin'⟩
      · have heq : escapedChar c = [c] := by
          simp [escapedChar, hlow]
        rw [heq]
        exact ⟨_, .plain (by omega) h1 h2 hps, joinPieces_char hjoin c⟩

theorem quoted_stringText (s : String) : ∃ body ps, stringText s = '"' :: (body ++ ['"']) ∧ Quoted body ps ∧
    (joinPieces none ps).map String.ofList = .ok s := by
  obtain ⟨ps, hps, hjoin⟩ := quoted_escaped s.toList
  refine ⟨_, ps, rfl, hps, ?_⟩
  rw [hjoin]
  exact congrArg Except.ok String.ofList_toList

/-! ## Values -/

mutual

/-- Whether every number of a value is an unsigned integer of 64 bits. -/
def isCounting : Json → Bool
  | integer i => 0 ≤ i ∧ i < UInt64.size
  | float _ => false
  | array items => areCounting items
  | object members => haveCounting members
  | null | bool _ | string _ => true

/-- `isCounting` for the items of an array. -/
def areCounting : List Json → Bool
  | [] => true
  | item :: rest => isCounting item && areCounting rest

/-- `isCounting` for the values of an object. -/
def haveCounting : List (String × Json) → Bool
  | [] => true
  | (_, value) :: rest => isCounting value && haveCounting rest

end

theorem spelled_member {key : String} {v : Tree} {cs : List Char} (h : Spelled (.value v) cs) :
    Spelled (.member (.string (.ok key), v)) (stringText key ++ ':' :: cs) := by
  obtain ⟨body, ps, htext, hbody, hjoin⟩ := quoted_stringText key
  have hmember := Spelled.member hbody spaces_nil spaces_nil h
  rw [hjoin] at hmember
  simpa [htext] using hmember

mutual

/-- The text of a value on one line spells its outline. -/
theorem spelled_compactChars : ∀ v : Json, isCounting v = true → Spelled (.value (Tree.ofJson v)) (compactChars v)
  | .null, _ => .scalar .null
  | .bool true, _ => .scalar .true_
  | .bool false, _ => .scalar .false_
  | .integer i, h => by
    simp only [isCounting, Bool.decide_and, Bool.and_eq_true, decide_eq_true_eq] at h
    obtain ⟨n, rfl⟩ := Int.eq_ofNat_of_zero_le h.1
    exact .scalar (scalar_integerText (by omega))
  | .float _, h => nomatch h
  | .string s, _ => by
    obtain ⟨body, ps, htext, hbody, hjoin⟩ := quoted_stringText s
    have hstring := Scalar.string hbody
    rw [hjoin] at hstring
    rw [compactChars, leafText, htext]
    exact .scalar hstring
  | .array [], _ => .emptyArray spaces_nil
  | .array (item :: rest), h =>
      .array spaces_nil (spelled_compactItems (item :: rest) (List.cons_ne_nil _ _) h) spaces_nil
  | .object [], _ => .emptyObject spaces_nil
  | .object (member :: rest), h =>
    .object spaces_nil (spelled_compactMembers (member :: rest) (List.cons_ne_nil _ _) h) spaces_nil

theorem spelled_compactItems : ∀ items : List Json, items ≠ [] → areCounting items = true →
    Spelled (.items (Tree.ofItems items)) (compactItems items)
  | [], h, _ => absurd rfl h
  | [item], _, h => .item (spelled_compactChars item (Bool.and_eq_true_iff.1 h).1)
  | item :: next :: rest, _, h =>
    .moreItems (spelled_compactChars item (Bool.and_eq_true_iff.1 h).1) spaces_nil spaces_nil
      (spelled_compactItems (next :: rest) (List.cons_ne_nil _ _) (Bool.and_eq_true_iff.1 h).2)

theorem spelled_compactMembers : ∀ members : List (String × Json), members ≠ [] → haveCounting members = true →
    Spelled (.members (Tree.ofMembers members)) (compactMembers members)
  | [], h, _ => absurd rfl h
  | [(_, value)], _, h => .oneMember (spelled_member (spelled_compactChars value (Bool.and_eq_true_iff.1 h).1))
  | (_, value) :: next :: rest, _, h =>
    .moreMembers (spelled_member (spelled_compactChars value (Bool.and_eq_true_iff.1 h).1)) spaces_nil spaces_nil
      (spelled_compactMembers (next :: rest) (List.cons_ne_nil _ _) (Bool.and_eq_true_iff.1 h).2)

end

/-! ## Outlines and their values -/

mutual

theorem ofJson_inj : ∀ {v w : Json}, Tree.ofJson v = Tree.ofJson w → v = w
  | .array items, w, h => by
    cases w <;> simp only [Tree.ofJson, Tree.array.injEq, and_true, reduceCtorEq] at h
    rw [ofItems_inj h]
  | .object members, w, h => by
    cases w <;> simp only [Tree.ofJson, Tree.object.injEq, and_true, reduceCtorEq] at h
    rw [ofMembers_inj h]
  | .null, w, h | .bool _, w, h | .integer _, w, h | .float _, w, h | .string _, w, h => by
    cases w <;> simp_all [Tree.ofJson]

theorem ofItems_inj : ∀ {vs ws : List Json}, Tree.ofItems vs = Tree.ofItems ws → vs = ws
  | [], [], _ => rfl
  | [], _ :: _, h | _ :: _, [], h => nomatch h
  | v :: vs, w :: ws, h => by
    obtain ⟨hv, hvs⟩ := List.cons.inj h
    rw [ofJson_inj hv, ofItems_inj hvs]

theorem ofMembers_inj : ∀ {vs ws : List (String × Json)}, Tree.ofMembers vs = Tree.ofMembers ws → vs = ws
  | [], [], _ => rfl
  | [], _ :: _, h | _ :: _, [], h => nomatch h
  | (k, v) :: vs, (l, w) :: ws, h => by
    simp only [Tree.ofMembers, List.cons.injEq, Prod.mk.injEq, Tree.string.injEq, Except.ok.injEq] at h
    rw [h.1.1, ofJson_inj h.1.2, ofMembers_inj h.2]

end

/-- A text spells one value at most. -/
theorem spelled_unique {t t' : Tree} {cs : List Char} (h : Spelled (.value t) cs) (h' : Spelled (.value t') cs) :
    t = t' := by
  have hout : ∀ {u : Tree}, Spelled (.value u) cs → outline cs = ⟨u, false⟩ := fun hu =>
    outline_of_spelled ⟨[], cs, [], spaces_nil, hu, spaces_nil, by simp⟩
  have heq := (hout h).symm.trans (hout h')
  cases heq
  rfl

end CoveragePages.Json
