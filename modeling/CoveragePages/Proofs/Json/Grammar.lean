/-
The grammar of JSON text, as a relation between a text and its outline, and the scanner of values
against it: the scanner takes a value off the front of a text exactly when the text starts with one,
so a text reads as a value exactly when it spells an outline that does.
-/
import CoveragePages.Json.Decode
import CoveragePages.Proofs.Json.Token

namespace CoveragePages.Json

/-! ## The grammar -/

/-- What a piece of JSON text spells. -/
inductive Part where
  | value (t : Tree)
  | items (ts : List Tree)
  | member (m : Tree × Tree)
  | members (ms : List (Tree × Tree))

/-- The JSON grammar: which text spells what. Space stands between tokens, not around them. -/
inductive Spelled : Part → List Char → Prop
  | scalar {t : Tree} {cs : List Char} : Scalar t cs → Spelled (.value t) cs
  | emptyArray {s : List Char} : Spaces s → Spelled (.value (.array [] .closed)) ('[' :: (s ++ [']']))
  | array {ts : List Tree} {a cs z : List Char} : Spaces a → Spelled (.items ts) cs → Spaces z →
      Spelled (.value (.array ts .closed)) ('[' :: (a ++ (cs ++ (z ++ [']']))))
  | emptyObject {s : List Char} : Spaces s → Spelled (.value (.object [] .closed)) ('\x7b' :: (s ++ ['\x7d']))
  | object {ms : List (Tree × Tree)} {a cs z : List Char} : Spaces a → Spelled (.members ms) cs → Spaces z →
      Spelled (.value (.object ms .closed)) ('\x7b' :: (a ++ (cs ++ (z ++ ['\x7d']))))
  | item {t : Tree} {cs : List Char} : Spelled (.value t) cs → Spelled (.items [t]) cs
  | moreItems {t : Tree} {ts : List Tree} {cs a b ds : List Char} : Spelled (.value t) cs → Spaces a →
      Spaces b → Spelled (.items ts) ds → Spelled (.items (t :: ts)) (cs ++ (a ++ ',' :: (b ++ ds)))
  | member {body : List Char} {ps : List Piece} {v : Tree} {a b cs : List Char} : Quoted body ps → Spaces a →
      Spaces b → Spelled (.value v) cs →
      Spelled (.member (.string ((joinPieces none ps).map String.ofList), v))
        ('"' :: (body ++ '"' :: (a ++ ':' :: (b ++ cs))))
  | oneMember {m : Tree × Tree} {cs : List Char} : Spelled (.member m) cs → Spelled (.members [m]) cs
  | moreMembers {m : Tree × Tree} {ms : List (Tree × Tree)} {cs a b ds : List Char} : Spelled (.member m) cs →
      Spaces a → Spaces b → Spelled (.members ms) ds →
      Spelled (.members (m :: ms)) (cs ++ (a ++ ',' :: (b ++ ds)))

/-! ## How a value starts -/

/-- A character that a value may start with. -/
def Opens (c : Char) : Prop := c ∈ ['[', '\x7b', '"', 'n', 't', 'f', '-'] ∨ c.isDigit = true

theorem Opens.ne {c d : Char} (h : Opens c) (h1 : d ∉ ['[', '\x7b', '"', 'n', 't', 'f', '-'])
    (h2 : d.isDigit = false) : c ≠ d := by
  rintro rfl
  rcases h with h | h
  · exact h1 h
  · rw [h] at h2; cases h2

theorem Opens.not_isSpace {c : Char} (h : Opens c) : isSpace c = false := by
  simp only [isSpace, Bool.or_eq_false_iff, beq_eq_false_iff_ne]
  exact ⟨⟨⟨h.ne (by decide) rfl, h.ne (by decide) rfl⟩, h.ne (by decide) rfl⟩, h.ne (by decide) rfl⟩

theorem Opens.not_closer {c : Char} (h : Opens c) : c ≠ ']' ∧ c ≠ '\x7d' :=
  ⟨h.ne (by decide) rfl, h.ne (by decide) rfl⟩

theorem Scalar.cons {t : Tree} {cs : List Char} (h : Scalar t cs) :
    ∃ c r, cs = c :: r ∧ Opens c ∧ c ≠ '[' ∧ c ≠ '\x7b' := by
  cases h with
  | null | true_ | false_ | string => exact ⟨_, _, rfl, .inl (by decide), by decide, by decide⟩
  | number hn =>
    obtain ⟨c, r, rfl, hc⟩ := hn.cons
    rcases hc with rfl | hc
    · exact ⟨_, _, rfl, .inl (by decide), by decide, by decide⟩
    · exact ⟨_, _, rfl, .inr hc, ne_of_isDigit hc rfl, ne_of_isDigit hc rfl⟩

theorem Spelled.cons {p : Part} {cs : List Char} (h : Spelled p cs) : ∃ c r, cs = c :: r ∧ Opens c := by
  induction h with
  | scalar h => obtain ⟨c, r, hcs, hc, -⟩ := h.cons; exact ⟨c, r, hcs, hc⟩
  | emptyArray | array | emptyObject | object | member => exact ⟨_, _, rfl, .inl (by decide)⟩
  | item _ ih | oneMember _ ih => exact ih
  | moreItems _ _ _ _ ih | moreMembers _ _ _ _ ih =>
    obtain ⟨c, r, rfl, hc⟩ := ih
    exact ⟨c, _, rfl, hc⟩

theorem Spelled.skipSpace {p : Part} {cs : List Char} (h : Spelled p cs) {s : List Char} (hs : Spaces s)
    (rest : List Char) : skipSpace (s ++ (cs ++ rest)) = cs ++ rest := by
  obtain ⟨c, r, rfl, hc⟩ := h.cons
  rw [skipSpace_append hs, List.cons_append, skipSpace_cons hc.not_isSpace]

/-! ## The scanner takes nothing but values -/

/-- The scanners with some fuel take only what the grammar spells, and space before it. -/
structure ScansSound (fuel : Nat) : Prop where
  value : ∀ {cs rest : List Char} {t : Tree}, scanValue fuel cs = (t, .ok rest) →
    ∃ s text, Spaces s ∧ Spelled (.value t) text ∧ cs = s ++ (text ++ rest)
  items : ∀ {cs rest : List Char} {ts : List Tree} {e : Ending}, scanItems fuel cs = (ts, e, .ok rest) →
    e = .closed ∧ ∃ s text z, Spaces s ∧ Spelled (.items ts) text ∧ Spaces z ∧
      cs = s ++ (text ++ (z ++ ']' :: rest))
  members : ∀ {cs rest : List Char} {ms : List (Tree × Tree)} {e : Ending},
    scanMembers fuel cs = (ms, e, .ok rest) →
    e = .closed ∧ ∃ text z, Spelled (.members ms) text ∧ Spaces z ∧ cs = text ++ (z ++ '\x7d' :: rest)

theorem scanKey_sound {cs rest : List Char} {t : Tree} (h : scanKey cs = (t, .ok rest)) :
    ∃ body ps, Quoted body ps ∧ t = .string ((joinPieces none ps).map String.ofList) ∧
      cs = '"' :: (body ++ '"' :: rest) := by
  unfold scanKey at h
  split at h
  · unfold scanString at h
    split at h
    · rename_i ps r hps
      cases h
      obtain ⟨body, hcs, hb⟩ := scanPieces_sound _ hps
      exact ⟨body, ps, hb, rfl, by rw [hcs]⟩
    · cases h
  · cases h
  · cases h
  · cases h

theorem ScansSound.next_value {fuel : Nat} (ih : ScansSound fuel) {cs rest : List Char} {t : Tree}
    (h : scanValue (fuel + 1) cs = (t, .ok rest)) :
    ∃ s text, Spaces s ∧ Spelled (.value t) text ∧ cs = s ++ (text ++ rest) := by
  obtain ⟨s, hs, hcs⟩ := exists_spaces cs
  refine ⟨s, ?_⟩
  rw [hcs]
  unfold scanValue at h
  split at h
  · -- an array
    rename_i r heq
    rw [heq]
    obtain ⟨a, ha, hr⟩ := exists_spaces r
    split at h
    · cases h
    · rename_i r' heq'
      cases h
      exact ⟨_, hs, .emptyArray ha, by rw [hr, heq']; simp only [List.cons_append, List.append_assoc, List.nil_append]⟩
    · generalize hi : scanItems fuel (skipSpace r) = scanned at h
      obtain ⟨ts, e, after⟩ := scanned
      cases h
      obtain ⟨rfl, a', text, z, ha', htext, hz, hr'⟩ := ih.items hi
      refine ⟨_, hs, .array (ha.append ha') htext hz, ?_⟩
      rw [hr, hr']; simp only [List.cons_append, List.append_assoc, List.nil_append]
  · -- an object
    rename_i r heq
    rw [heq]
    obtain ⟨a, ha, hr⟩ := exists_spaces r
    split at h
    · cases h
    · rename_i r' heq'
      cases h
      exact ⟨_, hs, .emptyObject ha, by rw [hr, heq']; simp only [List.cons_append, List.append_assoc, List.nil_append]⟩
    · generalize hi : scanMembers fuel (skipSpace r) = scanned at h
      obtain ⟨ms, e, after⟩ := scanned
      cases h
      obtain ⟨rfl, text, z, htext, hz, hr'⟩ := ih.members hi
      refine ⟨_, hs, .object ha htext hz, ?_⟩
      rw [hr, hr']; simp only [List.cons_append, List.append_assoc, List.nil_append]
  · obtain ⟨text, htext, hr⟩ := scanScalar_sound h
    exact ⟨text, hs, .scalar htext, by rw [hr]⟩

theorem ScansSound.next_items {fuel : Nat} (ih : ScansSound fuel) {cs rest : List Char} {ts : List Tree} {e : Ending}
    (h : scanItems (fuel + 1) cs = (ts, e, .ok rest)) :
    e = .closed ∧ ∃ s text z, Spaces s ∧ Spelled (.items ts) text ∧ Spaces z ∧
      cs = s ++ (text ++ (z ++ ']' :: rest)) := by
  unfold scanItems at h
  split at h
  · cases h
  · rename_i item r hv
    obtain ⟨s, text, hs, htext, rfl⟩ := ih.value hv
    obtain ⟨z, hz, hr⟩ := exists_spaces r
    split at h
    · cases h
    · rename_i r' heq
      cases h
      exact ⟨rfl, s, text, z, hs, .item htext, hz, by rw [hr, heq]⟩
    · -- a comma, and not a closing bracket behind it
      rename_i r' heq
      obtain ⟨b, hb, hr'⟩ := exists_spaces r'
      split at h
      · cases h
      · generalize hi : scanItems fuel (skipSpace r') = scanned at h
        obtain ⟨ts', e', after⟩ := scanned
        cases h
        obtain ⟨rfl, b', text', z', hb', htext', hz', hr''⟩ := ih.items hi
        refine ⟨rfl, s, _, z', hs, .moreItems htext hz (hb.append hb') htext', hz', ?_⟩
        rw [hr, heq, hr', hr'']; simp only [List.cons_append, List.append_assoc]
    · cases h

theorem ScansSound.next_members {fuel : Nat} (ih : ScansSound fuel) {cs rest : List Char} {ms : List (Tree × Tree)}
    {e : Ending} (h : scanMembers (fuel + 1) cs = (ms, e, .ok rest)) :
    e = .closed ∧ ∃ text z, Spelled (.members ms) text ∧ Spaces z ∧ cs = text ++ (z ++ '\x7d' :: rest) := by
  unfold scanMembers at h
  split at h
  · cases h
  · rename_i key r hk
    obtain ⟨body, ps, hbody, rfl, rfl⟩ := scanKey_sound hk
    obtain ⟨a, ha, hr⟩ := exists_spaces r
    split at h
    · rename_i r' heq
      split at h
      · cases h
      · rename_i value r'' hv
        obtain ⟨b, text, hb, htext, hr'⟩ := ih.value hv
        have hm := Spelled.member hbody ha hb htext
        obtain ⟨z, hz, hr''⟩ := exists_spaces r''
        split at h
        · cases h
        · rename_i r''' heq'
          cases h
          refine ⟨rfl, _, z, .oneMember hm, hz, ?_⟩
          rw [hr, heq, hr', hr'', heq']; simp only [List.cons_append, List.append_assoc]
        · rename_i r''' heq'
          obtain ⟨d, hd, hr'''⟩ := exists_spaces r'''
          generalize hi : scanMembers fuel (skipSpace r''') = scanned at h
          obtain ⟨ms', e', after⟩ := scanned
          cases h
          obtain ⟨rfl, text', z', htext', hz', hr4⟩ := ih.members hi
          refine ⟨rfl, _, z', .moreMembers hm hz hd htext', hz', ?_⟩
          rw [hr, heq, hr', hr'', heq', hr''', hr4]; simp only [List.cons_append, List.append_assoc]
        · cases h
    · cases h

theorem scansSound (fuel : Nat) : ScansSound fuel := by
  induction fuel with
  | zero => constructor <;> (intros; rename_i h; cases h)
  | succ fuel ih => exact ⟨ih.next_value, ih.next_items, ih.next_members⟩

/-! ## The scanner takes every value -/

/-- The scanners take a part, given enough fuel, and leave what follows it. -/
def Part.Scanned : Part → List Char → Prop
  | .value t, cs => ∀ fuel s rest, 2 * cs.length ≤ fuel → Spaces s → Ends rest →
      scanValue fuel (s ++ (cs ++ rest)) = (t, .ok rest)
  | .items ts, cs => ∀ fuel z rest, 2 * cs.length + 1 ≤ fuel → Spaces z →
      scanItems fuel (cs ++ (z ++ ']' :: rest)) = (ts, .closed, .ok rest)
  | .member m, cs => ∀ fuel rest, 2 * cs.length ≤ fuel → Ends rest →
      ∃ r r', scanKey (cs ++ rest) = (m.1, .ok r) ∧ skipSpace r = ':' :: r' ∧ scanValue fuel r' = (m.2, .ok rest)
  | .members ms, cs => ∀ fuel z rest, 2 * cs.length + 1 ≤ fuel → Spaces z →
      scanMembers fuel (cs ++ (z ++ '\x7d' :: rest)) = (ms, .closed, .ok rest)

theorem scanned_scalar {t : Tree} {cs : List Char} (h : Scalar t cs) : Part.Scanned (.value t) cs := by
  intro fuel s rest hf hs hr
  obtain ⟨c, r, rfl, hc, hlist, hobject⟩ := h.cons
  obtain ⟨fuel, rfl⟩ : ∃ f, fuel = f + 1 := ⟨fuel - 1, by simp only [List.length_cons] at hf; omega⟩
  have hscan := scanScalar_complete h hr
  rw [List.cons_append] at hscan ⊢
  unfold scanValue
  rw [skipSpace_append hs, skipSpace_cons hc.not_isSpace]
  split
  · rename_i heq; cases heq; exact absurd rfl hlist
  · rename_i heq; cases heq; exact absurd rfl hobject
  · exact hscan

theorem scanned_emptyArray {s : List Char} (hs : Spaces s) :
    Part.Scanned (.value (.array [] .closed)) ('[' :: (s ++ [']'])) := by
  intro fuel s' rest hf hs' _
  obtain ⟨fuel, rfl⟩ : ∃ f, fuel = f + 1 := ⟨fuel - 1, by simp only [List.length_cons] at hf; omega⟩
  have hskip : skipSpace (s ++ ']' :: rest) = ']' :: rest := by rw [skipSpace_append hs, skipSpace_cons rfl]
  simp only [List.cons_append, List.append_assoc, List.nil_append]
  unfold scanValue
  rw [skipSpace_append hs', skipSpace_cons rfl]
  simp only [hskip]

theorem scanned_array {ts : List Tree} {a cs z : List Char} (ha : Spaces a) (h : Spelled (.items ts) cs)
    (hz : Spaces z) (ih : Part.Scanned (.items ts) cs) :
    Part.Scanned (.value (.array ts .closed)) ('[' :: (a ++ (cs ++ (z ++ [']'])))) := by
  intro fuel s rest hf hs _
  simp only [List.length_cons, List.length_append] at hf
  obtain ⟨fuel, rfl⟩ : ∃ f, fuel = f + 1 := ⟨fuel - 1, by omega⟩
  have hi := ih fuel z rest (by omega) hz
  have hskip := h.skipSpace ha (z ++ ']' :: rest)
  obtain ⟨c, r, rfl, hc⟩ := h.cons
  simp only [List.cons_append, List.append_assoc, List.nil_append] at hi hskip ⊢
  unfold scanValue
  rw [skipSpace_append hs, skipSpace_cons rfl]
  simp only [hskip]
  split
  · rename_i heq; cases heq
  · rename_i heq; cases heq; exact absurd rfl hc.not_closer.1
  · rw [hi]

theorem scanned_emptyObject {s : List Char} (hs : Spaces s) :
    Part.Scanned (.value (.object [] .closed)) ('\x7b' :: (s ++ ['\x7d'])) := by
  intro fuel s' rest hf hs' _
  obtain ⟨fuel, rfl⟩ : ∃ f, fuel = f + 1 := ⟨fuel - 1, by simp only [List.length_cons] at hf; omega⟩
  have hskip : skipSpace (s ++ '\x7d' :: rest) = '\x7d' :: rest := by
    rw [skipSpace_append hs, skipSpace_cons rfl]
  simp only [List.cons_append, List.append_assoc, List.nil_append]
  unfold scanValue
  rw [skipSpace_append hs', skipSpace_cons rfl]
  simp only [hskip]

theorem scanned_object {ms : List (Tree × Tree)} {a cs z : List Char} (ha : Spaces a)
    (h : Spelled (.members ms) cs) (hz : Spaces z) (ih : Part.Scanned (.members ms) cs) :
    Part.Scanned (.value (.object ms .closed)) ('\x7b' :: (a ++ (cs ++ (z ++ ['\x7d'])))) := by
  intro fuel s rest hf hs _
  simp only [List.length_cons, List.length_append] at hf
  obtain ⟨fuel, rfl⟩ : ∃ f, fuel = f + 1 := ⟨fuel - 1, by omega⟩
  have hi := ih fuel z rest (by omega) hz
  have hskip := h.skipSpace ha (z ++ '\x7d' :: rest)
  obtain ⟨c, r, rfl, hc⟩ := h.cons
  simp only [List.cons_append, List.append_assoc, List.nil_append] at hi hskip ⊢
  unfold scanValue
  rw [skipSpace_append hs, skipSpace_cons rfl]
  simp only [hskip]
  split
  · rename_i heq; cases heq
  · rename_i heq; cases heq; exact absurd rfl hc.not_closer.2
  · rw [hi]

theorem scanned_item {t : Tree} {cs : List Char} (ih : Part.Scanned (.value t) cs) : Part.Scanned (.items [t]) cs := by
  intro fuel z rest hf hz
  obtain ⟨fuel, rfl⟩ : ∃ f, fuel = f + 1 := ⟨fuel - 1, by omega⟩
  have hv := ih fuel [] (z ++ ']' :: rest) (by omega) spaces_nil (hz.ends (ends_cons (by decide) rest))
  rw [List.nil_append] at hv
  unfold scanItems
  simp only [hv, skipSpace_append hz, skipSpace_cons (c := ']') rfl]

theorem scanned_moreItems {t : Tree} {ts : List Tree} {cs a b ds : List Char} (ha : Spaces a) (hb : Spaces b)
    (h : Spelled (.items ts) ds) (ihv : Part.Scanned (.value t) cs) (ih : Part.Scanned (.items ts) ds) :
    Part.Scanned (.items (t :: ts)) (cs ++ (a ++ ',' :: (b ++ ds))) := by
  intro fuel z rest hf hz
  simp only [List.length_cons, List.length_append] at hf
  obtain ⟨fuel, rfl⟩ : ∃ f, fuel = f + 1 := ⟨fuel - 1, by omega⟩
  have hv := ihv fuel [] (a ++ ',' :: (b ++ (ds ++ (z ++ ']' :: rest)))) (by omega) spaces_nil
    (ha.ends (ends_cons (by decide) _))
  have hi := ih fuel z rest (by omega) hz
  have hskip := h.skipSpace hb (z ++ ']' :: rest)
  obtain ⟨c, r, rfl, hc⟩ := h.cons
  simp only [List.cons_append, List.append_assoc, List.nil_append] at hv hi hskip ⊢
  unfold scanItems
  simp only [hv, skipSpace_append ha, skipSpace_cons (c := ',') rfl, hskip]
  split
  · rename_i heq; cases heq; exact absurd rfl hc.not_closer.1
  · rw [hi]

theorem scanned_member {body : List Char} {ps : List Piece} {v : Tree} {a b cs : List Char} (hbody : Quoted body ps)
    (ha : Spaces a) (hb : Spaces b) (ih : Part.Scanned (.value v) cs) :
    Part.Scanned (.member (.string ((joinPieces none ps).map String.ofList), v))
      ('"' :: (body ++ '"' :: (a ++ ':' :: (b ++ cs)))) := by
  intro fuel rest hf hr
  simp only [List.length_cons, List.length_append] at hf
  refine ⟨a ++ ':' :: (b ++ (cs ++ rest)), b ++ (cs ++ rest), ?_, ?_, ih fuel b rest (by omega) hb hr⟩
  · simp only [List.cons_append, List.append_assoc, scanKey, scanString_complete hbody]
  · rw [skipSpace_append ha, skipSpace_cons rfl]

theorem scanned_oneMember {m : Tree × Tree} {cs : List Char} (ih : Part.Scanned (.member m) cs) :
    Part.Scanned (.members [m]) cs := by
  intro fuel z rest hf hz
  obtain ⟨fuel, rfl⟩ : ∃ f, fuel = f + 1 := ⟨fuel - 1, by omega⟩
  obtain ⟨r, r', hkey, hcolon, hvalue⟩ :=
    ih fuel (z ++ '\x7d' :: rest) (by omega) (hz.ends (ends_cons (by decide) rest))
  unfold scanMembers
  simp only [hkey, hcolon, hvalue, skipSpace_append hz, skipSpace_cons (c := '\x7d') rfl]

theorem scanned_moreMembers {m : Tree × Tree} {ms : List (Tree × Tree)} {cs a b ds : List Char} (ha : Spaces a)
    (hb : Spaces b) (h : Spelled (.members ms) ds) (ihm : Part.Scanned (.member m) cs)
    (ih : Part.Scanned (.members ms) ds) : Part.Scanned (.members (m :: ms)) (cs ++ (a ++ ',' :: (b ++ ds))) := by
  intro fuel z rest hf hz
  simp only [List.length_cons, List.length_append] at hf
  obtain ⟨fuel, rfl⟩ : ∃ f, fuel = f + 1 := ⟨fuel - 1, by omega⟩
  obtain ⟨r, r', hkey, hcolon, hvalue⟩ := ihm fuel (a ++ ',' :: (b ++ (ds ++ (z ++ '\x7d' :: rest)))) (by omega)
    (ha.ends (ends_cons (by decide) _))
  have hi := ih fuel z rest (by omega) hz
  have hskip := h.skipSpace hb (z ++ '\x7d' :: rest)
  simp only [List.cons_append, List.append_assoc]
  unfold scanMembers
  simp only [hkey, hcolon, hvalue, skipSpace_append ha, skipSpace_cons (c := ',') rfl, hskip, hi]

theorem Spelled.scanned {p : Part} {cs : List Char} (h : Spelled p cs) : p.Scanned cs := by
  induction h with
  | scalar h => exact scanned_scalar h
  | emptyArray hs => exact scanned_emptyArray hs
  | array ha h hz ih => exact scanned_array ha h hz ih
  | emptyObject hs => exact scanned_emptyObject hs
  | object ha h hz ih => exact scanned_object ha h hz ih
  | item _ ih => exact scanned_item ih
  | moreItems _ ha hb h ihv ih => exact scanned_moreItems ha hb h ihv ih
  | member hbody ha hb _ ih => exact scanned_member hbody ha hb ih
  | oneMember _ ih => exact scanned_oneMember ih
  | moreMembers _ ha hb h ihm ih => exact scanned_moreMembers ha hb h ihm ih

/-! ## Whole texts -/

/-- A text of one value with space around it, and the outline of the value. -/
def SpelledText (t : Tree) (cs : List Char) : Prop :=
  ∃ s text z, Spaces s ∧ Spelled (.value t) text ∧ Spaces z ∧ cs = s ++ (text ++ z)

theorem outline_of_spelled {t : Tree} {cs : List Char} (h : SpelledText t cs) : outline cs = ⟨t, false⟩ := by
  obtain ⟨s, text, z, hs, htext, hz, rfl⟩ := h
  have hscan := htext.scanned (2 * (s ++ (text ++ z)).length + 2) s z
    (by simp only [List.length_append]; omega) hs (by simpa using hz.ends ends_nil)
  unfold outline
  rw [hscan]
  simp only [skipSpace_spaces hz, ne_eq, not_true_eq_false, decide_false]

/-! ## Texts that break off -/

theorem scanItems_error {fuel : Nat} : ∀ {cs : List Char} {ts : List Tree} {e : Ending} {b : Break},
    scanItems fuel cs = (ts, e, .error b) → ∃ b', e = .broken b' := by
  induction fuel with
  | zero => intro cs ts e b h; cases h; exact ⟨_, rfl⟩
  | succ fuel ih =>
    intro cs ts e b h
    unfold scanItems at h
    split at h
    · cases h; exact ⟨_, rfl⟩
    · split at h
      · cases h; exact ⟨_, rfl⟩
      · cases h
      · split at h
        · cases h; exact ⟨_, rfl⟩
        · rename_i r _ _ _
          generalize hi : scanItems fuel (skipSpace r) = scanned at h
          obtain ⟨ts', e', after⟩ := scanned
          cases h
          exact ih hi
      · cases h; exact ⟨_, rfl⟩

theorem scanMembers_error {fuel : Nat} : ∀ {cs : List Char} {ms : List (Tree × Tree)} {e : Ending} {b : Break},
    scanMembers fuel cs = (ms, e, .error b) → ∃ b', e = .broken b' := by
  induction fuel with
  | zero => intro cs ms e b h; cases h; exact ⟨_, rfl⟩
  | succ fuel ih =>
    intro cs ms e b h
    unfold scanMembers at h
    split at h
    · cases h; exact ⟨_, rfl⟩
    · split at h
      · split at h
        · cases h; exact ⟨_, rfl⟩
        · split at h
          · cases h; exact ⟨_, rfl⟩
          · cases h
          · rename_i r _
            generalize hi : scanMembers fuel (skipSpace r) = scanned at h
            obtain ⟨ms', e', after⟩ := scanned
            cases h
            exact ih hi
          · cases h; exact ⟨_, rfl⟩
      · cases h; exact ⟨_, rfl⟩

theorem scanScalar_error {cs : List Char} {t : Tree} {b : Break} (h : scanScalar cs = (t, .error b)) :
    ∃ b', t = .broken b' := by
  unfold scanScalar at h
  split at h
  · cases h; exact ⟨_, rfl⟩
  · unfold scanString at h
    split at h <;> cases h
    exact ⟨_, rfl⟩
  · unfold scanNamed at h
    split at h <;> cases h
    exact ⟨_, rfl⟩
  · unfold scanNamed at h
    split at h <;> cases h
    exact ⟨_, rfl⟩
  · unfold scanNamed at h
    split at h <;> cases h
    exact ⟨_, rfl⟩
  · split at h
    · unfold scanNumber at h
      simp only at h
      split at h <;> cases h
      exact ⟨_, rfl⟩
    · cases h; exact ⟨_, rfl⟩

/-- A value whose text breaks off ends with a break. -/
theorem scanValue_error {fuel : Nat} {cs : List Char} {t : Tree} {b : Break}
    (h : scanValue fuel cs = (t, .error b)) :
    ∃ b', t = .broken b' ∨ (∃ ts, t = .array ts (.broken b')) ∨ ∃ ms, t = .object ms (.broken b') := by
  cases fuel with
  | zero => cases h; exact ⟨_, .inl rfl⟩
  | succ fuel =>
    unfold scanValue at h
    split at h
    · rename_i r _
      split at h
      · cases h; exact ⟨_, .inr (.inl ⟨_, rfl⟩)⟩
      · cases h
      · generalize hi : scanItems fuel (skipSpace r) = scanned at h
        obtain ⟨ts, e, after⟩ := scanned
        cases h
        obtain ⟨b', rfl⟩ := scanItems_error hi
        exact ⟨b', .inr (.inl ⟨ts, rfl⟩)⟩
    · rename_i r _
      split at h
      · cases h; exact ⟨_, .inr (.inr ⟨_, rfl⟩)⟩
      · cases h
      · generalize hi : scanMembers fuel (skipSpace r) = scanned at h
        obtain ⟨ms, e, after⟩ := scanned
        cases h
        obtain ⟨b', rfl⟩ := scanMembers_error hi
        exact ⟨b', .inr (.inr ⟨ms, rfl⟩)⟩
    · obtain ⟨b', rfl⟩ := scanScalar_error h
      exact ⟨b', .inl rfl⟩

theorem bind_ok {ε α β : Type} {x : Except ε α} {f : α → Except ε β} {b : β} (h : (x >>= f) = .ok b) :
    ∃ a, x = .ok a ∧ f a = .ok b := by
  cases x with
  | error e => cases h
  | ok a => exact ⟨a, rfl, h⟩

theorem readAny_ne_ok {fuel : Nat} {cs : List Char} {t : Tree} {b : Break} (h : scanValue fuel cs = (t, .error b))
    (origin : Origin) (v : Json) : readAny origin t ≠ .ok v := by
  intro hv
  obtain ⟨b', rfl | ⟨ts, rfl⟩ | ⟨ms, rfl⟩⟩ := scanValue_error h
  · unfold readAny at hv; cases hv
  · unfold readAny at hv
    obtain ⟨o, -, hv⟩ := bind_ok hv
    obtain ⟨vs, -, hv⟩ := bind_ok hv
    cases hv
  · unfold readAny at hv
    obtain ⟨o, -, hv⟩ := bind_ok hv
    obtain ⟨vs, -, hv⟩ := bind_ok hv
    cases hv

/-- A reader that takes nothing that breaks off reads a text exactly when the text spells an outline that it reads. -/
theorem readText_eq_ok_iff {α : Type} {read : Reader α}
    (hbreak : ∀ {fuel : Nat} {cs : List Char} {t : Tree} {b : Break}, scanValue fuel cs = (t, .error b) →
      ∀ a, read (.text maxDepth) t ≠ .ok a) {text : String} {a : α} :
    readText read text = .ok a ↔ ∃ t, SpelledText t text.toList ∧ read (.text maxDepth) t = .ok a := by
  constructor
  · intro h
    obtain ⟨a, hread, h⟩ := bind_ok h
    unfold outline at hread h
    split at hread
    · rename_i root rest hscan
      rw [hscan] at h
      obtain ⟨s, cs, hs, hcs, htext⟩ := (scansSound _).value hscan
      obtain ⟨z, hz, hrest⟩ := exists_spaces rest
      by_cases hskip : skipSpace rest = []
      · simp only [hskip, ne_eq, not_true_eq_false, decide_false, Bool.false_eq_true, if_false] at h
        cases h
        rw [hskip, List.append_nil] at hrest
        exact ⟨root, ⟨s, cs, rest, hs, hcs, hrest ▸ hz, htext⟩, hread⟩
      · simp only [ne_eq, hskip, not_false_eq_true, decide_true, if_true] at h
        cases h
    · rename_i root b hscan
      exact absurd hread (hbreak hscan _)
  · rintro ⟨t, ht, hv⟩
    unfold readText
    simp only [outline_of_spelled ht, hv]
    rfl

/-- A text reads as a value exactly when it spells an outline that reads as it. -/
theorem parse_eq_ok_iff {text : String} {v : Json} :
    parse text = .ok v ↔ ∃ t, SpelledText t text.toList ∧ readAny (.text maxDepth) t = .ok v :=
  readText_eq_ok_iff fun hscan => readAny_ne_ok hscan _

end CoveragePages.Json
