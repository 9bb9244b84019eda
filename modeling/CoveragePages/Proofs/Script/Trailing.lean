/-
Values of data scripts, read backwards: a text that is JSON once its trailing commas are dropped is
JSON with at most one comma before each closing bracket. The grammar says where such commas may
stand; the dropping of commas does not look at what is before a comma, so it also takes one that
stands between brackets with no element.

The induction is over the grammar of the text without the commas. It cuts the written text, token by
token: a dropped comma is seen at the closing bracket that it stands before.
-/
import CoveragePages.Proofs.Script.Value
import Mathlib.Data.List.Infix
import Mathlib.Data.List.TakeWhile

namespace CoveragePages.Script

open Json (Spaces Opens Quoted Scalar Spelled)

/-! ## The grammar -/

/-- What may stand before a closing bracket: space, and a comma if that is allowed. -/
inductive Closing (comma : Bool) : List Char → Prop
  | space {s : List Char} : Spaces s → Closing comma s
  | comma {a b : List Char} : comma = true → Spaces a → Spaces b → Closing comma (a ++ ',' :: b)

/-- JSON text with at most one comma before each closing bracket that follows an element; and, if `lone`
says so, between brackets without elements. -/
inductive Lenient (lone : Bool) : Json.Part → List Char → Prop
  | scalar {t : Json.Tree} {cs : List Char} : Scalar t cs → Lenient lone (.value t) cs
  | emptyArray {s : List Char} : Closing lone s → Lenient lone (.value (.array [] .closed)) ('[' :: (s ++ [']']))
  | array {ts : List Json.Tree} {a cs z : List Char} : Spaces a → Lenient lone (.items ts) cs → Closing true z →
      Lenient lone (.value (.array ts .closed)) ('[' :: (a ++ (cs ++ (z ++ [']']))))
  | emptyObject {s : List Char} : Closing lone s →
      Lenient lone (.value (.object [] .closed)) ('\x7b' :: (s ++ ['\x7d']))
  | object {ms : List (Json.Tree × Json.Tree)} {a cs z : List Char} : Spaces a → Lenient lone (.members ms) cs →
      Closing true z → Lenient lone (.value (.object ms .closed)) ('\x7b' :: (a ++ (cs ++ (z ++ ['\x7d']))))
  | item {t : Json.Tree} {cs : List Char} : Lenient lone (.value t) cs → Lenient lone (.items [t]) cs
  | moreItems {t : Json.Tree} {ts : List Json.Tree} {cs a b ds : List Char} : Lenient lone (.value t) cs → Spaces a →
      Spaces b → Lenient lone (.items ts) ds → Lenient lone (.items (t :: ts)) (cs ++ (a ++ ',' :: (b ++ ds)))
  | member {body : List Char} {ps : List Json.Piece} {v : Json.Tree} {a b cs : List Char} : Quoted body ps → Spaces a →
      Spaces b → Lenient lone (.value v) cs →
      Lenient lone (.member (.string ((Json.joinPieces none ps).map String.ofList), v))
        ('"' :: (body ++ '"' :: (a ++ ':' :: (b ++ cs))))
  | oneMember {m : Json.Tree × Json.Tree} {cs : List Char} : Lenient lone (.member m) cs →
      Lenient lone (.members [m]) cs
  | moreMembers {m : Json.Tree × Json.Tree} {ms : List (Json.Tree × Json.Tree)} {cs a b ds : List Char} :
      Lenient lone (.member m) cs → Spaces a → Spaces b → Lenient lone (.members ms) ds →
      Lenient lone (.members (m :: ms)) (cs ++ (a ++ ',' :: (b ++ ds)))

theorem Lenient.cons {lone : Bool} {p : Json.Part} {cs : List Char} (h : Lenient lone p cs) :
    ∃ c r, cs = c :: r ∧ Opens c := by
  induction h with
  | scalar h => obtain ⟨c, r, hcs, hc, -⟩ := h.cons; exact ⟨c, r, hcs, hc⟩
  | emptyArray | array | emptyObject | object | member => exact ⟨_, _, rfl, .inl (by decide)⟩
  | item _ ih | oneMember _ ih => exact ih
  | moreItems _ _ _ _ ih | moreMembers _ _ _ _ ih =>
    obtain ⟨c, r, rfl, hc⟩ := ih
    exact ⟨c, _, rfl, hc⟩

/-! ## Cutting at a token -/

theorem Closes.ne_comma {c : Char} (h : Closes c) : c ≠ ',' := by
  rcases h with rfl | rfl <;> decide

theorem Closes.next {c : Char} (h : Closes c) : Quoting.outside.next c.toNat = .outside := by
  rcases h with rfl | rfl <;> rfl

theorem not_closes_of_opens {c : Char} (h : Opens c) : ¬ Closes c := fun hc => hc.elim h.not_closer.1 h.not_closer.2

theorem next_blank {c : Char} (h : Text.isBlank c = true) : Quoting.outside.next c.toNat = .outside := by
  refine next_outside ?_
  rintro rfl
  cases h

theorem ne_comma_of_isBlank {c : Char} (h : Text.isBlank c = true) : c ≠ ',' := by
  rintro rfl
  cases h

theorem dropTrailingCommasIn_keep {c : Char} (hc : c ≠ ',') (rest : List Char) :
    dropTrailingCommasIn .outside (c :: rest) = c :: dropTrailingCommasIn (Quoting.outside.next c.toNat) rest :=
  if_neg fun h => hc h.2.1

theorem dropTrailingCommasIn_blanks {s : List Char} (hs : Blanks s) (rest : List Char) :
    dropTrailingCommasIn .outside (s ++ rest) = s ++ dropTrailingCommasIn .outside rest := by
  induction s with
  | nil => rfl
  | cons c s ih =>
    have hc := hs c List.mem_cons_self
    rw [List.cons_append, dropTrailingCommasIn_keep (ne_comma_of_isBlank hc), next_blank hc,
      ih fun d hd => hs d (List.mem_cons_of_mem c hd)]
    rfl

/-- White space up to a solid character is the same on both sides of two equal texts. -/
theorem blanks_cancel {a b x y : List Char} {c d : Char} (ha : Blanks a) (hb : Blanks b) (hc : Text.isBlank c = false)
    (hd : Text.isBlank d = false) (h : a ++ c :: x = b ++ d :: y) : a = b ∧ c = d ∧ x = y := by
  have htake : ∀ {s : List Char} {e : Char} {z : List Char}, Blanks s → Text.isBlank e = false →
      (s ++ e :: z).takeWhile Text.isBlank = s := by
    intro s e z hs he
    rw [List.takeWhile_append_of_pos hs, List.takeWhile_cons_of_neg (by rw [he]; decide), List.append_nil]
  obtain rfl : a = b := by rw [← htake ha hc, h, htake hb hd]
  obtain ⟨rfl, rfl⟩ := List.cons.inj (List.append_cancel_left h)
  exact ⟨rfl, rfl, rfl⟩

/-- Where the text without trailing commas has a character after white space, so has the written text.
If the character closes, a comma may have stood somewhere in the white space. -/
theorem cut_at {raw s tail : List Char} {c : Char} (hs : Blanks s) (hc : Text.isBlank c = false)
    (h : dropTrailingCommasIn .outside raw = s ++ c :: tail) :
    ∃ z rest, raw = z ++ c :: rest ∧ dropTrailingCommasIn .outside (c :: rest) = c :: tail ∧
      dropTrailingCommasIn (Quoting.outside.next c.toNat) rest = tail ∧
      (z = s ∨ Closes c ∧ ∃ a b, s = a ++ b ∧ z = a ++ ',' :: b) := by
  induction raw generalizing s with
  | nil => rcases s with _ | ⟨d, s⟩ <;> cases h
  | cons x rest ih =>
    by_cases hdrop : x = ',' ∧ closesNext rest = true
    · -- what follows the comma is white space and the bracket, so that is what `s` and `c` are
      obtain ⟨rfl, hcloses⟩ := hdrop
      obtain ⟨s', k, r, hs', hk, rfl⟩ := closesNext_iff.1 hcloses
      rw [dropTrailingCommasIn, if_pos ⟨rfl, rfl, hcloses⟩, dropTrailingCommasIn_blanks hs',
        dropTrailingCommasIn_keep hk.ne_comma] at h
      obtain ⟨rfl, rfl, rfl⟩ := blanks_cancel hs' hs hk.not_isBlank hc h
      exact ⟨',' :: s', r, rfl, dropTrailingCommasIn_keep hk.ne_comma r, rfl, .inr ⟨hk, [], s', rfl, rfl⟩⟩
    · have hkeep : dropTrailingCommasIn .outside (x :: rest) =
          x :: dropTrailingCommasIn (Quoting.outside.next x.toNat) rest := if_neg fun h => hdrop h.2
      cases s with
      | nil =>
        rw [hkeep] at h
        obtain ⟨rfl, htail⟩ := List.cons.inj h
        exact ⟨[], rest, rfl, by rw [hkeep, htail], htail, .inl rfl⟩
      | cons y s =>
        rw [hkeep] at h
        obtain ⟨rfl, htail⟩ := List.cons.inj h
        have hx := hs x List.mem_cons_self
        rw [next_blank hx] at htail
        obtain ⟨z, rest', rfl, hcut, hrest, hz⟩ := ih (fun d hd => hs d (List.mem_cons_of_mem x hd)) htail
        refine ⟨x :: z, rest', rfl, hcut, hrest, ?_⟩
        rcases hz with rfl | ⟨hcloses, a, b, rfl, rfl⟩
        · exact .inl rfl
        · exact .inr ⟨hcloses, x :: a, b, rfl, rfl⟩

/-- A solid character that does not close stands right after the white space. -/
theorem cut_before {raw s tail : List Char} {c : Char} (hs : Blanks s) (hc : Text.isBlank c = false)
    (hopen : ¬ Closes c) (h : dropTrailingCommasIn .outside raw = s ++ c :: tail) :
    ∃ rest, raw = s ++ c :: rest ∧ dropTrailingCommasIn .outside (c :: rest) = c :: tail ∧
      dropTrailingCommasIn (Quoting.outside.next c.toNat) rest = tail := by
  obtain ⟨z, rest, rfl, hcut, hrest, rfl | ⟨hcloses, -⟩⟩ := cut_at hs hc h
  · exact ⟨rest, rfl, hcut, hrest⟩
  · exact absurd hcloses hopen

/-- Before a closing bracket there is space, and perhaps a comma. -/
theorem cut_closing {raw s tail : List Char} {c : Char} (hs : Spaces s) (hc : Closes c)
    (h : dropTrailingCommasIn .outside raw = s ++ c :: tail) :
    ∃ z rest, raw = z ++ c :: rest ∧ dropTrailingCommasIn .outside rest = tail ∧ Closing true z := by
  obtain ⟨z, rest, rfl, -, hrest, rfl | ⟨-, a, b, rfl, rfl⟩⟩ := cut_at (blanks_of_spaces hs) hc.not_isBlank h
  · exact ⟨z, rest, rfl, by rw [← hrest, hc.next], .space hs⟩
  · refine ⟨_, rest, rfl, by rw [← hrest, hc.next], .comma rfl (fun d hd => hs d ?_) fun d hd => hs d ?_⟩
    · exact List.mem_append_left b hd
    · exact List.mem_append_right a hd

theorem cut_hidden {body : List Char} (hbody : Hidden body) {raw tail : List Char}
    (h : dropTrailingCommasIn .inside raw = body ++ '"' :: tail) :
    ∃ rest, raw = body ++ '"' :: rest ∧ dropTrailingCommasIn .outside rest = tail := by
  have hcons : ∀ {q : Quoting} {x : Char} {rest : List Char}, q ≠ .outside →
      dropTrailingCommasIn q (x :: rest) = x :: dropTrailingCommasIn (q.next x.toNat) rest :=
    fun hq => if_neg fun h => hq h.1
  induction hbody generalizing raw with
  | nil =>
    cases raw with
    | nil => cases h
    | cons x rest =>
      rw [hcons (by decide)] at h
      obtain ⟨rfl, htail⟩ := List.cons.inj h
      exact ⟨rest, rfl, htail⟩
  | @plain c cs hquote hslash _ ih =>
    cases raw with
    | nil => cases h
    | cons x rest =>
      rw [hcons (by decide)] at h
      obtain ⟨rfl, htail⟩ := List.cons.inj h
      rw [next_inside hquote hslash] at htail
      obtain ⟨rest', rfl, hrest⟩ := ih htail
      exact ⟨rest', rfl, hrest⟩
  | @escape c cs _ ih =>
    rcases raw with _ | ⟨x, _ | ⟨y, rest⟩⟩
    · cases h
    · rw [hcons (by decide)] at h
      cases (List.cons.inj h).2
    · rw [hcons (by decide)] at h
      obtain ⟨rfl, htail⟩ := List.cons.inj h
      rw [hcons (by decide)] at htail
      obtain ⟨rfl, htail'⟩ := List.cons.inj htail
      obtain ⟨rest', rfl, hrest⟩ := ih htail'
      exact ⟨rest', rfl, hrest⟩

theorem cut_string {body : List Char} (hbody : Hidden body) {raw tail : List Char}
    (h : dropTrailingCommasIn .outside raw = '"' :: (body ++ '"' :: tail)) :
    ∃ rest, raw = '"' :: (body ++ '"' :: rest) ∧ dropTrailingCommasIn .outside rest = tail := by
  obtain ⟨rest, rfl, -, hinside⟩ := cut_before (s := []) (fun _ h => nomatch h) rfl (by unfold Closes; decide) h
  obtain ⟨rest', rfl, hrest⟩ := cut_hidden hbody hinside
  exact ⟨rest', rfl, hrest⟩

theorem cut_idle {cs : List Char} (hidle : ∀ c ∈ cs, Idle c ∧ Text.isBlank c = false) {raw tail : List Char}
    (h : dropTrailingCommasIn .outside raw = cs ++ tail) :
    ∃ rest, raw = cs ++ rest ∧ dropTrailingCommasIn .outside rest = tail := by
  induction cs generalizing raw with
  | nil => exact ⟨raw, rfl, h⟩
  | cons c cs ih =>
    obtain ⟨hc, hsolid⟩ := hidle c List.mem_cons_self
    have hopen : ¬ Closes c := by rintro (rfl | rfl) <;> exact hc (by decide)
    have hquote : c ≠ '"' := by rintro rfl; exact hc (by decide)
    obtain ⟨rest, rfl, -, hrest⟩ := cut_before (s := []) (fun _ h => nomatch h) hsolid hopen h
    rw [next_outside hquote] at hrest
    obtain ⟨rest', rfl, htail⟩ := ih (fun d hd => hidle d (List.mem_cons_of_mem c hd)) hrest
    exact ⟨rest', rfl, htail⟩

/-! ## Reading the commas back -/

/-- Every text that starts with some text once its trailing commas are dropped starts with a lenient
writing of the same part. -/
def Recovers (p : Json.Part) (text : List Char) : Prop :=
  ∀ {raw tail : List Char}, dropTrailingCommasIn .outside raw = text ++ tail →
    ∃ written rest, raw = written ++ rest ∧ Lenient true p written ∧ dropTrailingCommasIn .outside rest = tail

theorem recovers_scalar {t : Json.Tree} {cs : List Char} (h : Scalar t cs) : Recovers (.value t) cs := by
  intro raw tail hraw
  have hidle : (∀ c ∈ cs, Idle c ∧ Text.isBlank c = false) →
      ∃ written rest, raw = written ++ rest ∧ Lenient true (.value t) written ∧
        dropTrailingCommasIn .outside rest = tail := by
    intro hcs
    obtain ⟨rest, rfl, hrest⟩ := cut_idle hcs hraw
    exact ⟨cs, rest, rfl, .scalar h, hrest⟩
  cases h with
  | string hbody =>
    rw [List.cons_append, List.append_assoc] at hraw
    obtain ⟨rest, rfl, hrest⟩ := cut_string (hidden_of_quoted hbody) hraw
    exact ⟨_, rest, by simp, .scalar (.string hbody), hrest⟩
  | null | true_ | false_ => exact hidle (by unfold Idle; exact Json.forall_of_all rfl)
  | number hn => exact hidle fun c hc =>
      ⟨idle_of_inNumber (hn.inNumber c hc), not_isBlank_of_inNumber (hn.inNumber c hc)⟩

/-- The opening bracket of a part. -/
theorem cut_open {o : Char} (ho : o = '[' ∨ o = '\x7b') {raw tail : List Char}
    (h : dropTrailingCommasIn .outside raw = o :: tail) :
    ∃ rest, raw = o :: rest ∧ dropTrailingCommasIn .outside rest = tail := by
  have hidle : Text.isBlank o = false ∧ ¬ Closes o ∧ Quoting.outside.next o.toNat = .outside := by
    unfold Closes
    rcases ho with rfl | rfl <;> decide
  obtain ⟨rest, rfl, -, hrest⟩ := cut_before (s := []) (fun _ h => nomatch h) hidle.1 hidle.2.1 h
  exact ⟨rest, rfl, by rw [← hrest, hidle.2.2]⟩

/-- The space before a value, which starts right after it. -/
theorem cut_spaces {p : Json.Part} {text : List Char} (h : Spelled p text) {s raw tail : List Char} (hs : Blanks s)
    (hraw : dropTrailingCommasIn .outside raw = s ++ (text ++ tail)) :
    ∃ rest, raw = s ++ rest ∧ dropTrailingCommasIn .outside rest = text ++ tail := by
  obtain ⟨c, r, rfl, hc⟩ := h.cons
  obtain ⟨rest, rfl, hcut, -⟩ := cut_before hs (not_isBlank_of_opens hc) (not_closes_of_opens hc) hraw
  exact ⟨c :: rest, rfl, hcut⟩

/-- A comma or colon, and the space around it. -/
theorem cut_separator {d : Char} (hd : d = ',' ∨ d = ':') {p : Json.Part} {text : List Char} (h : Spelled p text)
    {a b raw tail : List Char} (ha : Spaces a) (hb : Spaces b)
    (hraw : dropTrailingCommasIn .outside raw = a ++ d :: (b ++ (text ++ tail))) :
    ∃ rest, raw = a ++ d :: (b ++ rest) ∧ dropTrailingCommasIn .outside rest = text ++ tail := by
  have hsolid : Text.isBlank d = false ∧ ¬ Closes d ∧ Quoting.outside.next d.toNat = .outside := by
    unfold Closes
    rcases hd with rfl | rfl <;> decide
  obtain ⟨rest, rfl, -, hrest⟩ := cut_before (blanks_of_spaces ha) hsolid.1 hsolid.2.1 hraw
  rw [hsolid.2.2] at hrest
  obtain ⟨rest', rfl, htext⟩ := cut_spaces h (blanks_of_spaces hb) hrest
  exact ⟨rest', rfl, htext⟩

theorem recovers_empty {p : Json.Part} {o c : Char} (ho : o = '[' ∨ o = '\x7b') (hc : Closes c)
    (hp : ∀ {z : List Char}, Closing true z → Lenient true p (o :: (z ++ [c]))) {s : List Char} (hs : Spaces s) :
    Recovers p (o :: (s ++ [c])) := by
  intro raw tail hraw
  rw [List.cons_append, List.append_assoc] at hraw
  obtain ⟨raw₁, rfl, h₁⟩ := cut_open ho hraw
  obtain ⟨z, rest, rfl, hrest, hz⟩ := cut_closing hs hc h₁
  exact ⟨o :: (z ++ [c]), rest, by simp, hp hz, hrest⟩

theorem recovers_bracket {p q : Json.Part} {o c : Char} (ho : o = '[' ∨ o = '\x7b') (hc : Closes c)
    (hp : ∀ {a cs z : List Char}, Spaces a → Lenient true q cs → Closing true z →
      Lenient true p (o :: (a ++ (cs ++ (z ++ [c])))))
    {a cs z : List Char} (ha : Spaces a) (h : Spelled q cs) (hz : Spaces z) (ih : Recovers q cs) :
    Recovers p (o :: (a ++ (cs ++ (z ++ [c])))) := by
  intro raw tail hraw
  simp only [List.cons_append, List.append_assoc, List.nil_append] at hraw
  -- bracket, space, elements, and what stands before the closing bracket
  obtain ⟨raw₁, rfl, h₁⟩ := cut_open ho hraw
  obtain ⟨raw₂, rfl, h₂⟩ := cut_spaces h (blanks_of_spaces ha) h₁
  obtain ⟨written, raw₃, rfl, hwritten, h₃⟩ := ih h₂
  obtain ⟨z', rest, rfl, hrest, hz'⟩ := cut_closing hz hc h₃
  exact ⟨o :: (a ++ (written ++ (z' ++ [c]))), rest, by simp, hp ha hwritten hz', hrest⟩

theorem recovers_more {p q r : Json.Part}
    (hp : ∀ {cs a b ds : List Char}, Lenient true q cs → Spaces a → Spaces b → Lenient true r ds →
      Lenient true p (cs ++ (a ++ ',' :: (b ++ ds))))
    {cs a b ds : List Char} (ha : Spaces a) (hb : Spaces b) (hds : Spelled r ds) (ihq : Recovers q cs)
    (ihr : Recovers r ds) : Recovers p (cs ++ (a ++ ',' :: (b ++ ds))) := by
  intro raw tail hraw
  simp only [List.cons_append, List.append_assoc] at hraw
  obtain ⟨first, raw₁, rfl, hfirst, h₁⟩ := ihq hraw
  obtain ⟨raw₂, rfl, h₂⟩ := cut_separator (.inl rfl) hds ha hb h₁
  obtain ⟨others, rest, rfl, hothers, hrest⟩ := ihr h₂
  exact ⟨first ++ (a ++ ',' :: (b ++ others)), rest, by simp, hp hfirst ha hb hothers, hrest⟩

theorem recovers_of_spelled {p : Json.Part} {text : List Char} (h : Spelled p text) : Recovers p text := by
  induction h with
  | scalar h => exact recovers_scalar h
  | emptyArray hs => exact recovers_empty (.inl rfl) (.inl rfl) .emptyArray hs
  | emptyObject hs => exact recovers_empty (.inr rfl) (.inr rfl) .emptyObject hs
  | array ha h hz ih => exact recovers_bracket (.inl rfl) (.inl rfl) .array ha h hz ih
  | object ha h hz ih => exact recovers_bracket (.inr rfl) (.inr rfl) .object ha h hz ih
  | item _ ih =>
    intro raw tail hraw
    obtain ⟨written, rest, rfl, hwritten, hrest⟩ := ih hraw
    exact ⟨written, rest, rfl, .item hwritten, hrest⟩
  | oneMember _ ih =>
    intro raw tail hraw
    obtain ⟨written, rest, rfl, hwritten, hrest⟩ := ih hraw
    exact ⟨written, rest, rfl, .oneMember hwritten, hrest⟩
  | moreItems _ ha hb hds ihq ihr => exact recovers_more .moreItems ha hb hds ihq ihr
  | moreMembers _ ha hb hds ihq ihr => exact recovers_more .moreMembers ha hb hds ihq ihr
  | @member body ps v a b cs hbody ha hb hv ih =>
    intro raw tail hraw
    simp only [List.cons_append, List.append_assoc] at hraw
    obtain ⟨raw₁, rfl, h₁⟩ := cut_string (hidden_of_quoted hbody) hraw
    obtain ⟨raw₂, rfl, h₂⟩ := cut_separator (.inr rfl) hv ha hb h₁
    obtain ⟨written, rest, rfl, hwritten, hrest⟩ := ih h₂
    exact ⟨'"' :: (body ++ '"' :: (a ++ ':' :: (b ++ written))), rest, by simp, .member hbody ha hb hwritten, hrest⟩

/-! ## Whole values -/

/-- A text that is white space without its trailing commas has none. -/
theorem eq_of_blanks {raw s : List Char} (hs : Blanks s) (h : dropTrailingCommasIn .outside raw = s) : raw = s := by
  induction raw generalizing s with
  | nil => exact h
  | cons x rest ih =>
    by_cases hdrop : x = ',' ∧ closesNext rest = true
    · -- the bracket that the comma stands before is left, and is no white space
      obtain ⟨s', k, r, hs', hk, rfl⟩ := closesNext_iff.1 hdrop.2
      rw [dropTrailingCommasIn, if_pos ⟨rfl, hdrop⟩, dropTrailingCommasIn_blanks hs',
        dropTrailingCommasIn_keep hk.ne_comma] at h
      have hblank := hs k (by rw [← h]; simp)
      rw [hk.not_isBlank] at hblank
      cases hblank
    · rw [dropTrailingCommasIn, if_neg fun h => hdrop h.2] at h
      subst h
      have hx := hs x List.mem_cons_self
      rw [next_blank hx] at hs ⊢
      rw [← ih (fun d hd => hs d (List.mem_cons_of_mem x hd)) rfl]

/-- The text of a value with white space around it, and the value that it means. -/
def Means (lone : Bool) (raw : List Char) (v : Json) : Prop :=
  ∃ a written z t, Blanks a ∧ Lenient lone (.value t) written ∧ Blanks z ∧ raw = a ++ (written ++ z) ∧
    Json.readAny (.text Json.maxDepth) t = .ok v

theorem means_of_parse {raw : List Char} {v : Json}
    (h : Json.parse (String.ofList (Text.trim (dropTrailingCommas raw))) = .ok v) : Means true raw v := by
  -- trimming takes white space of any kind, and the JSON reader takes its own kinds
  obtain ⟨t, ⟨s, text, s', hs, htext, hs', htrim⟩, hread⟩ := Json.parse_eq_ok_iff.1 h
  obtain ⟨a, z, ha, hz, hraw⟩ := Text.exists_trim (dropTrailingCommas raw)
  rw [String.toList_ofList] at htrim
  rw [htrim, dropTrailingCommas] at hraw
  have hstart : Blanks (a ++ s) := .append ha (blanks_of_spaces hs)
  have hend : Blanks (s' ++ z) := (blanks_of_spaces hs').append hz
  have hcut : dropTrailingCommasIn .outside raw = (a ++ s) ++ (text ++ (s' ++ z)) := by simpa using hraw
  obtain ⟨rest, rfl, hrest⟩ := cut_spaces htext hstart hcut
  obtain ⟨written, rest', rfl, hwritten, hrest'⟩ := recovers_of_spelled htext hrest
  obtain rfl := eq_of_blanks hend hrest'
  exact ⟨a ++ s, written, s' ++ z, t, hstart, hwritten, hend, rfl, hread⟩

/-! ## Dropping the commas -/

/-- The space and comma before a closing bracket, and the bracket. -/
theorem Closing.passes {lone : Bool} {z : List Char} (hz : Closing lone z) {c : Char} (hc : Closes c) :
    ∃ s, Spaces s ∧ ∀ n, Passes (n + 1) n (z ++ [c]) (s ++ [c]) := by
  cases hz with
  | space hs => exact ⟨z, hs, fun n => (passes_spaces hs).append (passes_close hc)⟩
  | @comma a b _ ha hb =>
    refine ⟨a ++ b, ha.append hb, fun n => ?_⟩
    simpa using (passes_spaces ha).append (passes_trailing_comma hb hc)

/-- What the scanners make of a lenient writing: JSON text of the same part. -/
theorem Lenient.passes {lone : Bool} {p : Json.Part} {written : List Char} (h : Lenient lone p written) :
    ∃ text, Spelled p text ∧ ∀ n, Passes n n written text := by
  have hcolon : ∀ n, Passes n n [':'] [':'] := fun n => passes_of_idle (by unfold Idle; exact Json.forall_of_all rfl)
  induction h with
  | scalar h =>
    refine ⟨_, .scalar h, fun n => ?_⟩
    rcases scalar_cases h with ⟨body, hbody, rfl⟩ | hidle
    · exact passes_string hbody
    · exact passes_of_idle hidle
  | emptyArray hz =>
    obtain ⟨s, hs, hclose⟩ := hz.passes (.inl rfl)
    exact ⟨_, .emptyArray hs, fun n => (passes_open (.inl rfl)).append (hclose n)⟩
  | emptyObject hz =>
    obtain ⟨s, hs, hclose⟩ := hz.passes (.inr rfl)
    exact ⟨_, .emptyObject hs, fun n => (passes_open (.inr rfl)).append (hclose n)⟩
  | array ha _ hz ih =>
    obtain ⟨text, htext, hpasses⟩ := ih
    obtain ⟨s, hs, hclose⟩ := hz.passes (.inl rfl)
    refine ⟨_, .array ha htext hs, fun n => ?_⟩
    exact (passes_open (.inl rfl)).append ((passes_spaces ha).append ((hpasses _).append (hclose n)))
  | object ha _ hz ih =>
    obtain ⟨text, htext, hpasses⟩ := ih
    obtain ⟨s, hs, hclose⟩ := hz.passes (.inr rfl)
    refine ⟨_, .object ha htext hs, fun n => ?_⟩
    exact (passes_open (.inr rfl)).append ((passes_spaces ha).append ((hpasses _).append (hclose n)))
  | item _ ih =>
    obtain ⟨text, htext, hpasses⟩ := ih
    exact ⟨text, .item htext, hpasses⟩
  | oneMember _ ih =>
    obtain ⟨text, htext, hpasses⟩ := ih
    exact ⟨text, .oneMember htext, hpasses⟩
  | moreItems _ ha hb hds ih ih' =>
    obtain ⟨text, htext, hpasses⟩ := ih
    obtain ⟨text', htext', hpasses'⟩ := ih'
    refine ⟨_, .moreItems htext ha hb htext', fun n => ?_⟩
    exact (hpasses n).append
      ((passes_spaces ha).append (passes_comma hb hds.cons ((passes_spaces hb).append (hpasses' n))))
  | moreMembers _ ha hb hds ih ih' =>
    obtain ⟨text, htext, hpasses⟩ := ih
    obtain ⟨text', htext', hpasses'⟩ := ih'
    refine ⟨_, .moreMembers htext ha hb htext', fun n => ?_⟩
    exact (hpasses n).append
      ((passes_spaces ha).append (passes_comma hb hds.cons ((passes_spaces hb).append (hpasses' n))))
  | member hbody ha hb _ ih =>
    obtain ⟨text, htext, hpasses⟩ := ih
    refine ⟨_, .member hbody ha hb htext, fun n => ?_⟩
    have hkey := passes_string (hidden_of_quoted hbody) (n := n)
    simpa using hkey.append ((passes_spaces ha).append ((hcolon n).append ((passes_spaces hb).append (hpasses n))))

theorem idle_of_isBlank {c : Char} (h : Text.isBlank c = true) : Idle c := by
  unfold Idle
  intro hmem
  simp only [List.mem_cons, List.not_mem_nil, or_false] at hmem
  rcases hmem with rfl | rfl | rfl | rfl | rfl | rfl | rfl <;> cases h

theorem passes_blanks {s : List Char} (hs : Blanks s) {n : Nat} : Passes n n s s :=
  passes_of_idle fun c hc => idle_of_isBlank (hs c hc)

/-- The reader finds the end of a value in the format, and reads it as what it means. -/
theorem Means.read {lone : Bool} {raw : List Char} {v : Json} (h : Means lone raw v) {rest : List Char}
    (hrest : Stops rest) :
    pastValue? (raw ++ rest) = some rest ∧
      Json.parse (String.ofList (Text.trim (dropTrailingCommas raw))) = .ok v := by
  obtain ⟨a, written, z, t, ha, hwritten, hz, rfl, hread⟩ := h
  obtain ⟨text, htext, hpasses⟩ := hwritten.passes
  have hall : Passes 0 0 (a ++ (written ++ z)) (a ++ (text ++ z)) :=
    (passes_blanks ha).append ((hpasses 0).append (passes_blanks hz))
  constructor
  · exact (hall.value 0 rest).trans (pastValueIn_stops hrest)
  · have hdrop := hall.commas []
    rw [List.append_nil, dropTrailingCommasIn, List.append_nil] at hdrop
    rw [dropTrailingCommas, hdrop, trim_spelled ha htext hz, Json.parse_eq_ok_iff]
    refine ⟨t, ⟨[], text, [], Json.spaces_nil, htext, Json.spaces_nil, ?_⟩, hread⟩
    rw [String.toList_ofList, List.nil_append, List.append_nil]

end CoveragePages.Script
