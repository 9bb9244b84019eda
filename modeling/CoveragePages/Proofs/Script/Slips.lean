/-
Where the two slips of the script reader stand. The region of a place in a script is told from the text
before it: there is code, and there are strings and comments. A comma is a slip if it stands in code right
after an opening bracket, and a comment is one if the text ends in it. A script in the format with slips
that has none of them is in the format.

The induction is over the format. Each of its pieces starts in code and ends in code, so a slip in a piece
is a slip of the whole.
-/
import CoveragePages.Proofs.Script.Written

namespace CoveragePages.Script

open Json (Spaces Scalar)

/-! ## Regions -/

/-- What a place of a script is in. -/
inductive Region where
  | code
  /-- After a slash, which may open a comment. -/
  | slash
  | string
  | escape
  | lineComment
  | blockComment
  /-- After a star, which may close a comment. -/
  | star
  deriving DecidableEq

namespace Region

/-- The region after a character of code. -/
def fromCode (c : Char) : Region := if c = '"' then string else if c = '/' then slash else code

/-- The region after one more character. -/
def next : Region → Char → Region
  | code, c => fromCode c
  | slash, c => if c = '/' then lineComment else if c = '*' then blockComment else fromCode c
  | string, c => if c = '"' then code else if c = '\\' then escape else string
  | escape, _ => string
  | lineComment, c => if c = '\n' then code else lineComment
  | blockComment, c => if c = '*' then star else blockComment
  | star, c => if c = '/' then code else if c = '*' then star else blockComment

/-- The region after a text. -/
def after (region : Region) (cs : List Char) : Region := cs.foldl next region

theorem after_append (region : Region) (a b : List Char) : region.after (a ++ b) = (region.after a).after b :=
  List.foldl_append

theorem after_cons (region : Region) (c : Char) (cs : List Char) :
    region.after (c :: cs) = (region.next c).after cs := rfl

/-- A character of code that opens no string and no comment. -/
def Still (c : Char) : Prop := c ≠ '"' ∧ c ≠ '/'

instance (c : Char) : Decidable (Still c) := inferInstanceAs (Decidable (_ ∧ _))

theorem next_still {c : Char} (h : Still c) : code.next c = code := by rw [next, fromCode, if_neg h.1, if_neg h.2]

theorem after_still {cs : List Char} (h : ∀ c ∈ cs, Still c) : code.after cs = code := by
  induction cs with
  | nil => rfl
  | cons c cs ih => rw [after_cons, next_still (h c List.mem_cons_self), ih fun d hd => h d (List.mem_cons_of_mem c hd)]

theorem after_code_append {a b : List Char} (ha : code.after a = code) (hb : code.after b = code) :
    code.after (a ++ b) = code := by rw [after_append, ha, hb]

theorem after_code_cons {c : Char} (hc : Still c) {cs : List Char} (h : code.after cs = code) :
    code.after (c :: cs) = code := by rw [after_cons, next_still hc, h]

theorem still_of_isBlank {c : Char} (h : Text.isBlank c = true) : Still c := by
  constructor <;> (rintro rfl; cases h)

theorem after_blanks {s : List Char} (h : Blanks s) :
    code.after s = code := after_still fun c hc => still_of_isBlank (h c hc)

theorem after_spaces {s : List Char} (h : Spaces s) : code.after s = code := after_blanks (blanks_of_spaces h)

/-! ## Strings and comments -/

theorem after_hidden {body : List Char} (h : Hidden body) : string.after body = string := by
  induction h with
  | nil => rfl
  | plain hquote hslash _ ih => rw [after_cons, next, if_neg hquote, if_neg hslash, ih]
  | escape _ ih => exact ih

theorem after_string {body : List Char} (h : Hidden body) : code.after ('"' :: (body ++ ['"'])) = code := by
  show string.after (body ++ ['"']) = code
  rw [after_append, after_hidden h]
  rfl

theorem after_lineComment {body : List Char} (h : '\n' ∉ body) : lineComment.after body = lineComment := by
  induction body with
  | nil => rfl
  | cons c body ih =>
    obtain ⟨hc, hbody⟩ := not_or.1 (mt List.mem_cons.2 h)
    rw [after_cons, next, if_neg (Ne.symm hc), ih hbody]

/-- Whether a place is in a comment that is to be closed. -/
def Opened (region : Region) : Prop := region = blockComment ∨ region = star

instance (region : Region) : Decidable region.Opened := inferInstanceAs (Decidable (_ ∨ _))

/-- A comment goes on as long as it is not closed, also after a star. -/
theorem opened_after {body : List Char} : (¬ ['*', '/'] <:+: body → (blockComment.after body).Opened) ∧
    (¬ ['*', '/'] <:+: '*' :: body → (star.after body).Opened) := by
  induction body with
  | nil => exact ⟨fun _ => .inl rfl, fun _ => .inr rfl⟩
  | cons c body ih =>
    constructor
    · intro h
      rw [after_cons, next]
      split
      · next hc => exact ih.2 (hc ▸ h)
      · exact ih.1 fun hclose => h (List.infix_cons hclose)
    · intro h
      have hslash : c ≠ '/' := fun hc => h (hc ▸ ⟨[], body, rfl⟩)
      rw [after_cons, next, if_neg hslash]
      split
      · next hc =>
        subst hc
        exact ih.2 fun hclose => h (List.infix_cons hclose)
      · exact ih.1 fun hclose => h (List.infix_cons (List.infix_cons hclose))

theorem after_close {region : Region} (h : region.Opened) : region.after ['*', '/'] = code := by
  rcases h with rfl | rfl <;> rfl

end Region

open Region

theorem Gap.region {gap : List Char} (h : Gap gap) : code.after gap = code := by
  cases h with
  | @space c hc =>
    have hspaces : Spaces [c] := fun d hd => List.mem_singleton.1 hd ▸ hc
    exact after_spaces hspaces
  | lineComment hbody =>
    show Region.lineComment.after (_ ++ ['\n']) = code
    rw [after_append, after_lineComment hbody]
    rfl
  | blockComment hbody =>
    show Region.blockComment.after (_ ++ ['*', '/']) = code
    rw [after_append, after_close (opened_after.1 hbody)]

theorem Gaps.region {gaps : List Char} (h : Gaps gaps) : code.after gaps = code := by
  induction h with
  | nil => rfl
  | cons hgap _ ih => exact after_code_append hgap.region ih

/-! ## Values and statements -/

theorem still_of_inNumber {c : Char} (h : Json.InNumber c) : Still c := by
  rcases h with h | h
  · exact ⟨Json.ne_of_isDigit h rfl, Json.ne_of_isDigit h rfl⟩
  · simp only [List.mem_cons, List.not_mem_nil, or_false] at h
    rcases h with rfl | rfl | rfl | rfl | rfl <;> decide

theorem region_scalar {t : Json.Tree} {cs : List Char} (h : Scalar t cs) : code.after cs = code := by
  cases h with
  | string hbody => exact after_string (hidden_of_quoted hbody)
  | null | true_ | false_ => rfl
  | number hn => exact after_still fun c hc => still_of_inNumber (hn.inNumber c hc)

theorem Closing.region {lone : Bool} {z : List Char} (h : Closing lone z) : code.after z = code := by
  cases h with
  | space hs => exact after_spaces hs
  | comma _ ha hb => exact after_code_append (after_spaces ha) (after_code_cons (by decide) (after_spaces hb))

theorem Lenient.region {lone : Bool} {p : Json.Part} {cs : List Char} (h : Lenient lone p cs) :
    code.after cs = code := by
  have hclose : ∀ {z : List Char} {c : Char}, code.after z = code → Still c → code.after (z ++ [c]) = code :=
    fun hz hc => after_code_append hz (after_code_cons hc rfl)
  induction h with
  | scalar h => exact region_scalar h
  | emptyArray hz | emptyObject hz => exact after_code_cons (by decide) (hclose hz.region (by decide))
  | array ha _ hz ih | object ha _ hz ih =>
    exact after_code_cons (by decide)
      (after_code_append (after_spaces ha) (after_code_append ih (hclose hz.region (by decide))))
  | item _ ih | oneMember _ ih => exact ih
  | moreItems _ ha hb _ ih ih' | moreMembers _ ha hb _ ih ih' =>
    exact after_code_append ih (after_code_append (after_spaces ha)
      (after_code_cons (by decide) (after_code_append (after_spaces hb) ih')))
  | @member body _ _ a b cs hbody ha hb _ ih =>
    have hsplit : '"' :: (body ++ '"' :: (a ++ ':' :: (b ++ cs))) =
        ('"' :: (body ++ ['"'])) ++ (a ++ ':' :: (b ++ cs)) := by
      simp
    rw [hsplit]
    exact after_code_append (after_string (hidden_of_quoted hbody)) (after_code_append (after_spaces ha)
      (after_code_cons (by decide) (after_code_append (after_spaces hb) ih)))

theorem Means.region {lone : Bool} {raw : List Char} {v : Json} (h : Means lone raw v) : code.after raw = code := by
  obtain ⟨a, written, z, t, ha, hwritten, hz, rfl, -⟩ := h
  exact after_code_append (after_blanks ha) (after_code_append hwritten.region (after_blanks hz))

theorem Name.region {name : List Char} (h : Name name) : code.after name = code := by
  obtain ⟨c, r, rfl, hc, hall⟩ := h
  refine after_still (List.forall_mem_cons.2 ⟨?_, fun d hd => ?_⟩)
  · constructor <;> (rintro rfl; cases hc)
  · have hd := hall d hd
    constructor <;> (rintro rfl; cases hd)

/-- A statement up to its value. -/
theorem region_head {keyword gap name gap' : List Char} (hkeyword : String.ofList keyword ∈ keywords) (hgap : Gaps gap)
    (hname : Name name) (hgap' : Gaps gap') : code.after (keyword ++ (gap ++ (name ++ (gap' ++ ['='])))) = code := by
  have hword : Name keyword := by
    rw [← String.toList_ofList (l := keyword)]
    exact name_keyword hkeyword
  exact after_code_append hword.region (after_code_append hgap.region (after_code_append hname.region
    (after_code_append hgap'.region rfl)))

theorem Assigns.region {slips : Bool} {a : Assignment} {text : List Char} (h : Assigns slips a text) :
    code.after text = code := by
  cases h with
  | @mk keyword gap name gap' raw v hkeyword hgap hne hname hgap' hmeans =>
    have hsplit : keyword ++ (gap ++ (name ++ (gap' ++ '=' :: raw))) =
        (keyword ++ (gap ++ (name ++ (gap' ++ ['='])))) ++ raw := by simp
    rw [hsplit]
    exact after_code_append (region_head hkeyword hgap hname hgap') hmeans.region

/-! ## Commas without an element -/

/-- Whether a comma stands right after an opening bracket and space, in code. -/
def LoneComma (cs : List Char) : Prop :=
  ∃ before o s rest, cs = before ++ o :: (s ++ ',' :: rest) ∧ code.after before = code ∧
    (o = '[' ∨ o = '\x7b') ∧ Spaces s

instance : DecidablePred LoneComma := fun cs =>
  decidable_of_iff (∃ n, n < cs.length ∧ code.after (cs.take n) = code ∧ (cs.drop n).head? ∈ [some '[', some '\x7b'] ∧
      (Json.skipSpace (cs.drop n).tail).head? = some ',') (by
    constructor
    · rintro ⟨n, -, hcode, hopen, hcomma⟩
      obtain ⟨o, inner, hdrop, ho⟩ : ∃ o inner, cs.drop n = o :: inner ∧ (o = '[' ∨ o = '\x7b') := by
        cases hdrop : cs.drop n <;> simp_all
      rw [hdrop, List.tail_cons] at hcomma
      obtain ⟨s, hs, hinner⟩ := Json.exists_spaces inner
      obtain ⟨rest, hrest⟩ := List.head?_eq_some_iff.1 hcomma
      refine ⟨cs.take n, o, s, rest, ?_, hcode, ho, hs⟩
      rw [← hrest, ← hinner, ← hdrop, List.take_append_drop]
    · rintro ⟨before, o, s, rest, rfl, hcode, ho, hs⟩
      refine ⟨before.length, by simp, by rwa [List.take_left], ?_⟩
      rw [List.drop_left, List.tail_cons, Json.skipSpace_append hs]
      exact ⟨by simpa using ho, rfl⟩)

theorem LoneComma.append {a b : List Char} (h : LoneComma a) : LoneComma (a ++ b) := by
  obtain ⟨before, o, s, rest, rfl, hcode, ho, hs⟩ := h
  exact ⟨before, o, s, rest ++ b, by simp, hcode, ho, hs⟩

theorem LoneComma.after {a b : List Char} (h : LoneComma b) (ha : code.after a = code) : LoneComma (a ++ b) := by
  obtain ⟨before, o, s, rest, rfl, hcode, ho, hs⟩ := h
  exact ⟨a ++ before, o, s, rest, by simp, after_code_append ha hcode, ho, hs⟩

theorem closing_of_not_loneComma {o c : Char} (ho : o = '[' ∨ o = '\x7b') {z : List Char} (hz : Closing true z)
    (h : ¬ LoneComma (o :: (z ++ [c]))) : Closing false z := by
  cases hz with
  | space hs => exact .space hs
  | @comma a b _ ha hb => exact absurd ⟨[], o, a, b ++ [c], by simp, rfl, ho, ha⟩ h

/-- A writing without lone commas has commas after elements only. -/
theorem Lenient.strict {p : Json.Part} {cs : List Char} (h : Lenient true p cs) (hlone : ¬ LoneComma cs) :
    Lenient false p cs := by
  have hpart : ∀ {a b : List Char}, ¬ LoneComma (a ++ b) → code.after a = code → ¬ LoneComma b :=
    fun hwhole ha hb => hwhole (hb.after ha)
  have hfirst : ∀ {a b : List Char}, ¬ LoneComma (a ++ b) → ¬ LoneComma a := fun hwhole ha => hwhole ha.append
  induction h with
  | scalar h => exact .scalar h
  | emptyArray hz => exact .emptyArray (closing_of_not_loneComma (.inl rfl) hz hlone)
  | emptyObject hz => exact .emptyObject (closing_of_not_loneComma (.inr rfl) hz hlone)
  | @array ts a cs z ha _ hz ih =>
    exact .array ha (ih (hfirst (hpart (a := '[' :: a) hlone (after_code_cons (by decide) (after_spaces ha))))) hz
  | @object ms a cs z ha _ hz ih =>
    exact .object ha (ih (hfirst (hpart (a := '\x7b' :: a) hlone (after_code_cons (by decide) (after_spaces ha))))) hz
  | item _ ih => exact .item (ih hlone)
  | oneMember _ ih => exact .oneMember (ih hlone)
  | moreItems hfirst' ha hb _ ih ih' =>
    have hcomma := hpart (hpart hlone hfirst'.region) (after_spaces ha)
    exact .moreItems (ih (hfirst hlone)) ha hb
      (ih' (hpart (hpart (a := [',']) hcomma rfl) (after_spaces hb)))
  | moreMembers hfirst' ha hb _ ih ih' =>
    have hcomma := hpart (hpart hlone hfirst'.region) (after_spaces ha)
    exact .moreMembers (ih (hfirst hlone)) ha hb
      (ih' (hpart (hpart (a := [',']) hcomma rfl) (after_spaces hb)))
  | @member body ps v a b cs hbody ha hb _ ih =>
    have hvalue : ¬ LoneComma (a ++ ':' :: (b ++ cs)) :=
      hpart (a := '"' :: (body ++ ['"'])) (by simpa using hlone) (after_string (hidden_of_quoted hbody))
    exact .member hbody ha hb (ih (hpart (hpart (a := [':']) (hpart hvalue (after_spaces ha)) rfl) (after_spaces hb)))

theorem Means.strict {raw : List Char} {v : Json} (h : Means true raw v) (hlone : ¬ LoneComma raw) :
    Means false raw v := by
  obtain ⟨a, written, z, t, ha, hwritten, hz, rfl, hread⟩ := h
  exact ⟨a, written, z, t, ha, hwritten.strict fun h => hlone (h.append.after (after_blanks ha)), hz, rfl, hread⟩

theorem Assigns.strict {a : Assignment} {text : List Char} (h : Assigns true a text) (hlone : ¬ LoneComma text) :
    Assigns false a text := by
  cases h with
  | @mk keyword gap name gap' raw v hkeyword hgap hne hname hgap' hmeans =>
    refine .mk hkeyword hgap hne hname hgap' (hmeans.strict fun h => hlone ?_)
    have hwhole := h.after (region_head hkeyword hgap hname hgap')
    simpa using hwhole

/-! ## Comments that are not closed -/

/-- Whether the text ends in a comment that is to be closed. -/
def OpenComment (cs : List Char) : Prop := (code.after cs).Opened

instance : DecidablePred OpenComment := fun cs => inferInstanceAs (Decidable (code.after cs).Opened)

theorem OpenComment.after {a b : List Char} (h : OpenComment b) (ha : code.after a = code) : OpenComment (a ++ b) := by
  rwa [OpenComment, after_append, ha]

/-- A script with neither slip is in the format. -/
theorem Format.strict {vars : List Assignment} {cs : List Char} (h : Format true vars cs) (hlone : ¬ LoneComma cs)
    (hopen : ¬ OpenComment cs) : Format false vars cs := by
  induction h with
  | done hgaps hcomment =>
    refine .done hgaps ?_
    cases hcomment with
    | none => exact .none
    | line hbody => exact .line hbody
    | @block body _ hbody =>
      have hcomment : OpenComment ('/' :: '*' :: body) := opened_after.1 hbody
      exact absurd (hcomment.after hgaps.region) hopen
  | @semicolon gaps cs vars hgaps _ ih =>
    have hsplit : gaps ++ ';' :: cs = (gaps ++ [';']) ++ cs := by simp
    have hstart : code.after (gaps ++ [';']) = code := after_code_append hgaps.region rfl
    rw [hsplit] at hlone hopen
    exact .semicolon hgaps (ih (fun h => hlone (h.after hstart)) fun h => hopen (h.after hstart))
  | statement hgaps hassigns hstops _ ih =>
    refine .statement hgaps (hassigns.strict fun h => hlone (h.append.after hgaps.region)) hstops ?_
    exact ih (fun h => hlone ((h.after hassigns.region).after hgaps.region))
      fun h => hopen ((h.after hassigns.region).after hgaps.region)

end CoveragePages.Script
