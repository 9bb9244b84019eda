/-
Walks. A walk along some parts and then others is the second walk from where the first one ends, with the
links that are left to it; a walk that is to end in a directory is one with a dot at its end. What a walk
meets decides where it leads: it leads there again wherever the same is met (`resolve_mono`), and where
something is missing on the way it fails for that reason alone (`enter_or_missing`).
-/
import CoveragePages.Files.Walk
import CoveragePages.Proofs.Files.Path

namespace CoveragePages

open CoveragePages.Path

theorem bind_ok {ε α β : Type} {x : Except ε α} {f : α → Except ε β} {b : β} :
    x.bind f = .ok b ↔ ∃ a, x = .ok a ∧ f a = .ok b := by
  cases x <;> simp [Except.bind]

theorem checkName_ok {name : Part} : checkName name = .ok () ↔ name.length ≤ maxNameBytes := by
  rw [checkName]
  split
  · next hlong => exact ⟨fun h => (by cases h), fun h => absurd h (by omega)⟩
  · next hshort => exact ⟨fun _ => by omega, fun _ => rfl⟩

namespace Path

/-! ## Parts -/

/-- Parts that are not all empty. -/
def Filled (parts : List Part) : Prop := ∃ part ∈ parts, part ≠ []

theorem filled_here : Filled [here] := ⟨here, List.mem_cons_self, by decide⟩

theorem Enters.filled {part : Part} (h : Enters part) (rest : List Part) : Filled (part :: rest) :=
  ⟨part, List.mem_cons_self, h.ne_empty⟩

theorem Filled.append {b : List Part} (h : Filled b) (a : List Part) : Filled (a ++ b) := by
  obtain ⟨part, hpart, hne⟩ := h
  exact ⟨part, List.mem_append_right _ hpart, hne⟩

theorem all_isEmpty_eq_false {parts : List Part} : parts.all (·.isEmpty) = false ↔ Filled parts := by
  simp [List.all_eq_false, Filled]

end Path

namespace Look

variable {look : Look} {follow : Bool} {place : Location} {part : Part} {rest : List Part}

/-! ## One part -/

theorem isLink_of_follow {target : Path} (h : look place = .ok (.follow target)) : look.isLink place = true := by
  rw [isLink, h]

theorem isLink_iff : look.isLink place = true ↔ ∃ target, look place = .ok (.follow target) := by
  rw [isLink]
  constructor
  · intro h
    split at h
    · next target htarget => exact ⟨target, htarget⟩
    · cases h
  · rintro ⟨target, htarget⟩
    rw [htarget]

theorem advance_still (h : part = [] ∨ part = here) :
    look.advance follow place (part :: rest) = look.advance follow place rest := by
  rw [advance, if_pos h]

theorem advance_up : look.advance follow place (up :: rest) = look.advance follow place.dropLast rest := by
  rw [advance, if_neg (by decide), if_pos rfl]

/-- A walk that is at a part that is not its last one looks what is there. -/
theorem advance_inner (h : Enters part) (hrest : Filled rest) :
    look.advance follow place (part :: rest) = (checkName part).bind fun _ => (look (place ++ [part])).bind fun
      | .enter => look.advance follow (place ++ [part]) rest
      | .follow target => .ok (.link place target rest) := by
  rw [advance, if_neg (not_or.2 ⟨h.ne_empty, h.ne_here⟩), if_neg h.ne_up, all_isEmpty_eq_false.2 hrest]
  rfl

theorem advance_end (h : Enters part) (hrest : ¬ Filled rest) :
    look.advance follow place (part :: rest) = (checkName part).bind fun _ =>
      if !(follow && look.isLink (place ++ [part])) then .ok (.spot (.name place part (!rest.isEmpty)))
      else (look (place ++ [part])).bind fun
        | .enter => look.advance follow (place ++ [part]) rest
        | .follow target => .ok (.link place target rest) := by
  have hall : rest.all (·.isEmpty) = true := by
    rw [← all_isEmpty_eq_false] at hrest
    exact eq_true_of_ne_false hrest
  rw [advance, if_neg (not_or.2 ⟨h.ne_empty, h.ne_here⟩), if_neg h.ne_up, hall]
  rfl

/-- A walk ends at its last name, unless it is to follow a link there. -/
theorem advance_last (h : Enters part) (hrest : ¬ Filled rest)
    (hlink : follow = true → look.isLink (place ++ [part]) = false) :
    look.advance follow place (part :: rest) = (checkName part).bind fun _ =>
      .ok (.spot (.name place part (!rest.isEmpty))) := by
  rw [advance_end h hrest]
  cases follow with
  | false => rfl
  | true => rw [hlink rfl]; rfl

theorem advance_link (h : Enters part) (hrest : ¬ Filled rest) {target : Path}
    (hlook : look (place ++ [part]) = .ok (.follow target)) :
    look.advance true place (part :: rest) = (checkName part).bind fun _ => .ok (.link place target rest) := by
  rw [advance_end h hrest, isLink_of_follow hlook, hlook]
  rfl

theorem advance_empty {parts : List Part} (h : ¬ Filled parts) :
    look.advance follow place parts = .ok (.spot (.directory place)) := by
  induction parts with
  | nil => rfl
  | cons part rest ih =>
    have hpart : part = [] := Decidable.byContradiction fun hne => h ⟨part, List.mem_cons_self, hne⟩
    rw [advance_still (.inl hpart)]
    exact ih fun hrest => h (hrest.append [part])

theorem resolve_eq (look : Look) (follow : Bool) (links : Nat) (place : Location) (parts : List Part) :
    look.resolve follow links place parts = (look.advance follow place parts).bind fun
      | .spot spot => .ok spot
      | .link directory target rest => match links with
        | 0 => .error .tooManyLinks
        | links + 1 => look.resolve follow links (target.startIn directory) (target.pieces ++ rest) := by
  rw [resolve]
  cases look.advance follow place parts with
  | error e => rfl
  | ok stop =>
    cases stop with
    | spot spot => rfl
    | link directory target rest => cases links <;> rfl

/-! ## One walk after another -/

/-- How a walk along some parts goes on when others follow: from where it is then, at a link, or not at
all. -/
theorem advance_append (look : Look) (a : List Part) : ∀ place : Location,
    (∃ at_, ∀ follow b, Filled b → look.advance follow place (a ++ b) = look.advance follow at_ b) ∨
      (∃ directory target rest, ∀ follow b, Filled b →
        look.advance follow place (a ++ b) = .ok (.link directory target (rest ++ b))) ∨
      ∃ e, ∀ follow b, Filled b → look.advance follow place (a ++ b) = .error e := by
  induction a with
  | nil => exact fun place => .inl ⟨place, fun _ _ _ => rfl⟩
  | cons part rest ih =>
    intro place
    rcases part_cases part with hstill | rfl | henters
    · simp only [List.cons_append, advance_still hstill]
      exact ih place
    · simp only [List.cons_append, advance_up]
      exact ih place.dropLast
    · have hstep := fun follow b (hb : Filled b) =>
        @advance_inner look follow place part (rest ++ b) henters (hb.append rest)
      cases hname : checkName part with
      | error e =>
        refine .inr (.inr ⟨e, fun follow b hb => ?_⟩)
        rw [List.cons_append, hstep follow b hb, hname]
        rfl
      | ok _ =>
        rw [hname] at hstep
        cases hlook : look (place ++ [part]) with
        | error e =>
          refine .inr (.inr ⟨e, fun follow b hb => ?_⟩)
          rw [List.cons_append, hstep follow b hb, hlook]
          rfl
        | ok turn =>
          rw [hlook] at hstep
          cases turn with
          | follow target => exact .inr (.inl ⟨place, target, rest, hstep⟩)
          | enter =>
            refine (ih (place ++ [part])).imp ?_ (Or.imp ?_ ?_)
            · exact fun ⟨at_, h⟩ => ⟨at_, fun follow b hb => (hstep follow b hb).trans (h follow b hb)⟩
            · exact fun ⟨directory, target, rest, h⟩ =>
                ⟨directory, target, rest, fun follow b hb => (hstep follow b hb).trans (h follow b hb)⟩
            · exact fun ⟨e, h⟩ => ⟨e, fun follow b hb => (hstep follow b hb).trans (h follow b hb)⟩

/-- A walk along some parts and then others goes on from where it is after the first ones, or fails
there. The induction is on the links that are left. -/
theorem resolve_append (look : Look) (links : Nat) : ∀ (place : Location) (a : List Part),
    (∃ at_ left, ∀ follow b, Filled b →
      look.resolve follow links place (a ++ b) = look.resolve follow left at_ b) ∨
      ∃ e, ∀ follow b, Filled b → look.resolve follow links place (a ++ b) = .error e := by
  induction links with
  | zero =>
    intro place a
    rcases look.advance_append a place with ⟨at_, h⟩ | ⟨directory, target, rest, h⟩ | ⟨e, h⟩
    · refine .inl ⟨at_, 0, fun follow b hb => ?_⟩
      rw [resolve_eq, h follow b hb, resolve_eq look follow 0 at_]
    · exact .inr ⟨_, fun follow b hb => by rw [resolve_eq, h follow b hb]; rfl⟩
    · exact .inr ⟨e, fun follow b hb => by rw [resolve_eq, h follow b hb]; rfl⟩
  | succ links ih =>
    intro place a
    rcases look.advance_append a place with ⟨at_, h⟩ | ⟨directory, target, rest, h⟩ | ⟨e, h⟩
    · refine .inl ⟨at_, links + 1, fun follow b hb => ?_⟩
      rw [resolve_eq, h follow b hb, resolve_eq look follow (links + 1) at_]
    · -- through the link, what was left of the first parts comes before the others again
      have hthrough : ∀ follow b, Filled b → look.resolve follow (links + 1) place (a ++ b) =
          look.resolve follow links (target.startIn directory) (target.pieces ++ rest ++ b) := by
        intro follow b hb
        rw [resolve_eq, h follow b hb, List.append_assoc]
        rfl
      refine (ih (target.startIn directory) (target.pieces ++ rest)).imp ?_ ?_
      · exact fun ⟨at_, left, h⟩ => ⟨at_, left, fun follow b hb => (hthrough follow b hb).trans (h follow b hb)⟩
      · exact fun ⟨e, h⟩ => ⟨e, fun follow b hb => (hthrough follow b hb).trans (h follow b hb)⟩
    · exact .inr ⟨e, fun follow b hb => by rw [resolve_eq, h follow b hb]; rfl⟩

/-- Where a walk along some parts ends that is to end in a directory. -/
def enter (look : Look) (links : Nat) (place : Location) (parts : List Part) : Except FileError Spot :=
  look.resolve true links place (parts ++ [here])

theorem resolve_here (links : Nat) : look.resolve follow links place [here] = .ok (.directory place) := by
  rw [resolve_eq, advance_still (.inr rfl)]
  rfl

/-- A walk that enters some parts leaves what follows to a walk from there; else it fails, whatever
follows. -/
theorem enter_cases (look : Look) (links : Nat) (place : Location) (a : List Part) :
    (∃ at_ left, look.enter links place a = .ok (.directory at_) ∧ ∀ follow b, Filled b →
      look.resolve follow links place (a ++ b) = look.resolve follow left at_ b) ∨
      ∃ e, look.enter links place a = .error e ∧ ∀ follow b, Filled b →
        look.resolve follow links place (a ++ b) = .error e := by
  refine (look.resolve_append links place a).imp ?_ ?_
  · rintro ⟨at_, left, h⟩
    exact ⟨at_, left, by rw [enter, h true _ filled_here, resolve_here], h⟩
  · rintro ⟨e, h⟩
    exact ⟨e, h true _ filled_here, h⟩

/-- A walk that goes through some parts goes on from there. -/
theorem resolve_of_enter {links : Nat} {a : List Part} {at_ : Location}
    (h : look.enter links place a = .ok (.directory at_)) :
    ∃ left, ∀ follow b, Filled b → look.resolve follow links place (a ++ b) = look.resolve follow left at_ b := by
  rcases look.enter_cases links place a with ⟨at', left, hat, hgoes⟩ | ⟨e, he, -⟩
  · cases h.symm.trans hat
    exact ⟨left, hgoes⟩
  · cases h.symm.trans he

theorem resolve_of_enter_error {links : Nat} {a : List Part} {e : FileError}
    (h : look.enter links place a = .error e) {b : List Part} (hb : Filled b) :
    look.resolve follow links place (a ++ b) = .error e := by
  rcases look.enter_cases links place a with ⟨at', left, hat, -⟩ | ⟨e', he, hfails⟩
  · cases h.symm.trans hat
  · cases h.symm.trans he
    exact hfails follow b hb

theorem enter_directory {links : Nat} {a : List Part} {spot : Spot} (h : look.enter links place a = .ok spot) :
    ∃ at_, spot = .directory at_ := by
  rcases look.enter_cases links place a with ⟨at_, -, hat, -⟩ | ⟨e, he, -⟩
  · exact ⟨at_, (Except.ok.inj (hat.symm.trans h)).symm⟩
  · cases h.symm.trans he

theorem enter_of_follow (look : Look) (follow : Bool) (links : Nat) (place : Location) (parts : List Part) :
    look.enter links place parts = look.resolve follow links place (parts ++ [here]) := by
  rcases look.enter_cases links place parts with ⟨at_, left, hat, hgoes⟩ | ⟨e, he, hfails⟩
  · rw [hat, hgoes follow _ filled_here, resolve_here]
  · rw [he, hfails follow _ filled_here]

/-! ## The end of a walk -/

/-- Goes into the directory that a path leads to. -/
def settle (look : Look) : Spot → Except FileError Spot
  | .directory place => .ok (.directory place)
  | .name above last _ => (look (above ++ [last])).bind fun
    | .enter => .ok (.directory (above ++ [last]))
    | .follow _ => .error .tooManyLinks

theorem advance_here (look : Look) (parts : List Part) : ∀ place : Location,
    look.advance true place (parts ++ [here]) = (look.advance true place parts).bind fun
      | .spot spot => (look.settle spot).map .spot
      | .link directory target rest => .ok (.link directory target (rest ++ [here])) := by
  induction parts with
  | nil =>
    intro place
    rw [List.nil_append, advance_still (.inr rfl)]
    rfl
  | cons part rest ih =>
    intro place
    rw [List.cons_append]
    rcases part_cases part with hstill | rfl | henters
    · rw [advance_still hstill, advance_still hstill, ih]
    · rw [advance_up, advance_up, ih]
    · rw [advance_inner henters (filled_here.append rest)]
      by_cases hrest : Filled rest
      · rw [advance_inner henters hrest]
        cases checkName part with
        | error e => rfl
        | ok _ =>
          cases look (place ++ [part]) with
          | error e => rfl
          | ok turn =>
            cases turn with
            | enter => exact ih (place ++ [part])
            | follow target => rfl
      · -- what is left is empty, so the walk stops right behind the name
        have hend : look.advance true (place ++ [part]) (rest ++ [here]) =
            .ok (.spot (.directory (place ++ [part]))) := by
          rw [ih, advance_empty hrest]
          rfl
        cases hlook : look (place ++ [part]) with
        | error e =>
          rw [advance_last henters hrest fun _ => by rw [isLink, hlook]]
          cases checkName part with
          | error e => rfl
          | ok _ => simp only [Except.bind, settle, hlook]; rfl
        | ok turn =>
          cases turn with
          | enter =>
            rw [advance_last henters hrest fun _ => by rw [isLink, hlook]]
            cases checkName part with
            | error e => rfl
            | ok _ => simp only [Except.bind, settle, hlook, hend]; rfl
          | follow target =>
            rw [advance_link henters hrest hlook]
            cases checkName part <;> rfl

/-- A walk that is to end in a directory goes where any walk goes, and then into what is there. -/
theorem enter_eq (look : Look) (links : Nat) : ∀ (place : Location) (parts : List Part),
    look.enter links place parts = (look.resolve true links place parts).bind look.settle := by
  induction links with
  | zero =>
    intro place parts
    rw [enter, resolve_eq, resolve_eq, advance_here]
    cases look.advance true place parts with
    | error e => rfl
    | ok stop =>
      cases stop with
      | link directory target rest => rfl
      | spot spot =>
        simp only [Except.bind]
        cases look.settle spot <;> rfl
  | succ links ih =>
    intro place parts
    rw [enter, resolve_eq, resolve_eq, advance_here]
    cases look.advance true place parts with
    | error e => rfl
    | ok stop =>
      cases stop with
      | link directory target rest =>
        have hthrough := ih (target.startIn directory) (target.pieces ++ rest)
        rw [enter, List.append_assoc] at hthrough
        exact hthrough
      | spot spot =>
        simp only [Except.bind]
        cases look.settle spot <;> rfl

/-- A path leads to a directory if it leads to one that is there, or to a name where one is. -/
theorem enter_ok {links : Nat} {parts : List Part} {at_ : Location} :
    look.enter links place parts = .ok (.directory at_) ↔
      ∃ spot, look.resolve true links place parts = .ok spot ∧ spot.place = at_ ∧
        ∀ above last slash, spot = .name above last slash → look at_ = .ok .enter := by
  rw [enter_eq, bind_ok]
  refine exists_congr fun spot => and_congr_right fun _ => ?_
  cases spot with
  | directory place => simp [settle, Spot.place]
  | name above last slash =>
    simp only [settle, Spot.place, Spot.name.injEq]
    cases hlook : look (above ++ [last]) with
    | error e =>
      refine ⟨fun h => (by cases h), ?_⟩
      rintro ⟨rfl, h⟩
      cases hlook.symm.trans (h above last slash ⟨rfl, rfl, rfl⟩)
    | ok turn =>
      cases turn with
      | enter =>
        refine ⟨fun h => ?_, fun h => by rw [← h.1]; rfl⟩
        cases h
        exact ⟨rfl, fun _ _ _ _ => hlook⟩
      | follow target =>
        refine ⟨fun h => (by cases h), ?_⟩
        rintro ⟨rfl, h⟩
        cases hlook.symm.trans (h above last slash ⟨rfl, rfl, rfl⟩)

/-- A walk to a last name ends there, unless it is to follow a link. -/
theorem resolve_last {links : Nat} {last : Part} {rest : List Part} (h : Enters last) (hrest : ¬ Filled rest)
    (hlink : follow = true → look.isLink (place ++ [last]) = false) :
    look.resolve follow links place (last :: rest) = (checkName last).bind fun _ =>
      .ok (.name place last (!rest.isEmpty)) := by
  rw [resolve_eq, advance_last h hrest hlink]
  cases checkName last <;> rfl

theorem not_filled_nil : ¬ Filled ([] : List Part) := fun ⟨_, hpart, _⟩ => absurd hpart List.not_mem_nil

/-- A walk to a last name ends there if it enters what is before, and follows no link there. -/
theorem resolve_concat {links : Nat} {init : List Part} {last : Part} (h : Enters last)
    (hlink : follow = true → ∀ at_, look.enter links place init = .ok (.directory at_) →
      look.isLink (at_ ++ [last]) = false) {spot : Spot} :
    look.resolve follow links place (init ++ [last]) = .ok spot ↔
      ∃ at_, look.enter links place init = .ok (.directory at_) ∧ last.length ≤ maxNameBytes ∧
        spot = .name at_ last false := by
  rcases look.enter_cases links place init with ⟨at_, left, hat, hgoes⟩ | ⟨e, he, hfails⟩
  · rw [hgoes follow _ (h.filled []), resolve_last h not_filled_nil fun hfollow => hlink hfollow at_ hat, bind_ok]
    constructor
    · rintro ⟨⟨⟩, hname, hspot⟩
      exact ⟨at_, hat, checkName_ok.1 hname, (Except.ok.inj hspot).symm⟩
    · rintro ⟨at', hat', hname, rfl⟩
      cases hat.symm.trans hat'
      exact ⟨(), checkName_ok.2 hname, rfl⟩
  · rw [hfails follow _ (h.filled [])]
    refine ⟨fun h => (by cases h), ?_⟩
    rintro ⟨at_, hat, -⟩
    cases he.symm.trans hat

theorem advance_follow (parts : List Part) : ∀ (place : Location) (stop : Stop),
    look.advance false place parts = .ok stop →
    (∀ above last slash, stop = .spot (.name above last slash) → look.isLink (above ++ [last]) = false) →
    look.advance true place parts = .ok stop := by
  induction parts with
  | nil => exact fun _ _ h _ => h
  | cons part rest ih =>
    intro place stop h hlink
    rcases part_cases part with hstill | rfl | henters
    · rw [advance_still hstill] at h ⊢
      exact ih place stop h hlink
    · rw [advance_up] at h ⊢
      exact ih place.dropLast stop h hlink
    by_cases hrest : Filled rest
    · rw [advance_inner henters hrest] at h ⊢
      obtain ⟨⟨⟩, hname, h⟩ := bind_ok.1 h
      obtain ⟨turn, hturn, h⟩ := bind_ok.1 h
      rw [hname, hturn]
      cases turn with
      | enter => exact ih _ stop h hlink
      | follow target => exact h
    · rw [advance_last henters hrest fun hfollow => by cases hfollow] at h
      obtain ⟨⟨⟩, hname, h⟩ := bind_ok.1 h
      cases h
      rw [advance_last henters hrest fun _ => hlink place part _ rfl, hname]
      rfl

/-- A walk that ends at a name where no link is ends there as well if it is to follow one. -/
theorem resolve_follow (links : Nat) : ∀ (place : Location) (parts : List Part) (above : Location) (last : Part)
    (slash : Bool), look.resolve false links place parts = .ok (.name above last slash) →
    look.isLink (above ++ [last]) = false → look.resolve true links place parts = .ok (.name above last slash) := by
  induction links with
  | zero =>
    intro place parts above last slash h hlink
    rw [resolve_eq] at h ⊢
    obtain ⟨stop, hstop, h⟩ := bind_ok.1 h
    cases stop with
    | link directory target rest => cases h
    | spot spot =>
      cases h
      rw [advance_follow parts place _ hstop fun _ _ _ heq => by cases heq; exact hlink]
      rfl
  | succ links ih =>
    intro place parts above last slash h hlink
    rw [resolve_eq] at h ⊢
    obtain ⟨stop, hstop, h⟩ := bind_ok.1 h
    cases stop with
    | link directory target rest =>
      rw [advance_follow parts place _ hstop fun _ _ _ heq => by cases heq]
      exact ih _ _ above last slash h hlink
    | spot spot =>
      cases h
      rw [advance_follow parts place _ hstop fun _ _ _ heq => by cases heq; exact hlink]
      rfl

/-- A walk along parts that stay or go up ends in a directory. -/
theorem resolve_back {back : List Part} (h : ∀ part ∈ back, part = [] ∨ part = here ∨ part = up) (links : Nat)
    (place : Location) : ∃ at_, look.resolve follow links place back = .ok (.directory at_) := by
  induction back generalizing place with
  | nil => exact ⟨place, by rw [resolve_eq]; rfl⟩
  | cons part rest ih =>
    have hrest := ih fun x hx => h x (List.mem_cons_of_mem _ hx)
    rcases h part List.mem_cons_self with hempty | hhere | rfl
    · rw [resolve_eq, advance_still (.inl hempty), ← resolve_eq]
      exact hrest place
    · rw [resolve_eq, advance_still (.inr hhere), ← resolve_eq]
      exact hrest place
    · rw [resolve_eq, advance_up, ← resolve_eq]
      exact hrest place.dropLast

theorem directory_of_back {links : Nat} {a back : List Part} (h : ∀ part ∈ back, part = [] ∨ part = here ∨ part = up)
    (hfilled : Filled back) {spot : Spot} (hgoes : look.resolve follow links place (a ++ back) = .ok spot) :
    ∃ at_, spot = .directory at_ := by
  rcases look.enter_cases links place a with ⟨at_, left, -, hrest⟩ | ⟨e, -, hfails⟩
  · obtain ⟨at', hback⟩ := @resolve_back look follow back h left at_
    rw [hrest follow back hfilled, hback] at hgoes
    exact ⟨at', (Except.ok.inj hgoes).symm⟩
  · cases hgoes.symm.trans (hfails follow back hfilled)

/-- What a walk that does not follow a link at its end leads to: a directory, or a name where something is
met. -/
def Meets (look : Look) : Spot → Prop
  | .directory _ => True
  | .name above last _ => ∃ turn, look (above ++ [last]) = .ok turn

theorem advance_of_here (parts : List Part) : ∀ (place : Location) (stop : Stop),
    look.advance false place (parts ++ [here]) = .ok stop →
    (∃ spot, look.advance false place parts = .ok (.spot spot) ∧ look.Meets spot) ∨
      ∃ directory target rest, look.advance false place parts = .ok (.link directory target rest) ∧
        stop = .link directory target (rest ++ [here]) := by
  induction parts with
  | nil => exact fun place stop _ => .inl ⟨.directory place, rfl, trivial⟩
  | cons part rest ih =>
    intro place stop h
    rw [List.cons_append] at h
    rcases part_cases part with hstill | rfl | henters
    · rw [advance_still hstill] at h ⊢
      exact ih place stop h
    · rw [advance_up] at h ⊢
      exact ih place.dropLast stop h
    rw [advance_inner henters (filled_here.append rest)] at h
    obtain ⟨⟨⟩, hname, h⟩ := bind_ok.1 h
    obtain ⟨turn, hturn, h⟩ := bind_ok.1 h
    by_cases hrest : Filled rest
    · rw [advance_inner henters hrest, hname, hturn]
      cases turn with
      | enter => exact ih _ stop h
      | follow target => exact .inr ⟨place, target, rest, rfl, (Except.ok.inj h).symm⟩
    · rw [advance_last henters hrest fun hfollow => (by cases hfollow), hname]
      exact .inl ⟨.name place part _, rfl, turn, hturn⟩

/-- A walk that enters its parts goes along them, and something is there at its end. -/
theorem resolve_of_enter_ok (links : Nat) : ∀ (place : Location) (parts : List Part) (spot : Spot),
    look.enter links place parts = .ok spot →
    ∃ found, look.resolve false links place parts = .ok found ∧ look.Meets found := by
  induction links with
  | zero =>
    intro place parts spot h
    rw [enter_of_follow _ false, resolve_eq] at h
    obtain ⟨stop, hstop, h⟩ := bind_ok.1 h
    rcases advance_of_here parts place stop hstop with ⟨found, hfound, hmeets⟩ | ⟨directory, target, rest, -, rfl⟩
    · exact ⟨found, by rw [resolve_eq, hfound]; rfl, hmeets⟩
    · cases h
  | succ links ih =>
    intro place parts spot h
    rw [enter_of_follow _ false, resolve_eq] at h
    obtain ⟨stop, hstop, h⟩ := bind_ok.1 h
    rcases advance_of_here parts place stop hstop with ⟨found, hfound, hmeets⟩ | ⟨directory, target, rest, hlink, rfl⟩
    · exact ⟨found, by rw [resolve_eq, hfound]; rfl, hmeets⟩
    · have hthrough := ih (target.startIn directory) (target.pieces ++ rest) spot
      rw [enter_of_follow _ false, List.append_assoc] at hthrough
      obtain ⟨found, hfound, hmeets⟩ := hthrough h
      exact ⟨found, by rw [resolve_eq, hlink]; exact hfound, hmeets⟩

/-- A walk that goes on after some parts entered them, and goes on from there. -/
theorem resolve_of_filled {links : Nat} {a b : List Part} (hb : Filled b) {spot : Spot}
    (h : look.resolve follow links place (a ++ b) = .ok spot) :
    ∃ left at_, look.enter links place a = .ok (.directory at_) ∧ look.resolve follow left at_ b = .ok spot := by
  rcases look.enter_cases links place a with ⟨at_, left, hat, hgoes⟩ | ⟨e, -, hfails⟩
  · exact ⟨left, at_, hat, (hgoes follow b hb).symm.trans h⟩
  · cases h.symm.trans (hfails follow b hb)

/-! ## What decides a walk -/

section

variable {A B C : Look} (bad : FileError → Prop)

/-- Two walks that meet the same are one walk, and a third one goes along or fails in some way, if it meets
the same or fails in that way. -/
theorem advance_step
    (hstep : ∀ v turn turn', A v = .ok turn → B v = .ok turn' →
      turn' = turn ∧ (C v = .ok turn ∨ ∃ e, bad e ∧ C v = .error e))
    (hlink : follow = true → ∀ v, B.isLink v = A.isLink v ∧ C.isLink v = A.isLink v) (parts : List Part) :
    ∀ (place : Location) (stop stop' : Stop), A.advance follow place parts = .ok stop →
      B.advance follow place parts = .ok stop' →
      stop' = stop ∧ (C.advance follow place parts = .ok stop ∨
        ∃ e, bad e ∧ C.advance follow place parts = .error e) := by
  induction parts with
  | nil =>
    intro place stop stop' hA hB
    cases hA
    cases hB
    exact ⟨rfl, .inl rfl⟩
  | cons part rest ih =>
    intro place stop stop' hA hB
    rcases part_cases part with hstill | rfl | henters
    · rw [advance_still hstill] at hA hB ⊢
      exact ih place stop stop' hA hB
    · rw [advance_up] at hA hB ⊢
      exact ih place.dropLast stop stop' hA hB
    by_cases hrest : Filled rest
    · rw [advance_inner henters hrest] at hA hB ⊢
      obtain ⟨⟨⟩, hname, hA⟩ := bind_ok.1 hA
      obtain ⟨⟨⟩, -, hB⟩ := bind_ok.1 hB
      obtain ⟨turn, hturn, hA⟩ := bind_ok.1 hA
      obtain ⟨turn', hturn', hB⟩ := bind_ok.1 hB
      obtain ⟨rfl, hC⟩ := hstep _ _ _ hturn hturn'
      rw [hname]
      rcases hC with hC | ⟨e, he, hC⟩
      · rw [hC]
        cases turn' with
        | enter => exact ih _ _ _ hA hB
        | follow target => exact ⟨Except.ok.inj (hB.symm.trans hA), .inl hA⟩
      · refine ⟨?_, .inr ⟨e, he, by rw [hC]; rfl⟩⟩
        cases turn' with
        | enter => exact (ih _ _ _ hA hB).1
        | follow target => exact Except.ok.inj (hB.symm.trans hA)
    · by_cases hthrough : follow = true ∧ A.isLink (place ++ [part]) = true
      · obtain ⟨rfl, hA'⟩ := hthrough
        obtain ⟨target, htarget⟩ := isLink_iff.1 hA'
        obtain ⟨target', htarget'⟩ := isLink_iff.1 ((hlink rfl _).1.trans hA')
        obtain ⟨target'', htarget''⟩ := isLink_iff.1 ((hlink rfl _).2.trans hA')
        obtain ⟨heq, hC⟩ := hstep _ _ _ htarget htarget'
        cases heq
        have hsame : C (place ++ [part]) = .ok (.follow target) := by
          rcases hC with hC | ⟨e, -, hC⟩
          · exact hC
          · cases htarget''.symm.trans hC
        rw [advance_link henters hrest htarget] at hA
        rw [advance_link henters hrest htarget'] at hB
        rw [advance_link henters hrest hsame]
        exact ⟨Except.ok.inj (hB.symm.trans hA), .inl hA⟩
      · have hA' : follow = true → A.isLink (place ++ [part]) = false := fun hfollow =>
          eq_false_of_ne_true fun hlink => hthrough ⟨hfollow, hlink⟩
        rw [advance_last henters hrest hA'] at hA
        rw [advance_last henters hrest fun hfollow => (hlink hfollow _).1.trans (hA' hfollow)] at hB
        rw [advance_last henters hrest fun hfollow => (hlink hfollow _).2.trans (hA' hfollow)]
        exact ⟨Except.ok.inj (hB.symm.trans hA), .inl hA⟩

theorem resolve_step
    (hstep : ∀ v turn turn', A v = .ok turn → B v = .ok turn' →
      turn' = turn ∧ (C v = .ok turn ∨ ∃ e, bad e ∧ C v = .error e))
    (hlink : follow = true → ∀ v, B.isLink v = A.isLink v ∧ C.isLink v = A.isLink v) (links : Nat) :
    ∀ (place : Location) (parts : List Part) (spot spot' : Spot), A.resolve follow links place parts = .ok spot →
      B.resolve follow links place parts = .ok spot' →
      spot' = spot ∧
        (C.resolve follow links place parts = .ok spot ∨
          ∃ e, bad e ∧ C.resolve follow links place parts = .error e) := by
  induction links with
  | zero =>
    intro place parts spot spot' hA hB
    rw [resolve_eq] at hA hB ⊢
    obtain ⟨stop, hstop, hA⟩ := bind_ok.1 hA
    obtain ⟨stop', hstop', hB⟩ := bind_ok.1 hB
    obtain ⟨rfl, hC⟩ := advance_step bad hstep hlink parts place stop stop' hstop hstop'
    cases stop' with
    | link directory target rest => cases hA
    | spot found =>
      refine ⟨Except.ok.inj (hB.symm.trans hA), hC.imp (fun hC => by rw [hC]; exact hA) ?_⟩
      exact fun ⟨e, he, hC⟩ => ⟨e, he, by rw [hC]; rfl⟩
  | succ links ih =>
    intro place parts spot spot' hA hB
    rw [resolve_eq] at hA hB ⊢
    obtain ⟨stop, hstop, hA⟩ := bind_ok.1 hA
    obtain ⟨stop', hstop', hB⟩ := bind_ok.1 hB
    obtain ⟨rfl, hC⟩ := advance_step bad hstep hlink parts place stop stop' hstop hstop'
    cases stop' with
    | link directory target rest =>
      obtain ⟨heq, hgoes⟩ := ih _ _ _ _ hA hB
      refine ⟨heq, ?_⟩
      rcases hC with hC | ⟨e, he, hC⟩
      · rw [hC]
        exact hgoes
      · exact .inr ⟨e, he, by rw [hC]; rfl⟩
    | spot found =>
      refine ⟨Except.ok.inj (hB.symm.trans hA), hC.imp (fun hC => by rw [hC]; exact hA) ?_⟩
      exact fun ⟨e, he, hC⟩ => ⟨e, he, by rw [hC]; rfl⟩

end

section

variable {look' : Look} {links : Nat} {parts : List Part} {spot spot' : Spot}

/-- What one walk meets, another one meets too. -/
def Within (look look' : Look) : Prop := ∀ v turn, look v = .ok turn → look' v = .ok turn

/-- A walk leads where it led before, if what it meets is still there. -/
theorem resolve_mono (h : look.Within look') (hlink : follow = true → ∀ v, look'.isLink v = look.isLink v)
    (hgoes : look.resolve follow links place parts = .ok spot) : look'.resolve follow links place parts = .ok spot := by
  refine ((resolve_step (fun _ => False) (fun v turn turn' hturn hturn' => ?_)
    (fun hfollow v => ⟨rfl, hlink hfollow v⟩) links place parts spot spot hgoes hgoes).2).resolve_right ?_
  · exact ⟨Except.ok.inj (hturn'.symm.trans hturn), .inl (h v turn hturn)⟩
  · exact fun ⟨_, hnone, _⟩ => hnone

theorem enter_mono (h : look.Within look') (hgoes : look.enter links place parts = .ok spot) :
    look'.enter links place parts = .ok spot := by
  rw [enter_of_follow _ false] at hgoes ⊢
  exact resolve_mono h (fun hfollow => by cases hfollow) hgoes

/-- A walk to a directory that goes well where more is there fails before only for want of what is not. -/
theorem enter_or_missing (h : ∀ v turn, look' v = .ok turn → look v = .ok turn ∨ look v = .error .notFound)
    (hgoes : look'.enter links place parts = .ok spot) :
    look.enter links place parts = .ok spot ∨ look.enter links place parts = .error .notFound := by
  rw [enter_of_follow _ false] at hgoes
  rw [enter_of_follow _ false]
  refine (resolve_step (· = .notFound) (fun v turn turn' hturn hturn' => ?_)
    (fun hfollow => by cases hfollow) links place _ spot spot hgoes hgoes).2.imp id ?_
  · refine ⟨Except.ok.inj (hturn'.symm.trans hturn), (h v turn hturn).imp id fun hmissing => ⟨_, rfl, hmissing⟩⟩
  · rintro ⟨e, rfl, hmissing⟩
    exact hmissing

/-- What there is to meet, but for links under some names. -/
def past (look : Look) (avoid : Location → Bool) : Look := fun place =>
  match look place with
  | .ok (.follow target) => if avoid place then .error .notDirectory else .ok (.follow target)
  | met => met

theorem past_ok {avoid : Location → Bool} {turn : Turn} : look.past avoid place = .ok turn ↔
    look place = .ok turn ∧ ((∃ target, turn = .follow target) → avoid place = false) := by
  rw [past]
  cases look place with
  | error e => exact ⟨fun h => (by cases h), fun h => (by cases h.1)⟩
  | ok met =>
    cases met with
    | enter =>
      refine ⟨fun h => ⟨h, ?_⟩, And.left⟩
      rintro ⟨target, rfl⟩
      cases h
    | follow target =>
      cases havoid : avoid place with
      | true =>
        refine ⟨fun h => (by cases h), fun h => ?_⟩
        cases h.1
        exact absurd (h.2 ⟨target, rfl⟩) (by decide)
      | false => exact ⟨fun h => ⟨h, fun _ => rfl⟩, And.left⟩

theorem past_none (look : Look) : look.past (fun _ => false) = look := by
  funext place
  rw [past]
  split
  · next htarget => exact htarget.symm
  · rfl

theorem past_within (look : Look) (avoid : Location → Bool) : (look.past avoid).Within look :=
  fun _ _ h => (past_ok.1 h).1

/-- A walk goes by no link that is to be avoided if another one, that meets the same, goes by none. -/
theorem enter_past {avoid : Location → Bool} (h : look.Within look') (hgoes : look.enter links place parts = .ok spot)
    (hpast : (look'.past avoid).enter links place parts = .ok spot') :
    (look.past avoid).enter links place parts = .ok spot := by
  rw [enter_of_follow _ false] at hgoes hpast ⊢
  refine (resolve_step (fun _ => False) (fun v turn turn' hturn hturn' => ?_)
    (fun hfollow => by cases hfollow) links place _ spot spot' hgoes hpast).2.resolve_right ?_
  · obtain ⟨hturn', havoid⟩ := past_ok.1 hturn'
    obtain rfl := Except.ok.inj (hturn'.symm.trans (h v turn hturn))
    exact ⟨rfl, .inl (past_ok.2 ⟨hturn, havoid⟩)⟩
  · exact fun ⟨_, hnone, _⟩ => hnone

end

/-! ## Parts that count for nothing, and names of directories -/

section

variable {links : Nat}

/-- Parts that stay change nothing about a walk that goes on. -/
theorem resolve_still {still b : List Part} (h : ∀ part ∈ still, part = [] ∨ part = here) (hb : Filled b)
    (a : List Part) :
    look.resolve follow links place (a ++ still ++ b) = look.resolve follow links place (a ++ b) := by
  have hskip : ∀ left at_, look.resolve follow left at_ (still ++ b) = look.resolve follow left at_ b := by
    intro left at_
    induction still with
    | nil => rfl
    | cons part rest ih =>
      rw [resolve_eq, List.cons_append, advance_still (h part List.mem_cons_self), ← resolve_eq]
      exact ih fun x hx => h x (List.mem_cons_of_mem _ hx)
  rw [List.append_assoc]
  rcases look.enter_cases links place a with ⟨at_, left, -, hgoes⟩ | ⟨e, -, hfails⟩
  · rw [hgoes follow _ (hb.append still), hskip, hgoes follow b hb]
  · rw [hfails follow _ (hb.append still), hfails follow b hb]

/-- A walk along names of directories that goes on goes on from there, if no name is too long. -/
theorem resolve_names {names b : List Part} (hb : Filled b) (henters : ∀ name ∈ names, Enters name)
    (hlook : ∀ below, below ≠ [] → below <+: names → look (place ++ below) = .ok .enter) :
    look.resolve follow links place (names ++ b) =
      (names.forM checkName).bind fun _ => look.resolve follow links (place ++ names) b := by
  induction names generalizing place with
  | nil => rw [List.nil_append, List.append_nil]; rfl
  | cons name rest ih =>
    have hfirst := hlook [name] (List.cons_ne_nil _ _) (List.prefix_append [name] rest)
    have hrest := @ih (place ++ [name]) (fun x hx => henters x (List.mem_cons_of_mem _ hx)) fun below hne hbelow => by
      have hnext := hlook (name :: below) (List.cons_ne_nil _ _) ((List.prefix_cons_inj name).2 hbelow)
      rwa [List.append_assoc]
    have hsplit : (name :: rest).forM checkName = (checkName name).bind fun _ => rest.forM checkName := rfl
    rw [List.cons_append, resolve_eq, advance_inner (henters name List.mem_cons_self) (hb.append rest), hfirst, hsplit]
    cases checkName name with
    | error e => rfl
    | ok _ =>
      rw [resolve_eq, List.append_assoc] at hrest
      exact hrest

/-- A walk along names of directories to a last name, where no link is to be followed. -/
theorem resolve_names_last {names : List Part} {last : Part} (henters : ∀ name ∈ names, Enters name)
    (hlast : Enters last) (hlook : ∀ below, below ≠ [] → below <+: names → look (place ++ below) = .ok .enter)
    (hlink : follow = true → look.isLink (place ++ names ++ [last]) = false) :
    look.resolve follow links place (names ++ [last]) = (names.forM checkName).bind fun _ =>
      (checkName last).bind fun _ => .ok (.name (place ++ names) last false) := by
  rw [resolve_names (hlast.filled []) henters hlook, resolve_last hlast not_filled_nil hlink]
  rfl

end

end Look

end CoveragePages
