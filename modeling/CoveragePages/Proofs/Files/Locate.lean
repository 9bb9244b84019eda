/-
Where paths lead on a disk. A path leads to a directory if the walk along its parts enters one, and to its
last name in the directory that the walk along the parts before enters. The place of a path is told without
the directories on the way to it: it is where the path leads once they are made, so it is the same on all
disks that have the same links on the way.
-/
import CoveragePages.Files.Disk
import CoveragePages.Proofs.Files.Walk

namespace CoveragePages

open CoveragePages.Path

namespace Disk

variable {disk : Disk} {v : Location}

/-! ## What a walk meets on a disk -/

theorem look_enter : disk.look v = .ok .enter ↔ disk.get? v = some .directory := by
  rw [look]
  cases disk.get? v with
  | none => simp
  | some entry => cases entry <;> simp

theorem look_follow {target : Path} : disk.look v = .ok (.follow target) ↔ disk.get? v = some (.link target) := by
  rw [look]
  cases disk.get? v with
  | none => simp
  | some entry => cases entry <;> simp

theorem look_missing : disk.look v = .error .notFound ↔ disk.get? v = none := by
  rw [look]
  cases disk.get? v with
  | none => simp
  | some entry => cases entry <;> simp

/-- What a walk would meet if everything were a directory but for the links. -/
def guess (disk : Disk) : Look := fun place =>
  match disk.get? place with
  | some (.link target) => .ok (.follow target)
  | _ => .ok .enter

theorem guess_follow {target : Path} : disk.guess v = .ok (.follow target) ↔ disk.get? v = some (.link target) := by
  rw [guess]
  cases disk.get? v with
  | none => simp
  | some entry => cases entry <;> simp

theorem guess_enter : disk.guess v = .ok .enter ↔ ∀ target, disk.get? v ≠ some (.link target) := by
  rw [guess]
  cases disk.get? v with
  | none => simp
  | some entry => cases entry <;> simp

theorem isLink_look (v : Location) : disk.look.isLink v = true ↔ ∃ target, disk.get? v = some (.link target) := by
  simp only [Look.isLink_iff, look_follow]

theorem isLink_guess (v : Location) : disk.guess.isLink v = true ↔ ∃ target, disk.get? v = some (.link target) := by
  simp only [Look.isLink_iff, guess_follow]

theorem isLink_look_eq_false (h : ∀ target, disk.get? v ≠ some (.link target)) : disk.look.isLink v = false :=
  eq_false_of_ne_true fun hlink => by
    obtain ⟨target, htarget⟩ := (isLink_look v).1 hlink
    exact h target htarget

/-- A disk whose directories are no links of another one, and whose links are links of it. -/
theorem look_within_guess {now : Disk} (hdirectory : ∀ n target, now.get? n = some .directory →
      disk.get? n ≠ some (.link target))
    (hlink : ∀ n target, now.get? n = some (.link target) → disk.get? n = some (.link target)) :
    now.look.Within disk.guess := by
  intro n turn hturn
  cases turn with
  | enter => exact guess_enter.2 fun target => hdirectory n target (look_enter.1 hturn)
  | follow target => exact guess_follow.2 (hlink n target (look_follow.1 hturn))

theorem look_within_guess_self (disk : Disk) : disk.look.Within disk.guess :=
  look_within_guess (fun n target hdirectory hlink => by cases hdirectory.symm.trans hlink) fun _ _ => id

theorem checkPath_ok {p : Path} : checkPath p = .ok () ↔
    p.bytes ≠ [] ∧ (0 : UInt8) ∉ p.bytes ∧ p.bytes.length ≤ maxBytes := by
  rw [checkPath]
  split
  · next h => simp [h]
  · next hne =>
    split
    · next hnul => simp [hnul]
    · next hnul =>
      split
      · next hlong => exact ⟨fun h => (by cases h), fun h => absurd h.2.2 (by omega)⟩
      · next hshort => exact ⟨fun _ => ⟨hne, hnul, by omega⟩, fun _ => rfl⟩

end Disk

/-! ## Pieces and parts -/

namespace Look

variable {look : Look} {follow : Bool} {links : Nat} {place : Location} {b : List Part}

theorem resolve_root (root : Bool) (hb : Filled b) :
    look.resolve follow links place ((if root then [[]] else []) ++ b) = look.resolve follow links place b := by
  cases root with
  | true => exact resolve_still (show ∀ part ∈ [([] : Part)], part = [] ∨ part = here by simp) hb []
  | false => rfl

/-- A walk that goes on goes along the parts of a path as along its pieces. -/
theorem resolve_pieces (p : Path) (hb : Filled b) :
    look.resolve follow links place (p.pieces ++ b) = look.resolve follow links place (p.parts ++ b) := by
  obtain ⟨still, hpieces, hstill⟩ := p.pieces_eq_parts
  rw [hpieces, resolve_still hstill hb, List.append_assoc, resolve_root _ (hb.append _)]

theorem enter_pieces (p : Path) : look.enter links place p.pieces = look.enter links place p.parts :=
  resolve_pieces p filled_here

/-- The parts of a path that stand before those of another one are its own. -/
theorem resolve_lead (p : Path) (hb : Filled b) :
    look.resolve follow links place (p.lead ++ b) = look.resolve follow links place (p.parts ++ b) := by
  rw [← resolve_pieces p hb]
  obtain ⟨still, hpieces, hstill⟩ : ∃ still, p.pieces = p.front ++ still ∧ ∀ part ∈ still, part = [] ∨ part = here := by
    rw [front]
    split
    · next hempty =>
      refine ⟨p.pieces, rfl, fun part hpart => ?_⟩
      rw [pieces, hempty] at hpart
      exact .inl (List.mem_singleton.1 hpart)
    · split
      · next hlast =>
        obtain ⟨before, -, hpieces⟩ := pieces_of_getLast hlast
        rw [hpieces, List.dropLast_concat]
        exact ⟨[[]], rfl, by simp⟩
      · exact ⟨[], (List.append_nil _).symm, by simp⟩
  rw [hpieces, resolve_still hstill hb, lead]
  cases hroot : p.isAbsolute with
  | false => rfl
  | true =>
    obtain ⟨rest, hrest, -⟩ := pieces_of_isAbsolute hroot
    cases hfront : p.front with
    | nil => rfl
    | cons part tail =>
      rw [hpieces, hfront, List.cons_append] at hrest
      obtain rfl := (List.cons.inj hrest).1
      exact (resolve_still (show ∀ part ∈ [([] : Part)], part = [] ∨ part = here by simp) (hb.append tail) []).symm

theorem enter_trimParts (leading : Bool) (parts : List Part) :
    look.enter links place (trimParts leading parts) = look.enter links place parts := by
  obtain ⟨still, hparts, hstill⟩ := trimParts_append leading parts
  have hskip := @resolve_still look true place links still [here] hstill filled_here (trimParts leading parts)
  rw [← hparts] at hskip
  exact hskip.symm

end Look

namespace Disk

variable {disk : Disk} {p : Path}

/-! ## Directories -/

/-- The directory that a walk along the parts of a path enters. -/
def Arrives (disk : Disk) (p : Path) (at_ : Location) : Prop :=
  disk.look.enter maxLinks (p.startIn disk.current) p.parts = .ok (.directory at_)

theorem locate_eq (disk : Disk) (follow : Bool) (p : Path) : disk.locate follow p = (checkPath p).bind fun _ =>
    disk.look.resolve follow maxLinks (p.startIn disk.current) p.pieces := rfl

theorem locate_ok {follow : Bool} {spot : Spot} : disk.locate follow p = .ok spot ↔
    checkPath p = .ok () ∧ disk.look.resolve follow maxLinks (p.startIn disk.current) p.pieces = .ok spot := by
  rw [locate_eq, bind_ok]
  exact ⟨fun ⟨⟨⟩, h⟩ => h, fun h => ⟨(), h⟩⟩

theorem arrives_iff {at_ : Location} : disk.Arrives p at_ ↔
    ∃ spot, disk.look.resolve true maxLinks (p.startIn disk.current) p.pieces = .ok spot ∧ spot.place = at_ ∧
      ∀ above last slash, spot = .name above last slash → disk.get? at_ = some .directory := by
  rw [Arrives, ← Look.enter_pieces, Look.enter_ok]
  simp only [look_enter]

theorem directory?_eq_some {at_ : Location} :
    disk.directory? p = some at_ ↔ checkPath p = .ok () ∧ disk.Arrives p at_ := by
  rw [arrives_iff, directory?]
  cases hlocate : disk.locate true p with
  | error e =>
    refine ⟨fun h => (by cases h), ?_⟩
    rintro ⟨hpath, spot, hspot, -⟩
    cases hlocate.symm.trans (locate_ok.2 ⟨hpath, hspot⟩)
  | ok spot =>
    obtain ⟨hpath, hspot⟩ := locate_ok.1 hlocate
    have hsame : ∀ other, disk.look.resolve true maxLinks (p.startIn disk.current) p.pieces = .ok other →
      other = spot := fun other hother => Except.ok.inj (hother.symm.trans hspot)
    cases spot with
    | directory place =>
      refine ⟨fun h => ⟨hpath, _, hspot, Option.some.inj h, nofun⟩, ?_⟩
      rintro ⟨-, other, hother, rfl, -⟩
      rw [hsame other hother]
      rfl
    | name above last slash =>
      dsimp only
      constructor
      · intro h
        split at h
        · next hget =>
          cases h
          exact ⟨hpath, _, hspot, rfl, fun _ _ _ _ => hget⟩
        · cases h
      · rintro ⟨-, other, hother, rfl, hget⟩
        rw [hsame other hother, Spot.place] at hget ⊢
        rw [hget above last slash rfl]

theorem find_of_locate {above : Location} {last : Part} {slash : Bool}
    (h : disk.locate true p = .ok (.name above last slash)) :
    disk.find p = match disk.get? (above ++ [last]) with
      | none => .error .notFound
      | some .directory => .ok .directory
      | some entry => if slash then .error .notDirectory else .ok entry := by
  rw [find, h]
  rfl

theorem find_directory : disk.find p = .ok .directory ↔ ∃ at_, disk.directory? p = some at_ := by
  rw [directory?]
  cases hlocate : disk.locate true p with
  | error e =>
    rw [find, hlocate]
    exact ⟨fun h => (by cases h), fun ⟨_, h⟩ => (by cases h)⟩
  | ok spot =>
    cases spot with
    | directory place =>
      rw [find, hlocate]
      exact ⟨fun _ => ⟨place, rfl⟩, fun _ => rfl⟩
    | name above last slash =>
      rw [find_of_locate hlocate]
      dsimp only [Spot.place]
      cases disk.get? (above ++ [last]) with
      | none => exact ⟨fun h => (by cases h), fun ⟨_, h⟩ => (by cases h)⟩
      | some entry =>
        cases entry with
        | directory => exact ⟨fun _ => ⟨_, rfl⟩, fun _ => rfl⟩
        | file content | link target | device =>
          refine ⟨fun h => ?_, fun ⟨_, h⟩ => (by cases h)⟩
          cases slash <;> cases h

theorem kind?_directory : disk.kind? p = some .directory ↔ checkPath p = .ok () ∧ ∃ at_, disk.Arrives p at_ := by
  have hkind : disk.kind? p = some .directory ↔ disk.find p = .ok .directory := by
    rw [kind?]
    cases disk.find p with
    | error e => exact ⟨fun h => (by cases h), fun h => (by cases h)⟩
    | ok entry =>
      cases entry with
      | directory => exact ⟨fun _ => rfl, fun _ => rfl⟩
      | file content | link target | device => exact ⟨fun h => (by cases h), fun h => (by cases h)⟩
  rw [hkind, find_directory]
  simp only [directory?_eq_some, exists_and_left]

/-! ## Paths that end in a name -/

/-- A path that ends in a name, after pieces. -/
structure EndsIn (p : Path) (init : List Part) (last : Part) : Prop where
  pieces : p.pieces = init ++ [last]
  enters : Enters last

section

variable {init : List Part} {name last : Part} {follow : Bool} {spot : Spot}

theorem EndsIn.locate (h : EndsIn p init last)
    (hlink : follow = true → ∀ at_, disk.look.enter maxLinks (p.startIn disk.current) init = .ok (.directory at_) →
      ∀ target, disk.get? (at_ ++ [last]) ≠ some (.link target)) :
    disk.locate follow p = .ok spot ↔ checkPath p = .ok () ∧ last.length ≤ maxNameBytes ∧ ∃ at_,
      disk.look.enter maxLinks (p.startIn disk.current) init = .ok (.directory at_) ∧ spot = .name at_ last false := by
  rw [locate_ok, h.pieces, Look.resolve_concat h.enters fun hfollow at_ hat =>
    isLink_look_eq_false (hlink hfollow at_ hat)]
  refine and_congr_right fun _ => ?_
  constructor
  · rintro ⟨at_, hat, hname, hspot⟩
    exact ⟨hname, at_, hat, hspot⟩
  · rintro ⟨hname, at_, hat, hspot⟩
    exact ⟨at_, hat, hname, hspot⟩

/-- A path that has a name and leads to one leads to its own; if no slash is behind it, it ends in it. -/
theorem locate_named (h : Named p init name) {above : Location} {slash : Bool}
    (hlocate : disk.locate false p = .ok (.name above last slash)) :
    last = name ∧ disk.look.enter maxLinks (p.startIn disk.current) init = .ok (.directory above) ∧
      name.length ≤ maxNameBytes ∧ (slash = false → EndsIn p ((if p.isAbsolute then [[]] else []) ++ init) name) := by
  obtain ⟨-, hresolve⟩ := locate_ok.1 hlocate
  obtain ⟨still, hpieces, hstill⟩ := p.pieces_eq_parts
  rw [h.parts] at hpieces
  by_cases hfilled : Filled still
  · -- the name would be one of a directory to enter
    rw [hpieces] at hresolve
    obtain ⟨at_, hat⟩ := Look.directory_of_back (fun part hpart => (hstill part hpart).imp_right .inl) hfilled hresolve
    cases hat
  · have hname : Filled (init ++ name :: still) := (h.enters.filled still).append init
    rw [hpieces, List.append_assoc, List.append_assoc, List.singleton_append, Look.resolve_root _ hname] at hresolve
    obtain ⟨left, at_, hat, hgoes⟩ := Look.resolve_of_filled (h.enters.filled still) hresolve
    rw [Look.resolve_last h.enters hfilled fun hfollow => by cases hfollow] at hgoes
    obtain ⟨⟨⟩, hshort, hspot⟩ := bind_ok.1 hgoes
    cases hspot
    refine ⟨rfl, hat, checkName_ok.1 hshort, fun hslash => ⟨?_, h.enters⟩⟩
    obtain rfl : still = [] := by
      cases still with
      | nil => rfl
      | cons part rest => cases hslash
    rw [hpieces, List.append_nil, List.append_assoc]

/-- A path that leads to a name has this name. -/
theorem named_of_locate {above : Location} {slash : Bool}
    (hlocate : disk.locate false p = .ok (.name above last slash)) :
    ∃ init, Named p init last := by
  obtain ⟨-, hresolve⟩ := locate_ok.1 hlocate
  obtain ⟨still, hpieces, hstill⟩ := p.pieces_eq_parts
  by_cases hname : ∃ init name, Named p init name
  · obtain ⟨init, name, h⟩ := hname
    obtain ⟨rfl, -⟩ := locate_named h hlocate
    exact ⟨init, h⟩
  · have hstay : ∀ part ∈ still, part = [] ∨ part = here ∨ part = up :=
      fun part hpart => (hstill part hpart).imp_right .inl
    obtain ⟨at_, hat⟩ : ∃ at_, Spot.name above last slash = .directory at_ := by
      rcases List.eq_nil_or_concat p.parts with hnil | ⟨front, part, hparts⟩
      · -- no part counts, so the walk stays where it starts
        rw [hpieces, hnil, List.append_nil] at hresolve
        obtain ⟨at_, hat⟩ := @Look.resolve_back disk.look false ((if p.isAbsolute then [[]] else []) ++ still) (by
          cases p.isAbsolute <;> simpa using hstay) maxLinks (p.startIn disk.current)
        exact ⟨at_, Except.ok.inj (hresolve.symm.trans hat)⟩
      · rw [List.concat_eq_append] at hparts
        have hlast : part ≠ [] := getLast_trimParts_ne_nil (!p.isAbsolute) p.parts (by
          rw [p.tidy_parts.trimmed, hparts, List.getLast?_concat])
        have hback : part = [] ∨ part = here ∨ part = up := by
          rcases part_cases part with hstay | hup | henters
          · exact hstay.imp_right .inl
          · exact .inr (.inr hup)
          · exact absurd ⟨front, part, hparts, henters⟩ hname
        rw [hpieces, hparts, ← List.append_assoc, List.append_assoc] at hresolve
        have hall : ∀ x ∈ part :: still, x = [] ∨ x = here ∨ x = up := List.forall_mem_cons.2 ⟨hback, hstay⟩
        exact Look.directory_of_back hall
          ⟨part, List.mem_cons_self, hlast⟩ hresolve
    cases hat

end

/-! ## Places -/

/-- The directory that a path leads to once those on the way are there, if no link to be avoided is on the
way. -/
def leads? (disk : Disk) (avoid : Location → Bool) (p : Path) : Option Location :=
  match (disk.guess.past avoid).enter maxLinks (p.startIn disk.current) p.parts with
  | .ok spot => some spot.place
  | .error _ => none

/-- The place of a path that has a name: this name in the directory that the path is in. -/
def place? (disk : Disk) (p : Path) : Option Location := do
  return (← disk.leads? (fun _ => false) (← p.parent?)) ++ [← p.fileName?]

/-- Where a path leads once the directories on the way are there, through a link at its end as well. -/
def goal? (disk : Disk) (p : Path) : Option Location :=
  match disk.guess.resolve true maxLinks (p.startIn disk.current) p.pieces with
  | .ok spot => some spot.place
  | .error _ => none

/-- The places of a path and of the directories that it lies in. -/
def Above (disk : Disk) (p : Path) (v : Location) : Prop := ∃ q, Heads q p ∧ disk.place? q = some v

theorem leads?_eq_some {avoid : Location → Bool} {at_ : Location} : disk.leads? avoid p = some at_ ↔
    (disk.guess.past avoid).enter maxLinks (p.startIn disk.current) p.parts = .ok (.directory at_) := by
  rw [leads?]
  cases henter : (disk.guess.past avoid).enter maxLinks (p.startIn disk.current) p.parts with
  | error e => exact ⟨fun h => (by cases h), fun h => (by cases h)⟩
  | ok spot =>
    obtain ⟨place, rfl⟩ := Look.enter_directory henter
    refine ⟨fun h => ?_, fun h => ?_⟩
    · rw [← Option.some.inj h]
      rfl
    · cases h
      rfl

section

variable {init : List Part} {name : Part}

theorem startIn_parent {parent : Path} (h : p.parent? = some parent) (directory : Location) :
    parent.startIn directory = p.startIn directory := by
  rw [startIn, startIn, (parts_parent h).1]

/-- The directory that a path is in leads to where the parts before its last one lead to. -/
theorem leads?_parent {parent : Path} (h : Named p init name) (hparent : p.parent? = some parent)
    {avoid : Location → Bool} {at_ : Location} : disk.leads? avoid parent = some at_ ↔
      (disk.guess.past avoid).enter maxLinks (p.startIn disk.current) init = .ok (.directory at_) := by
  rw [leads?_eq_some, startIn_parent hparent, (parts_parent hparent).2.2, Look.enter_trimParts, h.parts,
    List.dropLast_concat]

/-- The place of a path that has a name is this name in the directory that the parts before lead to. -/
theorem place?_named (h : Named p init name) : disk.place? p = some v ↔ ∃ at_,
    disk.guess.enter maxLinks (p.startIn disk.current) init = .ok (.directory at_) ∧ v = at_ ++ [name] := by
  obtain ⟨parent, hparent⟩ := h.exists_parent
  have hleads := fun at_ => @leads?_parent disk p init name parent h hparent (fun _ => false) at_
  rw [Look.past_none] at hleads
  have hplace : disk.place? p = (disk.leads? (fun _ => false) parent).map (· ++ [name]) := by
    rw [place?, hparent, fileName?_eq_some.2 ⟨init, h⟩]
    cases hat : disk.leads? (fun _ => false) parent <;> simp [hat]
  rw [hplace, Option.map_eq_some_iff]
  simp only [hleads, eq_comm]

variable {now : Disk}

/-- A path that leads to its name on a disk with no other links leads to its place. -/
theorem place?_of_locate (hcurrent : now.current = disk.current) (hwithin : now.look.Within disk.guess)
    {above : Location} {last : Part} {slash : Bool} (hlocate : now.locate false p = .ok (.name above last slash)) :
    disk.place? p = some (above ++ [last]) := by
  obtain ⟨init, h⟩ := named_of_locate hlocate
  obtain ⟨-, hat, -⟩ := locate_named h hlocate
  rw [hcurrent] at hat
  exact (place?_named h).2 ⟨above, Look.enter_mono hwithin hat, rfl⟩

/-- A path that leads to a name on a disk with the same links leads to its goal. -/
theorem goal?_of_locate (hcurrent : now.current = disk.current) (hwithin : now.look.Within disk.guess)
    (hlink : ∀ v, disk.guess.isLink v = now.look.isLink v) {spot : Spot} (hlocate : now.locate true p = .ok spot) :
    disk.goal? p = some spot.place := by
  obtain ⟨-, hspot⟩ := locate_ok.1 hlocate
  rw [hcurrent] at hspot
  rw [goal?, Look.resolve_mono hwithin (fun _ => hlink) hspot]

end

end Disk

end CoveragePages
