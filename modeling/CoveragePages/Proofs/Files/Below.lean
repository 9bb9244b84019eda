/-
Paths of names below a directory. Where the directory is there and so are those between, without links, such
a path leads to its last name under the names before, whatever the way to the directory is (`locate_below`).
The directories below it are made if each of them is missing or there (`perform_folder`); from a disk where
the directory itself is missing, this is done after that one is made (`perform_folder_start`).
-/
import CoveragePages.Proofs.Files.Directories
import Mathlib.Data.List.Induction

namespace CoveragePages

open CoveragePages.Path

namespace Path

variable {base : Path} {dirs : List Part} {name : Part}

/-- The path of a directory below another one, without anything at its end that does not count. -/
def folder (base : Path) (dirs : List Part) : Path :=
  .ofParts base.isAbsolute (trimParts (!base.isAbsolute) (base.lead ++ dirs))

theorem isName_concat (hdirs : ∀ dir ∈ dirs, IsName dir) (hname : IsName name) : ∀ x ∈ dirs ++ [name], IsName x :=
  List.forall_mem_append.2 ⟨hdirs, List.forall_mem_singleton.2 hname⟩

theorem folder_eq_join (hne : dirs ≠ []) (hdirs : ∀ dir ∈ dirs, IsName dir) :
    folder base dirs = base.join (.ofNames dirs) := by
  rw [folder, join_ofNames base hne hdirs, (tidy_join base hne hdirs).trimmed]

/-- A path of names below another one is in the directory of the names before the last one. -/
theorem parent?_join (base : Path) (hdirs : ∀ dir ∈ dirs, IsName dir) (hname : IsName name) :
    (base.join (.ofNames (dirs ++ [name]))).parent? = some (folder base dirs) := by
  have hall := isName_concat hdirs hname
  rw [join_ofNames base (by simp) hall, parent?_ofParts (tidy_join base (by simp) hall) (by simp), folder,
    ← List.append_assoc, List.dropLast_concat]

theorem tidy_folder (base : Path) (hdirs : ∀ dir ∈ dirs, IsName dir) :
    Tidy base.isAbsolute (trimParts (!base.isAbsolute) (base.lead ++ dirs)) := by
  have hdummy : IsName (nameOf "x") := ⟨by decide, by decide, by decide, by decide⟩
  have hinit := (tidy_join base (show dirs ++ [nameOf "x"] ≠ [] by simp) (isName_concat hdirs hdummy)).init
  rwa [← List.append_assoc, List.dropLast_concat] at hinit

theorem isAbsolute_folder (hdirs : ∀ dir ∈ dirs, IsName dir) : (folder base dirs).isAbsolute = base.isAbsolute :=
  isAbsolute_ofParts (tidy_folder base hdirs)

theorem startIn_folder (hdirs : ∀ dir ∈ dirs, IsName dir) (directory : Location) :
    (folder base dirs).startIn directory = base.startIn directory := by
  rw [startIn, startIn, isAbsolute_folder hdirs]

theorem startIn_join (hdirs : ∀ dir ∈ dirs, IsName dir) (hname : IsName name) (directory : Location) :
    (base.join (.ofNames (dirs ++ [name]))).startIn directory = base.startIn directory := by
  have hall := isName_concat hdirs hname
  rw [startIn, startIn, join_ofNames base (by simp) hall, isAbsolute_ofParts (tidy_join base (by simp) hall)]

end Path

namespace Look

variable {look : Look} {follow : Bool} {links : Nat} {place : Location} {dirs : List Part}

/-- The walk to a directory below another one goes along the path of this one first. -/
theorem enter_folder (base : Path) (hdirs : ∀ dir ∈ dirs, IsName dir) :
    look.enter links place (folder base dirs).parts = look.enter links place (base.parts ++ dirs) := by
  rw [folder, parts_ofParts (tidy_folder base hdirs), enter_trimParts, enter, enter, List.append_assoc,
    List.append_assoc]
  exact resolve_lead base (filled_here.append dirs)

end Look

namespace Disk

variable {disk now : Disk} {base : Path} {at_ : Location} {dirs : List Part} {name : Part}

/-- The names of a path below another one are short enough, and so is the path. -/
structure Fits (p : Path) (names : List Part) : Prop where
  path : checkPath p = .ok ()
  names : ∀ name ∈ names, name.length ≤ maxNameBytes

theorem forM_checkName_ok {names : List Part} :
    names.forM checkName = .ok () ↔ ∀ name ∈ names, name.length ≤ maxNameBytes := by
  induction names with
  | nil => exact ⟨fun _ name hname => absurd hname List.not_mem_nil, fun _ => rfl⟩
  | cons name rest ih =>
    have hsplit : (name :: rest).forM checkName = (checkName name).bind fun _ => rest.forM checkName := rfl
    rw [hsplit, bind_ok, List.forall_mem_cons, ← checkName_ok, ← ih]
    exact ⟨fun ⟨⟨⟩, h⟩ => h, fun h => ⟨(), h⟩⟩

/-- All directories between another one and some names are there. -/
def Spans (disk : Disk) (at_ : Location) (dirs : List Part) : Prop :=
  ∀ below, below ≠ [] → below <+: dirs → disk.get? (at_ ++ below) = some .directory

theorem Spans.look (h : disk.Spans at_ dirs) :
    ∀ below, below ≠ [] → below <+: dirs → disk.look (at_ ++ below) = .ok .enter :=
  fun below hne hbelow => look_enter.2 (h below hne hbelow)

theorem spans_concat : disk.Spans at_ (dirs ++ [name]) ↔
    disk.Spans at_ dirs ∧ disk.get? (at_ ++ (dirs ++ [name])) = some .directory := by
  constructor
  · intro h
    exact ⟨fun below hne hbelow => h below hne (hbelow.trans (List.prefix_append _ _)), h _ (by simp) List.prefix_rfl⟩
  · rintro ⟨h, hlast⟩ below hne hbelow
    rcases List.prefix_concat_iff.1 hbelow with rfl | hbelow
    · exact hlast
    · exact h below hne hbelow

section

variable (hdirs : ∀ dir ∈ dirs, IsName dir)

include hdirs

theorem arrives_folder {v : Location} : disk.Arrives (folder base dirs) v ↔
    disk.look.enter maxLinks (base.startIn disk.current) (base.parts ++ dirs) = .ok (.directory v) := by
  rw [Arrives, startIn_folder hdirs, Look.enter_folder base hdirs]

theorem arrives_below (h : disk.Arrives base at_) (hspans : disk.Spans at_ dirs)
    (hshort : ∀ dir ∈ dirs, dir.length ≤ maxNameBytes) : disk.Arrives (folder base dirs) (at_ ++ dirs) := by
  obtain ⟨left, hleft⟩ := Look.resolve_of_enter h
  rw [arrives_folder hdirs, Look.enter, List.append_assoc, hleft true _ (filled_here.append dirs),
    Look.resolve_names filled_here (fun dir hdir => (hdirs dir hdir).enters) hspans.look, forM_checkName_ok.2 hshort]
  exact Look.resolve_here left

/-- A path of names below a directory leads to the last name, if no link is there that is to be followed. -/
theorem locate_below (h : disk.Arrives base at_) (hname : IsName name) (hspans : disk.Spans at_ dirs) (follow : Bool)
    (hlink : follow = true → ∀ target, disk.get? (at_ ++ (dirs ++ [name])) ≠ some (.link target)) :
    disk.locate follow (base.join (.ofNames (dirs ++ [name]))) =
      (checkPath (base.join (.ofNames (dirs ++ [name])))).bind
      fun _ => (dirs.forM checkName).bind fun _ => (checkName name).bind fun _ =>
        .ok (.name (at_ ++ dirs) name false) := by
  have hall := isName_concat hdirs hname
  have htidy := tidy_join base (show dirs ++ [name] ≠ [] by simp) hall
  have hfilled : Filled (dirs ++ [name]) := (hname.enters.filled []).append dirs
  obtain ⟨left, hleft⟩ := Look.resolve_of_enter h
  have hpieces : disk.look.resolve follow maxLinks (base.startIn disk.current)
      (base.join (.ofNames (dirs ++ [name]))).pieces =
        disk.look.resolve follow maxLinks (base.startIn disk.current) (base.parts ++ (dirs ++ [name])) := by
    rw [join_ofNames base (by simp) hall, pieces_ofParts htidy.plain (by simp),
      Look.resolve_root _ (hfilled.append base.lead), Look.resolve_lead base hfilled]
  rw [locate_eq, startIn_join hdirs hname, hpieces, hleft follow _ hfilled,
    Look.resolve_names_last (fun dir hdir => (hdirs dir hdir).enters) hname.enters hspans.look fun hfollow => ?_]
  rw [List.append_assoc]
  exact isLink_look_eq_false (hlink hfollow)

theorem locate_below_ok (h : disk.Arrives base at_) (hname : IsName name) (hspans : disk.Spans at_ dirs) (follow : Bool)
    (hlink : follow = true → ∀ target, disk.get? (at_ ++ (dirs ++ [name])) ≠ some (.link target)) {spot : Spot} :
    disk.locate follow (base.join (.ofNames (dirs ++ [name]))) = .ok spot ↔
      Fits (base.join (.ofNames (dirs ++ [name]))) (dirs ++ [name]) ∧ spot = .name (at_ ++ dirs) name false := by
  rw [locate_below hdirs h hname hspans follow hlink, bind_ok]
  simp only [bind_ok]
  constructor
  · rintro ⟨⟨⟩, hpath, ⟨⟩, hshort, ⟨⟩, hlast, hspot⟩
    refine ⟨⟨hpath, List.forall_mem_append.2 ⟨forM_checkName_ok.1 hshort, ?_⟩⟩, (Except.ok.inj hspot).symm⟩
    exact List.forall_mem_singleton.2 (checkName_ok.1 hlast)
  · rintro ⟨hfits, rfl⟩
    obtain ⟨hshort, hlast⟩ := List.forall_mem_append.1 hfits.names
    exact ⟨(), hfits.path, (), forM_checkName_ok.2 hshort, (), checkName_ok.2 (hlast name List.mem_cons_self), rfl⟩

end

/-! ## Making directories below another one -/

/-- Whether a name can be entered by making directories: it is a directory or missing. -/
def Open (disk : Disk) (place : Location) : Prop := disk.get? place = none ∨ disk.get? place = some .directory

/-- What can be entered once directories were made could be entered before, and still can. -/
theorem Grown.open_iff {p : Path} (h : disk.Grown p now) {v : Location} : now.Open v ↔ disk.Open v := by
  rcases h.entries v with hsame | ⟨-, hmissing, hmade⟩
  · rw [Open, hsame, Open]
  · exact ⟨fun _ => .inl hmissing, fun _ => .inr hmade⟩

/-- One disk is another one with the directories between another one and some names made. -/
structure Housed (disk : Disk) (at_ : Location) (dirs : List Part) (now : Disk) : Prop where
  spans : now.Spans at_ dirs
  kept : ∀ n, (∀ below, below ≠ [] → below <+: dirs → n ≠ at_ ++ below) → now.get? n = disk.get? n

/-- One directory is made below another one if its name is free or it is there. -/
theorem attempt_below (hdirs : ∀ dir ∈ dirs, IsName dir) (hname : IsName name) (h : disk.Arrives base at_)
    (hspans : disk.Spans at_ dirs) (hlink : ∀ target, disk.get? (at_ ++ (dirs ++ [name])) ≠ some (.link target)) :
    disk.attempt (folder base (dirs ++ [name])) = (now, .ok ()) ↔
      Fits (folder base (dirs ++ [name])) (dirs ++ [name]) ∧
        (disk.get? (at_ ++ (dirs ++ [name])) = none ∧ now = disk.set (at_ ++ (dirs ++ [name])) .directory ∨
          disk.get? (at_ ++ (dirs ++ [name])) = some .directory ∧ now = disk) := by
  have hall := isName_concat hdirs hname
  have hlocate := fun spot => @locate_below_ok disk base at_ dirs name hdirs h hname hspans false (fun _ => hlink) spot
  rw [← folder_eq_join (by simp) hall] at hlocate
  constructor
  · intro hok
    rcases attempt_ok hok with hmade | ⟨rfl, hpath, v, harrives⟩
    · obtain ⟨above, last, slash, hfound, hmissing, rfl⟩ := makeDirectory_ok.1 hmade
      obtain ⟨hfits, hspot⟩ := (hlocate _).1 hfound
      cases hspot
      rw [List.append_assoc] at hmissing ⊢
      exact ⟨hfits, .inl ⟨hmissing, rfl⟩⟩
    · -- it is there, so it is a directory: nothing else is entered, and there is no link
      rw [Arrives, ← Look.enter_pieces] at harrives
      obtain ⟨found, hfound, -⟩ := Look.resolve_of_enter_ok _ _ _ _ harrives
      obtain ⟨hfits, rfl⟩ := (hlocate found).1 (locate_ok.2 ⟨hpath, hfound⟩)
      have hfollow := Look.resolve_follow _ _ _ _ _ _ hfound (by
        rw [List.append_assoc]
        exact isLink_look_eq_false hlink)
      obtain ⟨spot, hspot, -, hget⟩ := Look.enter_ok.1 harrives
      cases hspot.symm.trans hfollow
      have hlook := hget _ _ _ rfl
      obtain ⟨spot', hspot', hplace, -⟩ := Look.enter_ok.1 harrives
      cases hspot'.symm.trans hfollow
      rw [← hplace, Spot.place, List.append_assoc] at hlook
      exact ⟨hfits, .inr ⟨look_enter.1 hlook, rfl⟩⟩
  · rintro ⟨hfits, ⟨hmissing, rfl⟩ | ⟨hdirectory, rfl⟩⟩
    · have hmade : disk.makeDirectory (folder base (dirs ++ [name])) =
          .ok (disk.set (at_ ++ (dirs ++ [name])) .directory) := by
        refine makeDirectory_ok.2 ⟨_, _, _, (hlocate _).2 ⟨hfits, rfl⟩, ?_, ?_⟩
        · rw [List.append_assoc]
          exact hmissing
        · rw [List.append_assoc]
      rw [attempt, hmade]
    · have hthere := spans_concat.2 ⟨hspans, hdirectory⟩
      exact attempt_of_arrives hfits.path (arrives_below hall h hthere hfits.names)

/-- The directory itself, then those below it. -/
theorem perform_folder_concat (hdirs : ∀ dir ∈ dirs, IsName dir) (hname : IsName name) :
    disk.perform (.createDirectories (folder base (dirs ++ [name]))) = (now, .ok ()) ↔ ∃ before : Disk,
      disk.perform (.createDirectories (folder base dirs)) = (before, .ok ()) ∧
        before.attempt (folder base (dirs ++ [name])) = (now, .ok ()) := by
  apply perform_parent
  rw [folder_eq_join (by simp) (isName_concat hdirs hname)]
  exact parent?_join base hdirs hname

/-- Whether the path of a directory can be made, as far as its text goes. -/
def FolderFits (base : Path) (dirs : List Part) : Prop :=
  ((folder base dirs).bytes = [] ∨ checkPath (folder base dirs) = .ok ()) ∧ ∀ dir ∈ dirs, dir.length ≤ maxNameBytes

theorem bytes_folder_ne_nil (hdirs : ∀ dir ∈ dirs, IsName dir) (hname : IsName name) :
    (folder base (dirs ++ [name])).bytes ≠ [] := by
  intro hempty
  have hparts := parts_of_empty hempty
  rw [folder, parts_ofParts (tidy_folder base (isName_concat hdirs hname)),
    (tidy_join base (by simp) (isName_concat hdirs hname)).trimmed] at hparts
  simp at hparts

theorem folderFits_concat (hdirs : ∀ dir ∈ dirs, IsName dir) (hname : IsName name) :
    FolderFits base (dirs ++ [name]) ↔ Fits (folder base (dirs ++ [name])) (dirs ++ [name]) := by
  constructor
  · rintro ⟨hpath, hnames⟩
    exact ⟨hpath.resolve_left (bytes_folder_ne_nil hdirs hname), hnames⟩
  · rintro ⟨hpath, hnames⟩
    exact ⟨.inr hpath, hnames⟩

theorem FolderFits.init (h : FolderFits base (dirs ++ [name])) (hdirs : ∀ dir ∈ dirs, IsName dir)
    (hname : IsName name) :
    FolderFits base dirs := by
  obtain ⟨hpath, hnames⟩ := (folderFits_concat hdirs hname).1 h
  have hparent := parent?_join base hdirs hname
  rw [← folder_eq_join (by simp) (isName_concat hdirs hname)] at hparent
  exact ⟨checkPath_parent hparent hpath, fun dir hdir => hnames dir (List.mem_append_left _ hdir)⟩

theorem Housed.set (h : disk.Housed at_ dirs now) (hmissing : now.get? (at_ ++ (dirs ++ [name])) = none) :
    disk.Housed at_ (dirs ++ [name]) (now.set (at_ ++ (dirs ++ [name])) .directory) where
  spans := by
    have hget := get?_set now (ne_nil_of_missing hmissing) .directory
    refine spans_concat.2 ⟨fun below hne hbelow => ?_, by rw [hget, if_pos rfl]⟩
    rw [hget]
    split
    · rfl
    · exact h.spans below hne hbelow
  kept n hn := by
    rw [get?_set _ (ne_nil_of_missing hmissing), if_neg (hn _ (by simp) List.prefix_rfl)]
    exact h.kept n fun below hne hbelow => hn below hne (hbelow.trans (List.prefix_append _ _))

theorem Housed.last (h : disk.Housed at_ dirs now) (name : Part) :
    now.get? (at_ ++ (dirs ++ [name])) = disk.get? (at_ ++ (dirs ++ [name])) := by
  apply h.kept
  rintro below - hbelow heq
  have hlength := hbelow.length_le
  rw [← List.append_cancel_left heq, List.length_append, List.length_singleton] at hlength
  omega

theorem Housed.concat (h : disk.Housed at_ dirs now) (hthere : now.get? (at_ ++ (dirs ++ [name])) = some .directory) :
    disk.Housed at_ (dirs ++ [name]) now where
  spans := spans_concat.2 ⟨h.spans, hthere⟩
  kept n hn := h.kept n fun below hne hbelow => hn below hne (hbelow.trans (List.prefix_append _ _))

section

variable (hroot : FolderFits base []) (h : disk.Arrives base at_)

include h

/-- What is there of a directory once those before are made: where it stands, and that no link is there. -/
theorem attempt_folder (hdirs : ∀ dir ∈ dirs, IsName dir) (hname : IsName name)
    (hlink : ∀ target, disk.get? (at_ ++ (dirs ++ [name])) ≠ some (.link target)) {before : Disk}
    (hmake : disk.perform (.createDirectories (folder base dirs)) = (before, .ok ()))
    (hhoused : disk.Housed at_ dirs before) :
    before.attempt (folder base (dirs ++ [name])) = (now, .ok ()) ↔
      Fits (folder base (dirs ++ [name])) (dirs ++ [name]) ∧
        (disk.get? (at_ ++ (dirs ++ [name])) = none ∧ now = before.set (at_ ++ (dirs ++ [name])) .directory ∨
          disk.get? (at_ ++ (dirs ++ [name])) = some .directory ∧ now = before) := by
  have hgrown : disk.Grown (folder base dirs) before := by
    have hgrown := grown_perform disk (folder base dirs)
    rwa [hmake] at hgrown
  have harrives : before.Arrives base at_ := by
    rw [Arrives, hgrown.current]
    exact Look.enter_mono hgrown.within h
  rw [← hhoused.last name] at hlink ⊢
  exact attempt_below hdirs hname harrives hhoused.spans hlink

include hroot

/-- Directories are made below one that is there exactly if each of them is missing or there; then these are
made and nothing else. -/
theorem perform_folder (hdirs : ∀ dir ∈ dirs, IsName dir)
    (hlinks : ∀ below, below ≠ [] → below <+: dirs → ∀ target, disk.get? (at_ ++ below) ≠ some (.link target)) :
    (∀ now, disk.perform (.createDirectories (folder base dirs)) = (now, .ok ()) → FolderFits base dirs ∧
      (∀ below, below ≠ [] → below <+: dirs → disk.Open (at_ ++ below)) ∧ disk.Housed at_ dirs now) ∧
    (FolderFits base dirs → (∀ below, below ≠ [] → below <+: dirs → disk.Open (at_ ++ below)) →
      ∃ now, disk.perform (.createDirectories (folder base dirs)) = (now, .ok ())) := by
  induction dirs using List.reverseRecOn with
  | nil =>
    have harrives : disk.Arrives (folder base []) at_ := by
      rw [arrives_folder hdirs, List.append_nil]
      exact h
    have hperform := perform_of_arrives hroot.1 harrives
    have hnone : ∀ below : List Part, below ≠ [] → ¬ below <+: [] :=
      fun below hne hbelow => hne (List.prefix_nil.1 hbelow)
    refine ⟨fun now hnow => ?_, fun _ _ => ⟨disk, hperform⟩⟩
    cases hperform.symm.trans hnow
    exact ⟨hroot, fun below hne hbelow => absurd hbelow (hnone below hne),
      fun below hne hbelow => absurd hbelow (hnone below hne), fun _ _ => rfl⟩
  | append_singleton dirs name ih =>
    obtain ⟨hinit, hlast⟩ := List.forall_mem_append.1 hdirs
    have hname := hlast name List.mem_cons_self
    have hinner : ∀ below, below <+: dirs → below <+: dirs ++ [name] :=
      fun _ hbelow => hbelow.trans (List.prefix_append _ _)
    obtain ⟨hmade, hmake⟩ := ih hinit fun below hne hbelow => hlinks below hne (hinner below hbelow)
    have hlink := hlinks _ (by simp) List.prefix_rfl
    constructor
    · intro now hnow
      obtain ⟨before, hbefore, hattempt⟩ := (perform_folder_concat hinit hname).1 hnow
      obtain ⟨-, hopen, hhoused⟩ := hmade before hbefore
      obtain ⟨hfits, hcases⟩ := (attempt_folder h hinit hname hlink hbefore hhoused).1 hattempt
      have hopen' : ∀ below, below ≠ [] → below <+: dirs ++ [name] → disk.Open (at_ ++ below) := by
        intro below hne hbelow
        rcases List.prefix_concat_iff.1 hbelow with rfl | hbelow
        · exact hcases.imp And.left And.left
        · exact hopen below hne hbelow
      refine ⟨(folderFits_concat hinit hname).2 hfits, hopen', ?_⟩
      rcases hcases with ⟨hmissing, rfl⟩ | ⟨hthere, rfl⟩
      · exact hhoused.set ((hhoused.last name).trans hmissing)
      · exact hhoused.concat ((hhoused.last name).trans hthere)
    · intro hfits hopen
      obtain ⟨before, hbefore⟩ := hmake (hfits.init hinit hname) fun below hne hbelow =>
        hopen below hne (hinner below hbelow)
      obtain ⟨-, -, hhoused⟩ := hmade before hbefore
      have hattempt := fun now =>
        (@attempt_folder disk now base at_ dirs name h hinit hname hlink before hbefore hhoused).2
      have hfits' := (folderFits_concat hinit hname).1 hfits
      rcases hopen _ (by simp) List.prefix_rfl with hmissing | hthere
      · exact ⟨_, (perform_folder_concat hinit hname).2 ⟨before, hbefore, hattempt _ ⟨hfits', .inl ⟨hmissing, rfl⟩⟩⟩⟩
      · exact ⟨_, (perform_folder_concat hinit hname).2 ⟨before, hbefore, hattempt _ ⟨hfits', .inr ⟨hthere, rfl⟩⟩⟩⟩

end

/-- From any disk, directories below another one are made once that one is. -/
theorem perform_folder_start (hdirs : ∀ dir ∈ dirs, IsName dir) :
    disk.perform (.createDirectories (folder base dirs)) = (now, .ok ()) ↔ ∃ ground : Disk,
      disk.perform (.createDirectories (folder base [])) = (ground, .ok ()) ∧
        ground.perform (.createDirectories (folder base dirs)) = (now, .ok ()) := by
  induction dirs using List.reverseRecOn generalizing now with
  | nil =>
    constructor
    · intro h
      obtain ⟨hpath, at_, harrives⟩ := arrives_of_perform h
      exact ⟨now, h, perform_of_arrives hpath harrives⟩
    · rintro ⟨ground, h, hagain⟩
      obtain ⟨hpath, at_, harrives⟩ := arrives_of_perform h
      rw [perform_of_arrives hpath harrives] at hagain
      cases hagain
      exact h
  | append_singleton dirs name ih =>
    obtain ⟨hinit, hlast⟩ := List.forall_mem_append.1 hdirs
    have hname := hlast name List.mem_cons_self
    rw [perform_folder_concat hinit hname]
    simp only [perform_folder_concat hinit hname, ih hinit]
    constructor
    · rintro ⟨before, ⟨ground, hground, hbefore⟩, hattempt⟩
      exact ⟨ground, hground, before, hbefore, hattempt⟩
    · rintro ⟨ground, hground, before, hbefore, hattempt⟩
      exact ⟨before, ⟨ground, hground, hbefore⟩, hattempt⟩

end Disk

end CoveragePages
