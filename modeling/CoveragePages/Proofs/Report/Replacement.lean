/-
Pages that are replaced. Whatever goes wrong on the way, the path of a page leads to what it led to before,
until the whole document comes to its place at once with the last change. The changes before that one touch
the temporary file, which has a place of its own beside the page, and directories that were missing; and
there are no changes at all if the page does not load. All this is so on a disk where no link, no device and
no other name of a file stands between the page and its temporary file (`Disk.Apart`).
-/
import CoveragePages.Proofs.Files.Faults
import CoveragePages.Proofs.Report.Builds

namespace CoveragePages

open CoveragePages.Path

/-! ## Temporary files -/

namespace Path

theorem stem_spec (name : Part) :
    stem name = name ∨ ∃ after, name = stem name ++ dot :: after ∧ dot ∉ after := by
  cases hbreak : Text.breakOnLast? dot name with
  | none => exact .inl (by rw [stem, hbreak])
  | some parts =>
    obtain ⟨before, after⟩ := parts
    have hstem : stem name = if before = [] then name else before := by rw [stem, hbreak]
    by_cases hempty : before = []
    · exact .inl (hstem.trans (if_pos hempty))
    · rw [hstem, if_neg hempty]
      exact .inr ⟨after, Text.breakOnLast?_eq_some.1 hbreak⟩

theorem stem_isPrefix (name : Part) : stem name <+: name := by
  rcases stem_spec name with hname | ⟨after, hname, -⟩
  · rw [hname]
  · exact ⟨_, hname.symm⟩

/-- An extension that has a dot itself makes another name, since only what comes after the last dot of a name
is replaced. -/
theorem stem_append_ne {name extension : Part} (h : dot ∈ extension) : stem name ++ dot :: extension ≠ name := by
  intro heq
  rcases stem_spec name with hname | ⟨after, hname, hafter⟩
  · have hlength := congrArg List.length heq
    rw [hname, List.length_append, List.length_cons] at hlength
    omega
  · obtain rfl := (List.cons.inj (List.append_cancel_left (heq.trans hname))).2
    exact hafter h

end Path

/-- The name of the temporary file of a page with a name. -/
def temporaryName (name : Part) : Part := stem name ++ dot :: nameOf "html.tmp"

theorem temporaryName_ne (name : Part) : temporaryName name ≠ name := stem_append_ne (by decide)

section

variable {out : Path} {init : List Part} {name : Part}

theorem temporaryPath_eq_withParts (h : Named out init name) :
    temporaryPath out = out.withParts (init ++ [temporaryName name]) := by
  rw [temporaryPath, withExtension, fileName?_eq_some.2 ⟨init, h⟩]
  show out.withParts (out.parts.dropLast ++ _) = _
  rw [h.parts, List.dropLast_concat]
  rfl

/-- The temporary file of a page that has a name is beside the page, under another name. -/
theorem temporaryPath_named (h : Named out init name) : Named (temporaryPath out) init (temporaryName name) ∧
    Disk.EndsIn (temporaryPath out) ((if out.isAbsolute then [[]] else []) ++ init) (temporaryName name) ∧
      ∀ directory, (temporaryPath out).startIn directory = out.startIn directory := by
  have hplain : slash ∉ temporaryName name := by
    intro hslash
    rcases List.mem_append.1 hslash with hslash | hslash
    · exact h.plain ((stem_isPrefix name).subset hslash)
    · exact absurd hslash (by decide)
  have hlength : 2 < (temporaryName name).length := by
    rw [temporaryName, List.length_append]
    exact Nat.lt_add_left _ (by decide)
  have henters : Enters (temporaryName name) := by
    refine ⟨fun hempty => ?_, fun hhere => ?_, fun hup => ?_⟩
    · rw [hempty] at hlength
      exact absurd hlength (by decide)
    · rw [hhere] at hlength
      exact absurd hlength (by decide)
    · rw [hup] at hlength
      exact absurd hlength (by decide)
  obtain ⟨hnamed, hpieces, hroot⟩ := h.withName hplain henters
  rw [temporaryPath_eq_withParts h]
  exact ⟨hnamed, ⟨hpieces, henters⟩, fun directory => by rw [startIn, startIn, hroot]⟩

end

namespace Disk

variable {disk now later : Disk} {out : Path}

/-! ## Where pages and temporary files are -/

/-- A disk where a page and its temporary file are files of their own. -/
structure Apart (disk : Disk) (out : Path) : Prop where
  /-- The temporary file is no link and no device, and has no other name. -/
  plain : ∀ t, disk.place? (temporaryPath out) = some t → disk.Plain t
  /-- The path of the page does not lead to the temporary file. -/
  goal : ∀ t, disk.place? (temporaryPath out) = some t → disk.goal? out ≠ some t
  /-- There is no link at the place of the page that the path of the page goes through to get there. -/
  way : ∀ parent o, out.parent? = some parent → disk.place? out = some o →
    disk.leads? (· == o) parent = disk.leads? (fun _ => false) parent

section

variable {init : List Part} {name : Part}

theorem enter_root (look : Look) (root : Bool) (start : Location) (init : List Part) :
    look.enter maxLinks start ((if root then [[]] else []) ++ init) = look.enter maxLinks start init := by
  rw [Look.enter, List.append_assoc]
  exact Look.resolve_root root (filled_here.append init)

/-- The temporary file of a page has its place in the directory that the page is in. -/
theorem place?_temporary (h : Named out init name) {t : Location} : disk.place? (temporaryPath out) = some t ↔ ∃ at_,
    disk.guess.enter maxLinks (out.startIn disk.current) init = .ok (.directory at_) ∧
      t = at_ ++ [temporaryName name] := by
  obtain ⟨hnamed, -, hstart⟩ := temporaryPath_named h
  rw [place?_named hnamed, hstart]

theorem place?_temporary_ne_nil (h : Named out init name) {t : Location}
    (ht : disk.place? (temporaryPath out) = some t) : t ≠ [] := by
  obtain ⟨at_, -, rfl⟩ := (place?_temporary h).1 ht
  simp

/-- A page and its temporary file have different places. -/
theorem place?_temporary_ne (h : Named out init name) {v : Location} (ht : disk.place? (temporaryPath out) = some v) :
    disk.place? out ≠ some v := by
  intro ho
  obtain ⟨at_, -, rfl⟩ := (place?_temporary h).1 ht
  obtain ⟨at', -, heq⟩ := (place?_named h).1 ho
  exact temporaryName_ne name (List.cons.inj (List.append_inj' heq rfl).2).1

/-- The path of a temporary file leads to its name, if no link is there that is to be followed. -/
theorem locate_temporary (h : Named out init name) {follow : Bool} {spot : Spot}
    (hlink : follow = true → ∀ at_, now.look.enter maxLinks (out.startIn now.current) init = .ok (.directory at_) →
      ∀ target, now.get? (at_ ++ [temporaryName name]) ≠ some (.link target)) :
    now.locate follow (temporaryPath out) = .ok spot ↔ checkPath (temporaryPath out) = .ok () ∧
      (temporaryName name).length ≤ maxNameBytes ∧ ∃ at_,
        now.look.enter maxLinks (out.startIn now.current) init = .ok (.directory at_) ∧
          spot = .name at_ (temporaryName name) false := by
  obtain ⟨-, hends, hstart⟩ := temporaryPath_named h
  rw [hends.locate, hstart, enter_root]
  simpa only [hstart, enter_root] using hlink

end

/-! ## Moments of a page -/

/-- Under some names there is what there was, or a directory that was made on the way where nothing was. The
place of a page may be on its own way, as that of `x/../x` is; then no document can come to it. -/
def Keeps (disk : Disk) (out : Path) (now : Disk) (v : Location) : Prop :=
  now.get? v = disk.get? v ∨
    (∃ parent, out.parent? = some parent ∧ disk.Above parent v) ∧ disk.get? v = none ∧ now.get? v = some .directory

/-- A moment before the document has come: nothing is changed but the temporary file and directories on the
way. -/
structure Drafted (disk : Disk) (out : Path) (now : Disk) : Prop where
  current : now.current = disk.current
  closed : now.closed = disk.closed
  twins : now.twins = disk.twins
  keeps : ∀ v, disk.place? (temporaryPath out) ≠ some v → disk.Keeps out now v
  draft : ∀ t, disk.place? (temporaryPath out) = some t →
    disk.Keeps out now t ∨ disk.get? t ≠ some .directory ∧ ∃ content, now.get? t = some (.file content)

/-- What is read at the path of a page is what there was where the path leads to. -/
structure Shows (disk : Disk) (out : Path) (now : Disk) : Prop where
  stays : ∀ content, disk.readFile out = .ok content → now.readFile out = .ok content
  only : ∀ content, now.readFile out = .ok content →
    ∃ goal, disk.goal? out = some goal ∧ disk.content? goal = some content

/-- A moment when the document has come: it is in its place and read at its path, and the temporary file is
gone. -/
structure Published (disk : Disk) (out : Path) (document : ByteArray) (now : Disk) : Prop where
  current : now.current = disk.current
  closed : now.closed = disk.closed
  page : now.readFile out = .ok document
  gone : now.find (temporaryPath out) = .error .notFound
  places : ∃ o t, disk.place? out = some o ∧ disk.place? (temporaryPath out) = some t ∧
    now.get? o = some (.file document) ∧ now.get? t = none
  keeps : ∀ v, disk.place? (temporaryPath out) ≠ some v → disk.place? out ≠ some v → disk.Keeps out now v
  linked : ∀ v v', now.Linked v v' ↔ disk.Linked v v' ∧ disk.place? out ≠ some v ∧ disk.place? out ≠ some v'

/-! ## What there is before the document has come -/

theorem Drafted.of_grown {parent : Path} (hparent : out.parent? = some parent) (h : disk.Grown parent now) :
    disk.Drafted out now := by
  have hkeeps : ∀ v, disk.Keeps out now v := fun v => (h.entries v).imp_right fun ⟨habove, hbefore, hnow⟩ =>
    ⟨⟨parent, hparent, habove⟩, hbefore, hnow⟩
  exact ⟨h.current, h.closed, h.twins, fun v _ => hkeeps v, fun t _ => .inl (hkeeps t)⟩

/-- Each name has what it had, or a directory that was made, or it is that of the temporary file. -/
theorem Drafted.cases (h : disk.Drafted out now) (v : Location) : now.get? v = disk.get? v ∨
    (disk.get? v = none ∧ now.get? v = some .directory) ∨ disk.place? (temporaryPath out) = some v ∧
      disk.get? v ≠ some .directory ∧ ∃ content, now.get? v = some (.file content) := by
  have hkeeps : disk.Keeps out now v → now.get? v = disk.get? v ∨ disk.get? v = none ∧ now.get? v = some .directory :=
    fun hkeeps => hkeeps.imp_right And.right
  by_cases ht : disk.place? (temporaryPath out) = some v
  · rcases h.draft v ht with hkept | hfile
    · exact (hkeeps hkept).imp_right .inl
    · exact .inr (.inr ⟨ht, hfile⟩)
  · exact (hkeeps (h.keeps v ht)).imp_right .inl

theorem Drafted.directory (h : disk.Drafted out now) {v : Location} (hv : disk.get? v = some .directory) :
    now.get? v = some .directory := by
  rcases h.cases v with hsame | ⟨hmissing, -⟩ | ⟨-, hfree, -⟩
  · rw [hsame, hv]
  · cases hv.symm.trans hmissing
  · exact absurd hv hfree

theorem Drafted.link (h : disk.Drafted out now) (hapart : disk.Apart out) {v : Location} {target : Path} :
    now.get? v = some (.link target) ↔ disk.get? v = some (.link target) := by
  rcases h.cases v with hsame | ⟨hmissing, hmade⟩ | ⟨ht, -, content, hfile⟩
  · rw [hsame]
  · rw [hmissing, hmade]
    exact ⟨nofun, nofun⟩
  · rw [hfile]
    exact ⟨nofun, fun hv => absurd hv ((hapart.plain v ht).no_link target)⟩

theorem Drafted.within_guess (h : disk.Drafted out now) (hapart : disk.Apart out) : now.look.Within disk.guess := by
  refine look_within_guess (fun v target hdirectory hlink => ?_) fun v target hlink => (h.link hapart).1 hlink
  cases hdirectory.symm.trans ((h.link hapart).2 hlink)

theorem Drafted.isLink (h : disk.Drafted out now) (hapart : disk.Apart out) (v : Location) :
    disk.guess.isLink v = now.look.isLink v := by
  rw [Bool.eq_iff_iff, isLink_guess, isLink_look]
  simp only [h.link hapart]

theorem Drafted.refl (disk : Disk) (out : Path) : disk.Drafted out disk :=
  ⟨rfl, rfl, rfl, fun _ _ => .inl rfl, fun _ _ => .inl (.inl rfl)⟩

theorem Drafted.goal (h : disk.Drafted out now) (hapart : disk.Apart out) {above : Location} {last : Part}
    {slash : Bool} (hlocate : now.locate true out = .ok (.name above last slash)) :
    disk.goal? out = some (above ++ [last]) :=
  goal?_of_locate h.current (h.within_guess hapart) (h.isLink hapart) hlocate

/-- Until the document has come, the path of a page shows what it showed. -/
theorem Drafted.shows (h : disk.Drafted out now) (hapart : disk.Apart out) : disk.Shows out now := by
  have hcontent : ∀ goal, disk.goal? out = some goal → now.content? goal = disk.content? goal := by
    intro goal hgoal
    rcases h.keeps goal fun ht => hapart.goal goal ht hgoal with hsame | ⟨-, hbefore, hnow⟩
    · rw [Disk.content?, Disk.content?, hsame]
    · rw [Disk.content?, Disk.content?, hbefore, hnow]
  constructor
  · intro content hread
    obtain ⟨above, last, hlocate, hfound⟩ := locate_of_readFile hread
    have hgoal := (Drafted.refl disk out).goal hapart hlocate
    refine readFile_of_locate ?_ ((hcontent _ hgoal).trans hfound)
    exact locate_mono h.current (fun _ => h.directory) (fun _ _ => h.link hapart) hlocate
  · intro content hread
    obtain ⟨above, last, hlocate, hfound⟩ := locate_of_readFile hread
    have hgoal := h.goal hapart hlocate
    exact ⟨_, hgoal, (hcontent _ hgoal).symm.trans hfound⟩

/-! ## Changes that may fail -/

section

variable {init : List Part} {name : Part} {parent : Path} {moments : List Disk} {answer : Except FileError Unit}
  {content : ByteArray}

theorem after_induction {P : Disk → Prop} (h : P disk) (hall : ∀ now ∈ moments, P now) : P (disk.after moments) := by
  rcases after_mem disk moments with hsame | hmem
  · rw [hsame]
    exact h
  · exact hall _ hmem

theorem grown_of_tried (htried : (FileStep.createDirectories parent).Tried disk moments answer) :
    ∀ now ∈ moments, disk.Grown parent now :=
  grown_of_chain htried.way

/-- Once the directories are made, the temporary file is written at its place, and nothing else is changed. -/
theorem write_temporary (h : Named out init name) (hapart : disk.Apart out) (hgrown : disk.Grown parent now)
    (hwrite : now.write (temporaryPath out) content = .ok later) : ∃ t, disk.place? (temporaryPath out) = some t ∧
      disk.get? t ≠ some .directory ∧ later = now.set t (.file content) := by
  have hlink : ∀ at_, now.look.enter maxLinks (out.startIn now.current) init = .ok (.directory at_) →
      disk.place? (temporaryPath out) = some (at_ ++ [temporaryName name]) := by
    intro at_ hat
    rw [hgrown.current] at hat
    exact (place?_temporary h).2 ⟨at_, Look.enter_mono hgrown.within_guess hat, rfl⟩
  obtain ⟨above, last, slash, hfound⟩ := locate_of_write hwrite
  obtain ⟨-, -, at_, hat, hspot⟩ := (locate_temporary h fun _ at_ hat target hlinked =>
    (hapart.plain _ (hlink at_ hat)).no_link target (hgrown.link.1 hlinked)).1 hfound
  cases hspot
  have ht := hlink above hat
  have hplain := hapart.plain _ ht
  have hplain' : now.Plain (above ++ [temporaryName name]) := by
    refine ⟨?_, fun target hlinked => hplain.no_link target (hgrown.link.1 hlinked), fun hdevice => ?_⟩
    · rw [Sole, hgrown.twins]
      exact hplain.sole
    · exact hplain.no_device (hgrown.entry hdevice nofun)
  obtain ⟨hfree, rfl⟩ := (write_ok hfound hplain').1 hwrite
  exact ⟨_, ht, fun hdirectory => hfree (hgrown.directory hdirectory), rfl⟩

theorem Drafted.of_write (h : Named out init name) (hparent : out.parent? = some parent)
    (hgrown : disk.Grown parent now)
    {t : Location} (ht : disk.place? (temporaryPath out) = some t) (hfree : disk.get? t ≠ some .directory) :
    disk.Drafted out (now.set t (.file content)) := by
  have hdrafted := Drafted.of_grown hparent hgrown
  have hget := get?_set now (place?_temporary_ne_nil h ht) (.file content)
  refine ⟨hdrafted.current, hdrafted.closed, hdrafted.twins, fun v hv => ?_, fun v hv => ?_⟩
  · have hother : v ≠ t := by
      rintro rfl
      exact hv ht
    rw [Keeps, hget, if_neg hother]
    exact hdrafted.keeps v hv
  · obtain rfl := Option.some.inj (ht.symm.trans hv)
    exact .inr ⟨hfree, content, by rw [hget, if_pos rfl]⟩

theorem drafted_write (h : Named out init name) (hapart : disk.Apart out) (hparent : out.parent? = some parent)
    (hgrown : disk.Grown parent now)
    (htried : (FileStep.write (temporaryPath out) content).Tried now moments answer) :
    ∀ later ∈ moments, disk.Drafted out later := by
  intro later hlater
  obtain ⟨n, hwrite⟩ := htried.way later hlater
  obtain ⟨t, ht, hfree, rfl⟩ := write_temporary h hapart hgrown hwrite
  exact .of_write h hparent hgrown ht hfree

/-- The way to a page does not go by the place of the page, so it is as it was once the document is there. -/
theorem enter_renamed (h : Named out init name) (hapart : disk.Apart out) (hparent : out.parent? = some parent)
    (hdrafted : disk.Drafted out now) {above o : Location} (ho : disk.place? out = some o)
    (hat : now.look.enter maxLinks (out.startIn disk.current) init = .ok (.directory above))
    (hdirectory : ∀ v, now.get? v = some .directory → later.get? v = some .directory)
    (hlink : ∀ v target, v ≠ o → now.get? v = some (.link target) → later.get? v = some (.link target)) :
    later.look.enter maxLinks (out.startIn disk.current) init = .ok (.directory above) := by
  have hwithin := hdrafted.within_guess hapart
  have hleads : disk.leads? (fun _ => false) parent = some above := by
    rw [leads?_parent h hparent, Look.past_none]
    exact Look.enter_mono hwithin hat
  have havoid := hapart.way parent o hparent ho
  rw [hleads, leads?_parent h hparent] at havoid
  have hpast := Look.enter_past hwithin hat havoid
  refine Look.enter_mono (Look.past_within _ (· == o)) (Look.enter_mono (past_within_of hdirectory ?_) hpast)
  exact fun v target hv => hlink v target (by simpa using hv)

/-- A temporary file that is renamed to the path of a page gets the name of the page, in the same directory. -/
theorem rename_temporary (h : Named out init name) (hapart : disk.Apart out) (hdrafted : disk.Drafted out now)
    {t : Location} (ht : disk.place? (temporaryPath out) = some t) (hcontent : now.get? t = some (.file content))
    (hrename : now.rename (temporaryPath out) out = .ok later) :
    ∃ above, t = above ++ [temporaryName name] ∧ disk.place? out = some (above ++ [name]) ∧
      now.locate false (temporaryPath out) = .ok (.name above (temporaryName name) false) ∧
        now.locate false out = .ok (.name above name false) ∧ now.get? (above ++ [name]) ≠ some .directory ∧
          later = now.move (above ++ [temporaryName name]) (above ++ [name]) (.file content) := by
  have hwithin := hdrafted.within_guess hapart
  obtain ⟨above, last, slash, hsource⟩ := locate_of_rename hrename
  obtain ⟨-, -, at_, hat, hspot⟩ := (locate_temporary h fun hfollow => by cases hfollow).1 hsource
  obtain ⟨rfl, rfl, rfl⟩ := Spot.name.inj hspot
  have hstart := hat
  rw [hdrafted.current] at hstart
  obtain rfl := Option.some.inj (ht.symm.trans ((place?_temporary h).2 ⟨above, Look.enter_mono hwithin hstart, rfl⟩))
  obtain ⟨above', last, htarget, hfree, hmove⟩ := (rename_ok hsource hcontent).1 hrename
  obtain ⟨rfl, hsame, -, -⟩ := locate_named h htarget
  obtain rfl : above' = above := by
    cases hat.symm.trans hsame
    rfl
  exact ⟨above', rfl, place?_of_locate hdrafted.current hwithin htarget, hsource, htarget, hfree, hmove⟩

/-- A path that leads to a name leads there again where its directories are entered again. -/
theorem locate_again {p : Path} (h : Named p init name) {above : Location}
    (hlocate : now.locate false p = .ok (.name above name false))
    (henter : later.look.enter maxLinks (p.startIn later.current) init = .ok (.directory above))
    (hlink : ∀ target, later.get? (above ++ [name]) ≠ some (.link target)) :
    later.locate true p = .ok (.name above name false) := by
  obtain ⟨-, -, hname, hends⟩ := locate_named h hlocate
  refine ((hends rfl).locate fun _ at_ hat target hlinked => ?_).2
    ⟨(locate_ok.1 hlocate).1, hname, above, by rw [enter_root, henter], rfl⟩
  rw [enter_root] at hat
  cases hat.symm.trans henter
  exact hlink target hlinked

/-- A document that is renamed from the temporary file is published. -/
theorem published_rename (h : Named out init name) (hapart : disk.Apart out) (hparent : out.parent? = some parent)
    (hdrafted : disk.Drafted out now) {t : Location} (ht : disk.place? (temporaryPath out) = some t)
    (hcontent : now.get? t = some (.file content)) (hrename : now.rename (temporaryPath out) out = .ok later) :
    disk.Published out content later := by
  obtain ⟨above, rfl, ho, hsource, htarget, hfree, hmove⟩ := rename_temporary h hapart hdrafted ht hcontent hrename
  have hne : above ++ [name] ≠ above ++ [temporaryName name] := fun heq => place?_temporary_ne h ht (heq ▸ ho)
  have hsole : now.Sole (above ++ [temporaryName name]) := by
    rw [Sole, hdrafted.twins]
    exact (hapart.plain _ ht).sole
  have hget := get?_move (.file content) hsole (by simp) (by simp) hne
  have hlinked := fun v v' => @linked_move now _ _ (.file content) hsole hne v v'
  obtain ⟨hcurrent, hclosed⟩ := move_kept now (above ++ [temporaryName name]) (above ++ [name]) (.file content)
  rw [← hmove] at hget hlinked hcurrent hclosed
  have hcurrent := hcurrent.trans hdrafted.current
  have hpage : later.get? (above ++ [name]) = some (.file content) := by rw [hget, if_pos rfl]
  have hgone : later.get? (above ++ [temporaryName name]) = none := by rw [hget, if_neg hne.symm, if_pos rfl]
  have hothers : ∀ v, v ≠ above ++ [name] → v ≠ above ++ [temporaryName name] → later.get? v = now.get? v :=
    fun v hpage hdraft => by rw [hget, if_neg hpage, if_neg hdraft]
  have henter : later.look.enter maxLinks (out.startIn later.current) init = .ok (.directory above) := by
    obtain ⟨-, hat, -, -⟩ := locate_named h htarget
    rw [hdrafted.current] at hat
    rw [hcurrent]
    refine enter_renamed h hapart hparent hdrafted ho hat (fun v hv => ?_) fun v target hv hlink => ?_
    · rw [hothers v (fun heq => hfree (heq ▸ hv)) fun heq => (by cases (heq ▸ hv).symm.trans hcontent), hv]
    · rw [hothers v hv fun heq => (by cases (heq ▸ hlink).symm.trans hcontent), hlink]
  refine ⟨hcurrent, hclosed.trans hdrafted.closed, ?page, ?gone, ⟨_, _, ho, ht, hpage, hgone⟩,
    fun v hdraft hplace => ?_, fun v v' => ?_⟩
  case page =>
    have hlocate := locate_again h htarget henter fun target hlink => by cases hlink.symm.trans hpage
    exact readFile_of_locate hlocate (by rw [Disk.content?, hpage])
  case gone =>
    obtain ⟨hnamed, -, hstart⟩ := temporaryPath_named h
    have hlocate := locate_again hnamed hsource (by rw [hstart, henter]) fun target hlink => by
      cases hlink.symm.trans hgone
    rw [find_of_locate hlocate, hgone]
  · rw [Keeps, hothers v (fun heq => hplace (heq ▸ ho)) fun heq => hdraft (heq ▸ ht)]
    exact hdrafted.keeps v hdraft
  · rw [hlinked, ho, Linked, hdrafted.twins, Linked]
    simp only [ne_eq, Option.some.injEq, eq_comm]

end

end Disk

/-! ## Publishing that may fail -/

section

variable {disk : Disk} {out : Path} {init : List Part} {name : Part} {document : String} {report : ApplyReport}
  {moments : List Disk} {result : Except Failure ApplyReport}

/-- Publishing stops at the first change that fails. -/
theorem tried_publishing_cons {step : FileStep} {rest : List FileStep} :
    (publishing report (step :: rest)).Tried disk moments result ↔
      (∃ e, step.Tried disk moments (.error e) ∧
        result = .error ((Failure.of (.file e)).within step.context)) ∨
      ∃ here later, moments = here ++ later ∧ step.Tried disk here (.ok ()) ∧
        (publishing report rest).Tried (disk.after here) later result := by
  constructor
  · rintro ⟨here, later, answer, rfl, htried, hlater⟩
    cases answer with
    | error e =>
      obtain ⟨rfl, rfl⟩ := hlater
      rw [List.append_nil]
      exact .inl ⟨e, htried, rfl⟩
    | ok _ => exact .inr ⟨here, later, rfl, htried, hlater⟩
  · rintro (⟨e, htried, rfl⟩ | ⟨here, later, rfl, htried, hlater⟩)
    · exact ⟨moments, [], .error e, (List.append_nil _).symm, htried, rfl, rfl⟩
    · exact ⟨here, later, .ok (), rfl, htried, hlater⟩

/-- A document that is published comes to its place with the last change, or not at all. -/
theorem tried_publishing (h : Named out init name) (hapart : disk.Apart out)
    (htried : (publishing report (publishSteps out document)).Tried disk moments result) :
    (∃ f, result = .error f) ∧ (∀ now ∈ moments, disk.Drafted out now) ∨
      result = .ok report ∧ disk.Published out document.toUTF8 (disk.after moments) ∧
        ∀ now ∈ moments, disk.Drafted out now ∨ disk.Published out document.toUTF8 now := by
  obtain ⟨parent, hparent⟩ := h.exists_parent
  rw [publishSteps, hparent] at htried
  -- the directories
  obtain ⟨e, hstep, hfailed⟩ | ⟨made, later, rfl, hmade, htried⟩ := tried_publishing_cons.1 htried
  · exact .inl ⟨⟨_, hfailed⟩, fun now hnow => .of_grown hparent (Disk.grown_of_tried hstep now hnow)⟩
  have hhoused : ∀ now ∈ made, disk.Drafted out now := fun now hnow =>
    .of_grown hparent (Disk.grown_of_tried hmade now hnow)
  have hgrown : disk.Grown parent (disk.after made) :=
    Disk.after_induction (Disk.Grown.refl disk parent) (Disk.grown_of_tried hmade)
  -- the temporary file
  obtain ⟨e, hstep, hfailed⟩ | ⟨written, last, rfl, hwritten, htried⟩ := tried_publishing_cons.1 htried
  · refine .inl ⟨⟨_, hfailed⟩, ?_⟩
    exact List.forall_mem_append.2 ⟨hhoused, Disk.drafted_write h hapart hparent hgrown hstep⟩
  have hdrafted := Disk.drafted_write h hapart hparent hgrown hwritten
  obtain ⟨t, ht, hfree, hafter⟩ := Disk.write_temporary h hapart hgrown hwritten.write_ok
  have hdrafted' : disk.Drafted out ((disk.after made).after written) := hafter ▸ .of_write h hparent hgrown ht hfree
  have hcontent : ((disk.after made).after written).get? t = some (.file document.toUTF8) := by
    rw [hafter, Disk.get?_set _ (Disk.place?_temporary_ne_nil h ht), if_pos rfl]
  -- the page
  obtain ⟨e, hstep, hfailed⟩ | ⟨renamed, rest, rfl, hrenamed, rfl, hresult⟩ := tried_publishing_cons.1 htried
  · obtain rfl : last = [] := hstep.undone _ _ rfl e rfl
    refine .inl ⟨⟨_, hfailed⟩, ?_⟩
    simp only [List.forall_mem_append]
    exact ⟨hhoused, hdrafted, List.forall_mem_nil _⟩
  · have hpublished : ∀ later, ((disk.after made).after written).rename (temporaryPath out) out = .ok later →
        disk.Published out document.toUTF8 later := fun later =>
      Disk.published_rename h hapart hparent hdrafted' ht hcontent
    refine .inr ⟨hresult, ?_, ?_⟩
    · rw [List.append_nil, Disk.after_append, Disk.after_append]
      exact hpublished _ hrenamed.rename_ok
    · simp only [List.forall_mem_append]
      exact ⟨fun now hnow => .inl (hhoused now hnow), fun now hnow => .inl (hdrafted now hnow),
        fun now hnow => .inr (hpublished now (hrenamed.way now hnow).2), List.forall_mem_nil _⟩

/-- A file that is not read gives no document. -/
theorem documentIn_of_error (kind : PageKind) (data : Path) (settings : ResolvedSettings) (e : FileError) :
    ∃ f, documentIn kind data settings (.error e) = .error f := by
  cases kind <;> exact ⟨_, rfl⟩

/-- A page that is tried either does not load, and then nothing is changed, or is published. -/
theorem tried_pageProcess {data : Path} {kind : PageKind} {settings : ResolvedSettings} :
    (pageProcess data kind out settings).Tried disk moments result ↔
      (∃ content f, (content = disk.readFile data ∨ ∃ e, content = .error e) ∧
        documentIn kind data settings content = .error f ∧ result = .error f ∧ moments = []) ∨
      ∃ document report, documentIn kind data settings (disk.readFile data) = .ok (document, report) ∧
        (publishing report (publishSteps out document)).Tried disk moments result := by
  have hread : (pageProcess data kind out settings).Tried disk moments result ↔
      ∃ content : Except FileError ByteArray, (content = disk.readFile data ∨ ∃ e, content = .error e) ∧
        (published out (documentIn kind data settings content)).Tried disk moments result := by
    rw [pageProcess_eq]
    constructor
    · rintro ⟨here, later, content, rfl, ⟨rfl, hcontent⟩, hlater⟩
      exact ⟨content, hcontent, hlater⟩
    · rintro ⟨content, hcontent, hlater⟩
      exact ⟨[], moments, content, rfl, ⟨rfl, hcontent⟩, hlater⟩
  rw [hread]
  constructor
  · rintro ⟨content, hcontent, hlater⟩
    cases hdocument : documentIn kind data settings content with
    | error f =>
      rw [hdocument] at hlater
      obtain ⟨rfl, rfl⟩ := hlater
      exact .inl ⟨content, f, hcontent, hdocument, rfl, rfl⟩
    | ok loaded =>
      rw [hdocument] at hlater
      rcases hcontent with rfl | ⟨e, rfl⟩
      · exact .inr ⟨loaded.1, loaded.2, hdocument, hlater⟩
      · obtain ⟨f, hfailed⟩ := documentIn_of_error kind data settings e
        cases hfailed.symm.trans hdocument
  · rintro (⟨content, f, hcontent, hdocument, rfl, rfl⟩ | ⟨document, report, hdocument, htried⟩)
    · exact ⟨content, hcontent, by rw [hdocument]; exact ⟨rfl, rfl⟩⟩
    · exact ⟨_, .inl rfl, by rw [hdocument]; exact htried⟩

end

/-- Pages are replaced all or nothing, whatever fails on the way and wherever. The temporary file has another
path and another place than the page; what the program does on the disk when nothing goes wrong is one of
the trials that the rest is about. If the data file is not read or the page does not load, nothing is
changed. Else, at every moment, the path of the page shows what it showed before or the whole document, and
nothing but the place of the page, the temporary file and missing directories on the way is changed. If
publishing fails, the place of the page has what it had before; if it goes well, the document is in this
place and is read at the path of the page, and the temporary file is gone. -/
theorem pages_replaced_whole (data : Path) (kind : PageKind) (settings : ResolvedSettings) {out : Path} {name : Part}
    (hname : out.fileName? = some name) {disk : Disk} (hapart : disk.Apart out) :
    (temporaryPath out ≠ out ∧ ∀ v, disk.place? (temporaryPath out) = some v → disk.place? out ≠ some v) ∧
    (∃ moments, (pageProcess data kind out settings).Tried disk moments
        ((renderPage data kind out settings : Task (StateM Disk) ApplyReport).run disk).1 ∧
      disk.after moments = ((renderPage data kind out settings : Task (StateM Disk) ApplyReport).run disk).2) ∧
    ∀ moments result, (pageProcess data kind out settings).Tried disk moments result →
      (∃ content f, (content = disk.readFile data ∨ ∃ e, content = .error e) ∧
        documentIn kind data settings content = .error f ∧ result = .error f ∧ moments = []) ∨
      ∃ document report, documentIn kind data settings (disk.readFile data) = .ok (document, report) ∧
        (∀ now ∈ moments, (disk.Drafted out now ∧ disk.Shows out now) ∨ disk.Published out document.toUTF8 now) ∧
        ((∃ f, result = .error f) ∧ (∀ now ∈ moments, disk.Drafted out now ∧ disk.Shows out now) ∨
          result = .ok report ∧ disk.Published out document.toUTF8 (disk.after moments)) := by
  obtain ⟨init, h⟩ := fileName?_eq_some.1 hname
  refine ⟨⟨fun heq => ?_, fun v ht => Disk.place?_temporary_ne h ht⟩, ?_, fun moments result htried => ?_⟩
  · have hparts := (temporaryPath_named h).1.parts
    rw [heq, h.parts] at hparts
    exact temporaryName_ne name (List.cons.inj (List.append_inj' hparts rfl).2).1.symm
  · rw [← onDisk_pageProcess]
    exact Process.tried_onDisk _ disk
  refine (tried_pageProcess.1 htried).imp_right ?_
  rintro ⟨document, report, hdocument, htried⟩
  have hshows : ∀ now, disk.Drafted out now → disk.Drafted out now ∧ disk.Shows out now :=
    fun now hdrafted => ⟨hdrafted, hdrafted.shows hapart⟩
  refine ⟨document, report, hdocument, ?_⟩
  rcases tried_publishing h hapart htried with ⟨hfailed, hdrafted⟩ | ⟨hresult, hpublished, hmoments⟩
  · exact ⟨fun now hnow => .inl (hshows now (hdrafted now hnow)),
      .inl ⟨hfailed, fun now hnow => hshows now (hdrafted now hnow)⟩⟩
  · exact ⟨fun now hnow => (hmoments now hnow).imp_left (hshows now), .inr ⟨hresult, hpublished⟩⟩

/-! ## Trials on small disks -/

section

variable {disk : Disk} {out parent : Path} {data : Path} {kind : PageKind} {settings : ResolvedSettings}
  {document : String} {report : ApplyReport} {made : List Disk}

/-- Directories that are there are not made. -/
theorem tried_of_arrives {at_ : Location} (hpath : Disk.checkPath parent = .ok ()) (h : disk.Arrives parent at_) :
    (FileStep.createDirectories parent).Tried disk [] (.ok ()) :=
  ⟨.singleton disk, fun _ => Disk.perform_of_arrives (.inr hpath) h, nofun⟩

variable (hdocument : documentIn kind data settings (disk.readFile data) = .ok (document, report))
  (hparent : out.parent? = some parent) (hmade : (FileStep.createDirectories parent).Tried disk made (.ok ()))

include hdocument hparent hmade

/-- A page whose temporary file is cut off. -/
theorem tried_half {now : Disk} (n : Nat)
    (hwrite : (disk.after made).write (temporaryPath out) (document.toUTF8.extract 0 n) = .ok now) :
    ∃ f, (pageProcess data kind out settings).Tried disk (made ++ [now]) (.error f) := by
  have htried : (FileStep.write (temporaryPath out) document.toUTF8).Tried (disk.after made) [now]
      (.error (.other "No space left on device (os error 28)")) :=
    ⟨List.forall_mem_singleton.2 ⟨n, hwrite⟩, nofun, nofun⟩
  suffices h : ∃ f, (publishing report (publishSteps out document)).Tried disk (made ++ [now]) (.error f) by
    obtain ⟨f, h⟩ := h
    exact ⟨f, tried_pageProcess.2 (.inr ⟨document, report, hdocument, h⟩)⟩
  rw [publishSteps, hparent]
  exact ⟨_, tried_publishing_cons.2 (.inr ⟨made, [now], rfl, hmade, tried_publishing_cons.2 (.inl ⟨_, htried, rfl⟩)⟩)⟩

/-- A page that is published. -/
theorem tried_whole {drafted now : Disk}
    (hwrite : (disk.after made).write (temporaryPath out) document.toUTF8 = .ok drafted)
    (hrename : drafted.rename (temporaryPath out) out = .ok now) :
    (pageProcess data kind out settings).Tried disk (made ++ [drafted, now]) (.ok report) := by
  have hwritten : (FileStep.write (temporaryPath out) document.toUTF8).Tried (disk.after made) [drafted] (.ok ()) := by
    refine ⟨List.forall_mem_singleton.2 ⟨document.toUTF8.size, ?_⟩, fun _ => Disk.perform_write.2 hwrite, nofun⟩
    rw [ByteArray.extract_zero_size, hwrite]
  have hrenamed : (FileStep.rename (temporaryPath out) out).Tried drafted [now] (.ok ()) :=
    ⟨List.forall_mem_singleton.2 ⟨rfl, hrename⟩, fun _ => Disk.perform_rename.2 hrename, nofun⟩
  refine tried_pageProcess.2 (.inr ⟨document, report, hdocument, ?_⟩)
  rw [publishSteps, hparent]
  exact tried_publishing_cons.2 (.inr ⟨made, [drafted, now], rfl, hmade, tried_publishing_cons.2 (.inr
    ⟨[drafted], [now], rfl, hwritten, tried_publishing_cons.2 (.inr ⟨[now], [], rfl, hrenamed, rfl, rfl⟩)⟩)⟩)

end

/-- A data file that loads. -/
def sampleData : Path := .ofText "/d/index.json"

theorem sampleData_document : ∃ document report, documentIn .index sampleData sampleBuild.settings
    (.ok bareText.toUTF8) = .ok (document, report) := by
  obtain ⟨document, report, hloads⟩ := Build.document_of_loads sampleBuild_loads.1
  have hread : sampleBuild.disk.readFile (sampleBuild.data [nameOf "index.json"]) = .ok bareText.toUTF8 := by
    decide
  have hkind : PageKind.ofDataFile [nameOf "index.json"] = .index := by decide
  have hdata : sampleBuild.data [nameOf "index.json"] = sampleData := by decide
  have hdocument : documentIn (.ofDataFile [nameOf "index.json"]) (sampleBuild.data [nameOf "index.json"])
      sampleBuild.settings (sampleBuild.disk.readFile (sampleBuild.data [nameOf "index.json"])) =
        .ok (document, report) := by
    rw [← hloads, Build.document_eq]
  rw [hread, hkind, hdata] at hdocument
  exact ⟨document, report, hdocument⟩

theorem dataDisk_apart : (dataDisk []).Apart samplePage := by
  have ht : (dataDisk []).place? (temporaryPath samplePage) = some [nameOf "o", nameOf "index.html.tmp"] := by
    decide
  have ho : (dataDisk []).place? samplePage = some [nameOf "o", nameOf "index.html"] := by decide
  have hmissing : (dataDisk []).get? [nameOf "o", nameOf "index.html.tmp"] = none := by decide
  have hgoal : (dataDisk []).goal? samplePage ≠ some [nameOf "o", nameOf "index.html.tmp"] := by decide
  refine ⟨fun t ht' => ?_, fun t ht' => ?_, fun parent o hparent ho' => ?_⟩
  · obtain rfl := Option.some.inj (ht.symm.trans ht')
    refine ⟨fun names hnames => absurd hnames List.not_mem_nil, fun target => ?_, ?_⟩
    · rw [hmissing]
      exact nofun
    · rw [hmissing]
      exact nofun
  · obtain rfl := Option.some.inj (ht.symm.trans ht')
    exact hgoal
  · obtain rfl := Option.some.inj (ho.symm.trans ho')
    obtain rfl := Option.some.inj (samplePage_parent.symm.trans hparent)
    decide

/-- The disk once the directory of the page is made. -/
def madeDisk : Disk := (dataDisk []).set [nameOf "o"] .directory

theorem madeDisk_tried : (FileStep.createDirectories (.ofText "/o")).Tried (dataDisk []) [madeDisk] (.ok ()) := by
  have hlocate : (dataDisk []).locate false (.ofText "/o") = .ok (.name [] (nameOf "o") false) := by decide
  have hmake : (dataDisk []).makeDirectory (.ofText "/o") = .ok madeDisk :=
    Disk.makeDirectory_ok.2 ⟨[], nameOf "o", false, hlocate, rfl, rfl⟩
  refine ⟨List.isChain_pair.2 ⟨_, .self, hmake⟩, fun _ => ?_, nofun⟩
  rw [Disk.perform_found (by decide) (by rw [hmake]; exact nofun), Disk.attempt, hmake]
  rfl

/-- What is written of the temporary file. -/
theorem madeDisk_write (content : ByteArray) : madeDisk.write (temporaryPath samplePage) content =
    .ok (madeDisk.set [nameOf "o", nameOf "index.html.tmp"] (.file content)) := by
  have hlocate : madeDisk.locate true (temporaryPath samplePage) =
      .ok (.name [nameOf "o"] (nameOf "index.html.tmp") false) := by decide
  have hmissing : madeDisk.get? ([nameOf "o"] ++ [nameOf "index.html.tmp"]) = none := by decide
  refine (Disk.write_ok hlocate ⟨fun names hnames => absurd hnames List.not_mem_nil, fun target => ?_, ?_⟩).2 ⟨?_, rfl⟩
  all_goals
    rw [hmissing]
    exact nofun

theorem madeDisk_rename (content : ByteArray) : ∃ now,
    (madeDisk.set [nameOf "o", nameOf "index.html.tmp"] (.file content)).rename (temporaryPath samplePage) samplePage =
      .ok now := by
  have hmissing : madeDisk.get? [nameOf "o", nameOf "index.html.tmp"] = none := by decide
  have hsource : madeDisk.locate false (temporaryPath samplePage) =
      .ok (.name [nameOf "o"] (nameOf "index.html.tmp") false) := by decide
  have htarget : madeDisk.locate false samplePage = .ok (.name [nameOf "o"] (nameOf "index.html") false) := by
    decide
  refine ⟨_, (Disk.rename_ok (Disk.locate_set_file content (.inl hmissing) hsource) rfl).2
    ⟨_, _, Disk.locate_set_file content (.inl hmissing) htarget, ?_, rfl⟩⟩
  exact nofun

/-- A page that is published, and one whose temporary file is cut after nine bytes. -/
theorem pages_replaced_whole_sample : samplePage.fileName? = some (nameOf "index.html") ∧
    (dataDisk []).Apart samplePage ∧ ∃ document report moments moments' f,
      (pageProcess sampleData .index samplePage sampleBuild.settings).Tried (dataDisk []) moments (.ok report) ∧
      ((dataDisk []).after moments).readFile samplePage = .ok document ∧
      (pageProcess sampleData .index samplePage sampleBuild.settings).Tried (dataDisk []) moments' (.error f) ∧
      ((dataDisk []).after moments').content? [nameOf "o", nameOf "index.html.tmp"] = some (document.extract 0 9) ∧
      ∀ now ∈ moments', ∀ content, now.readFile samplePage ≠ .ok content := by
  have hname : samplePage.fileName? = some (nameOf "index.html") := by decide
  have hread : (dataDisk []).readFile sampleData = .ok bareText.toUTF8 := by decide
  obtain ⟨document, report, hdocument⟩ := sampleData_document
  rw [← hread] at hdocument
  obtain ⟨now, hrename⟩ := madeDisk_rename document.toUTF8
  have hwhole := tried_whole hdocument samplePage_parent madeDisk_tried (madeDisk_write document.toUTF8) hrename
  obtain ⟨f, hhalf⟩ := tried_half hdocument samplePage_parent madeDisk_tried 9 (madeDisk_write _)
  have hreplaced := (pages_replaced_whole sampleData .index sampleBuild.settings hname dataDisk_apart).2.2
  refine ⟨hname, dataDisk_apart, document.toUTF8, report, _, _, f, hwhole, ?_, hhalf, rfl,
    fun now hnow content hpage => ?_⟩
  · rcases hreplaced _ _ hwhole with ⟨_, _, -, -, hfailed, -⟩ | ⟨document', report', hdocument', -, hend⟩
    · cases hfailed
    · cases hdocument.symm.trans hdocument'
      rcases hend with ⟨⟨_, hfailed⟩, -⟩ | ⟨-, hpublished⟩
      · cases hfailed
      · exact hpublished.page
  · -- there was no page before, so there is none to be read
    have hgoal : (dataDisk []).goal? samplePage = some [nameOf "o", nameOf "index.html"] := by decide
    have hnone : (dataDisk []).content? [nameOf "o", nameOf "index.html"] = none := by decide
    rcases hreplaced _ _ hhalf with ⟨_, _, -, -, -, hnothing⟩ | ⟨document', report', -, -, hend⟩
    · cases hnothing
    · rcases hend with ⟨-, hbefore⟩ | ⟨hresult, -⟩
      · obtain ⟨goal, hgoal', hcontent⟩ := (hbefore now hnow).2.only content hpage
        cases hgoal.symm.trans hgoal'
        cases hnone.symm.trans hcontent
      · cases hresult

/-! ## Pages that are not apart from their temporary files -/

/-- The temporary file is a link to the page. -/
def linkedDraft : Disk := placedDisk (.file oldPage) (.link (.ofText "index.html"))

/-- The temporary file and the page are one file. -/
def twinDraft : Disk := { placedDisk (.file oldPage) (.file oldPage) with
  twins := [[[nameOf "o", nameOf "index.html"], [nameOf "o", nameOf "index.html.tmp"]]] }

/-- The page is a link to the temporary file. -/
def linkedPage : Disk := placedDisk (.link (.ofText "index.html.tmp")) (.file oldPage)

/-- The way to the page goes through a link at its place. -/
def linkedWay : Disk := placedDisk (.link (.ofText "s")) (.file oldPage)

def roundaboutPage : Path := .ofText "/o/index.html/../index.html"

theorem placedDisk_tried : ∀ disk ∈ [linkedDraft, twinDraft, linkedPage, deviceDraft],
    disk.readFile sampleData = .ok bareText.toUTF8 ∧
      (FileStep.createDirectories (.ofText "/o")).Tried disk [] (.ok ()) := by
  have hall : ∀ disk ∈ [linkedDraft, twinDraft, linkedPage, deviceDraft],
      disk.readFile sampleData = .ok bareText.toUTF8 ∧ disk.directory? (.ofText "/o") = some [nameOf "o"] := by
    decide
  intro disk hdisk
  obtain ⟨hread, hdirectory⟩ := hall disk hdisk
  obtain ⟨hpath, harrives⟩ := Disk.directory?_eq_some.1 hdirectory
  exact ⟨hread, tried_of_arrives hpath harrives⟩

/-- Where the temporary file is not apart from the page, the page is cut off with it: it is empty for a moment. -/
theorem halves_shown : ∀ disk ∈ [linkedDraft, twinDraft, linkedPage], disk.readFile samplePage = .ok oldPage ∧
    ∃ now, disk.write (temporaryPath samplePage) ByteArray.empty = .ok now ∧
      now.readFile samplePage = .ok ByteArray.empty := by
  have hall : ∀ disk ∈ [linkedDraft, twinDraft, linkedPage], disk.readFile samplePage = .ok oldPage ∧
      (disk.write (temporaryPath samplePage) ByteArray.empty).toOption.map (·.readFile samplePage) =
        some (.ok ByteArray.empty) := by decide
  intro disk hdisk
  obtain ⟨hread, hwrite⟩ := hall disk hdisk
  refine ⟨hread, ?_⟩
  cases hnow : disk.write (temporaryPath samplePage) ByteArray.empty with
  | error e => rw [hnow] at hwrite; cases hwrite
  | ok now => rw [hnow] at hwrite; exact ⟨now, rfl, Option.some.inj hwrite⟩

/-- Once the document is in its place, the path of the page leads through it no more. -/
theorem linkedWay_run (content : ByteArray) : ∃ drafted now,
    linkedWay.write (temporaryPath roundaboutPage) content = .ok drafted ∧
      drafted.rename (temporaryPath roundaboutPage) roundaboutPage = .ok now ∧
        now.readFile roundaboutPage = .error .notDirectory := by
  have hold : linkedWay.get? [nameOf "o", nameOf "index.html.tmp"] = some (.file oldPage) := rfl
  have hlocate : ∀ follow, linkedWay.locate follow (temporaryPath roundaboutPage) =
      .ok (.name [nameOf "o"] (nameOf "index.html.tmp") false) := by decide
  have htarget : linkedWay.locate false roundaboutPage = .ok (.name [nameOf "o"] (nameOf "index.html") false) := by
    decide
  refine ⟨_, _,
    (Disk.write_ok (hlocate true) ⟨fun names hnames => absurd hnames List.not_mem_nil, fun target => ?_, ?_⟩).2
      ⟨?_, rfl⟩, (Disk.rename_ok (Disk.locate_set_file content (.inr ⟨_, hold⟩) (hlocate false)) rfl).2
      ⟨_, _, Disk.locate_set_file content (.inr ⟨_, hold⟩) htarget, ?_, rfl⟩, ?_⟩
  · exact nofun
  · exact nofun
  · exact nofun
  · exact nofun
  · apply Disk.readFile_of_error
    rw [Disk.locate_eq, show Disk.checkPath roundaboutPage = .ok () by decide, Except.bind, Look.resolve_eq]
    rfl

/-- On a disk where they are not apart, a page may be cut off, be something else than its document though it is
published, or not be found at its path. -/
theorem pages_not_replaced_whole :
    (∀ disk ∈ [linkedDraft, twinDraft, linkedPage], ∃ document report moments f now,
      documentIn .index sampleData sampleBuild.settings (disk.readFile sampleData) = .ok (document, report) ∧
        (pageProcess sampleData .index samplePage sampleBuild.settings).Tried disk moments (.error f) ∧ now ∈ moments ∧
          disk.readFile samplePage = .ok oldPage ∧ now.readFile samplePage = .ok ByteArray.empty ∧
            ByteArray.empty ≠ oldPage ∧ ByteArray.empty ≠ document.toUTF8) ∧
    (∃ document report moments,
      documentIn .index sampleData sampleBuild.settings (deviceDraft.readFile sampleData) = .ok (document, report) ∧
        (pageProcess sampleData .index samplePage sampleBuild.settings).Tried deviceDraft moments (.ok report) ∧
          (deviceDraft.after moments).readFile samplePage = .ok ByteArray.empty ∧ ByteArray.empty ≠ document.toUTF8) ∧
    ∃ report moments,
      (pageProcess sampleData .index roundaboutPage sampleBuild.settings).Tried linkedWay moments (.ok report) ∧
        (linkedWay.after moments).readFile roundaboutPage = .error .notDirectory := by
  obtain ⟨document, report, hdocument⟩ := sampleData_document
  have hne := toUTF8_ne_empty (documentIn_ne_empty hdocument)
  refine ⟨fun disk hdisk => ?_, ?_, ?_⟩
  · obtain ⟨hold, now, hwrite, hempty⟩ := halves_shown disk hdisk
    obtain ⟨hread, hmade⟩ := placedDisk_tried disk (List.mem_append_left [deviceDraft] hdisk)
    rw [← hread] at hdocument
    have hnothing : document.toUTF8.extract 0 0 = ByteArray.empty := by simp
    rw [← hnothing] at hwrite
    obtain ⟨f, hhalf⟩ := tried_half hdocument samplePage_parent hmade 0 hwrite
    exact ⟨document, report, _, f, now, hdocument, hhalf, List.mem_singleton_self _, hold, hempty, by decide, hne.symm⟩
  · obtain ⟨hread, hmade⟩ := placedDisk_tried deviceDraft (by simp)
    rw [← hread] at hdocument
    obtain ⟨now, hwrite, hrename, hempty⟩ := deviceDraft_run document.toUTF8
    exact ⟨document, report, _, hdocument, tried_whole hdocument samplePage_parent hmade hwrite hrename,
      hempty, hne.symm⟩
  · have hread : linkedWay.readFile sampleData = .ok bareText.toUTF8 := by decide
    have hparent : roundaboutPage.parent? = some (.ofText "/o/index.html/..") := by decide
    have hdirectory : linkedWay.directory? (.ofText "/o/index.html/..") = some [nameOf "o"] := by decide
    obtain ⟨hpath, harrives⟩ := Disk.directory?_eq_some.1 hdirectory
    rw [← hread] at hdocument
    obtain ⟨drafted, now, hwrite, hrename, hlost⟩ := linkedWay_run document.toUTF8
    exact ⟨report, _, tried_whole hdocument hparent (tried_of_arrives hpath harrives) hwrite hrename, hlost⟩

end CoveragePages
