/-
The stages of a page. A page is loaded, its directory is made, its document is written to the temporary
file, and that is renamed. Each change goes well under a condition on the way to the page and on its two
places, and after it the disk has, at these names, what the stage of the page says (`Build.Marked`).
-/
import CoveragePages.Proofs.Report.Site

namespace CoveragePages

open CoveragePages.Path

namespace Build

variable (b : Build)

/-- The document of a page and the report on it, from its data file as it is at the start. -/
def document (names : Location) : Except Failure (String × ApplyReport) :=
  ((loadDocument (.ofDataFile names) (b.data names) b.settings :
    Task (StateM Disk) (String × ApplyReport)).run b.disk).1

/-- The process of a page. -/
def page (names : Location) : Process (Except Failure ApplyReport) :=
  pageProcess (b.data names) (.ofDataFile names) (b.out names) b.settings

section

variable {b} {names : Location}

theorem publishSteps_eq (h : IsDataFile names) (document : String) :
    publishSteps (b.out names) document = [.createDirectories (b.home names),
      .write (b.temporary names) document.toUTF8, .rename (b.temporary names) (b.out names)] := by
  rw [publishSteps, parent?_out h]
  rfl

theorem document_eq (names : Location) :
    b.document names = documentIn (.ofDataFile names) (b.data names) b.settings (b.disk.readFile (b.data names)) := by
  rw [document, loadDocument_run]

/-- A page has no document exactly if its data does not load. -/
theorem document_error {f : Failure} : b.document names = .error f ↔
    ((loadPlan (.ofDataFile names) (b.data names) b.settings :
      Task (StateM Disk) RenderPlan).run b.disk).1 = .error f := by
  rw [document_eq, documentIn_error, loadPlan_run]

/-! ## Changes -/

variable {base : Location} {disk disk' : Disk}

/-- A disk where the directory of a page is there. -/
structure Houses (b : Build) (names : Location) (disk : Disk) : Prop where
  arrives : disk.Arrives b.outDirectory b.spot
  spans : disk.Spans b.spot names.dropLast

/-- A path beside a page leads to its name, if no link is there that is to be followed. -/
theorem Houses.locate (hhouse : b.Houses names disk) (h : IsDataFile names) {extension : String}
    (hextension : IsPageExtension extension) (follow : Bool)
    (hlink : follow = true → ∀ target, disk.get? (b.spot ++ sibling extension names) ≠ some (.link target)) :
    ∃ above last, above ++ [last] = b.spot ++ sibling extension names ∧ ∀ spot,
      disk.locate follow (b.outDirectory.join (.ofNames (sibling extension names))) = .ok spot ↔
        Disk.Fits (b.outDirectory.join (.ofNames (sibling extension names))) (sibling extension names) ∧
          spot = .name above last false := by
  obtain ⟨dirs, name, hlast, hsibling, hdirs, hname, -⟩ := isName_sibling h hextension
  have hspans := hhouse.spans
  rw [hlast] at hspans
  rw [hsibling] at hlink ⊢
  refine ⟨b.spot ++ dirs, name, List.append_assoc _ _ _, fun spot => ?_⟩
  exact Disk.locate_below_ok hdirs hhouse.arrives hname hspans follow hlink

/-- A document can be written if the temporary file is none of a directory. -/
theorem perform_draft (h : IsDataFile names) (hhouse : b.Houses names disk) (hplain : disk.Plain (b.draft names))
    {content : ByteArray} : disk.perform (.write (b.temporary names) content) = (disk', .ok ()) ↔
      Disk.Fits (b.temporary names) (sibling "html.tmp" names) ∧ disk.get? (b.draft names) ≠ some .directory ∧
        disk' = disk.set (b.draft names) (.file content) := by
  obtain ⟨above, last, hplace, hlocate⟩ := hhouse.locate h (.inr rfl) true fun _ => hplain.no_link
  rw [← temporary_eq h] at hlocate
  rw [draft, ← hplace] at hplain ⊢
  rw [Disk.perform_write]
  constructor
  · intro hwrite
    obtain ⟨above', last', slash, hfound⟩ := Disk.locate_of_write hwrite
    obtain ⟨hfits, hspot⟩ := (hlocate _).1 hfound
    cases hspot
    exact ⟨hfits, (Disk.write_ok hfound hplain).1 hwrite⟩
  · rintro ⟨hfits, hfree⟩
    exact (Disk.write_ok ((hlocate _).2 ⟨hfits, rfl⟩) hplain).2 hfree

/-- A document can be put in its place if that is none of a directory. -/
theorem perform_publish (h : IsDataFile names) (hhouse : b.Houses names disk) {content : ByteArray}
    (hcontent : disk.get? (b.draft names) = some (.file content)) :
    disk.perform (.rename (b.temporary names) (b.out names)) = (disk', .ok ()) ↔
      (Disk.Fits (b.temporary names) (sibling "html.tmp" names) ∧ Disk.Fits (b.out names) (sibling "html" names)) ∧
        disk.get? (b.place names) ≠ some .directory ∧
          disk' = disk.move (b.draft names) (b.place names) (.file content) := by
  obtain ⟨above, last, hdraft, hsource⟩ := hhouse.locate h (.inr rfl) false nofun
  obtain ⟨above', last', hplace, htarget⟩ := hhouse.locate h (.inl rfl) false nofun
  rw [← temporary_eq h] at hsource
  rw [← out_eq h] at htarget
  rw [draft, ← hdraft] at hcontent
  rw [draft, place, ← hdraft, ← hplace, Disk.perform_rename]
  constructor
  · intro hrename
    obtain ⟨_, _, _, hfound⟩ := Disk.locate_of_rename hrename
    obtain ⟨hfits, hspot⟩ := (hsource _).1 hfound
    cases hspot
    obtain ⟨_, _, hfound', hfree⟩ := (Disk.rename_ok hfound hcontent).1 hrename
    obtain ⟨hfits', hspot⟩ := (htarget _).1 hfound'
    cases hspot
    exact ⟨⟨hfits, hfits'⟩, hfree⟩
  · rintro ⟨⟨hfits, hfits'⟩, hfree⟩
    exact (Disk.rename_ok ((hsource _).2 ⟨hfits, rfl⟩) hcontent).2 ⟨_, _, (htarget _).2 ⟨hfits', rfl⟩, hfree⟩

/-! ## Making the directory of a page -/

/-- A disk to make the directory of a page on: the one at the start, or one where the output directory is
there, with all that is made for it. -/
structure Ready (b : Build) (disk : Disk) : Prop where
  arrives : disk.Arrives b.outDirectory b.spot
  made : ∀ v, b.disk.get? v = none → b.ground.get? v = some .directory → disk.get? v = some .directory

theorem Site.ready_ground (site : b.Site base) (hgrounded : b.Grounded) : b.Ready b.ground where
  arrives := by
    rw [Disk.Arrives, b.grown_ground.current]
    exact Look.enter_mono (Look.past_within _ _) (site.ground hgrounded).2.2
  made _ _ hmade := hmade

section

variable (site : b.Site base) (hmem : names ∈ b.files)

include site hmem

/-- The directory of a page is made on a disk that is ready, if the directories below the output directory are
missing or there. -/
theorem Site.perform_home (hgrounded : b.Grounded) (hready : b.Ready disk)
    (hlinks : ∀ below, below ≠ [] → below <+: names.dropLast →
      ∀ target, disk.get? (b.spot ++ below) ≠ some (.link target)) :
    ((disk.perform (.createDirectories (b.home names))).2 = .ok () ↔ Disk.FolderFits b.outDirectory names.dropLast ∧
      ∀ below, below ≠ [] → below <+: names.dropLast → disk.Open (b.spot ++ below)) ∧
    ((disk.perform (.createDirectories (b.home names))).2 = .ok () →
      disk.Housed b.spot names.dropLast (disk.perform (.createDirectories (b.home names))).1) := by
  have hdirs := dropLast_valid (site.isDataFile hmem)
  obtain ⟨hmade, hmake⟩ := Disk.perform_folder (site.ground hgrounded).2.1 hready.arrives hdirs hlinks
  refine ⟨⟨fun hok => ?_, fun ⟨hfits, hopen⟩ => ?_⟩, fun hok => (hmade _ (Prod.ext rfl hok)).2.2⟩
  · obtain ⟨hfits, hopen, -⟩ := hmade _ (Prod.ext rfl hok)
    exact ⟨hfits, hopen⟩
  · obtain ⟨now, hnow⟩ := hmake hfits hopen
    exact congrArg Prod.snd hnow

theorem Site.linkless_ground (hgrounded : b.Grounded) : ∀ below, below ≠ [] → below <+: names.dropLast →
    ∀ target, b.ground.get? (b.spot ++ below) ≠ some (.link target) := fun below hne hbelow target hlink =>
  (site.room (site.ground hgrounded).1).linkless names hmem below hne hbelow target (b.grown_ground.link.1 hlink)

/-- From the start, the directory of a page is made once the output directory is. -/
theorem Site.perform_home_start : (b.disk.perform (.createDirectories (b.home names))).2 = .ok () ↔
    b.Grounded ∧ Disk.FolderFits b.outDirectory names.dropLast ∧
      ∀ below, below ≠ [] → below <+: names.dropLast → b.disk.Open (b.spot ++ below) := by
  have hstart := fun now =>
    @Disk.perform_folder_start b.disk now b.outDirectory _ (dropLast_valid (site.isDataFile hmem))
  have hopen : ∀ v, b.ground.Open v ↔ b.disk.Open v := fun v => b.grown_ground.open_iff
  rw [Disk.perform_snd]
  constructor
  · rintro ⟨now, hnow⟩
    obtain ⟨ground, hground, hhome⟩ := (hstart now).1 hnow
    have hgrounded : b.Grounded := congrArg Prod.snd hground
    obtain rfl : b.ground = ground := congrArg Prod.fst hground
    have hhouse := (site.perform_home hmem hgrounded (site.ready_ground hgrounded)
      (site.linkless_ground hmem hgrounded)).1
    simp only [hopen] at hhouse
    exact ⟨hgrounded, hhouse.1 (congrArg Prod.snd hhome)⟩
  · rintro ⟨hgrounded, hfits⟩
    have hhouse := (site.perform_home hmem hgrounded (site.ready_ground hgrounded)
      (site.linkless_ground hmem hgrounded)).1
    simp only [hopen] at hhouse
    obtain ⟨now, hnow⟩ := Disk.perform_snd.1 (hhouse.2 hfits)
    exact ⟨now, (hstart now).2 ⟨b.ground, Prod.ext rfl hgrounded, hnow⟩⟩

end

end

end Build

/-! ## Stages -/

/-- How far a page has come; a page that does not load comes no further than that. -/
inductive Stage where
  | waiting
  | loaded
  | housed
  | drafted
  | published

/-- The stage after one more turn. -/
def Stage.next : Stage → Stage
  | waiting => loaded
  | loaded => housed
  | housed => drafted
  | drafted | published => published

namespace Build

variable (b : Build)

/-- What is left of a page that is loaded, after some of its changes. -/
def left (names : Location) (changes : Nat) : Process (Except Failure ApplyReport) :=
  match b.document names with
  | .error f => .done (.error f)
  | .ok (document, report) => publishing report ((publishSteps (b.out names) document).drop changes)

/-- What is left of a page at a stage. -/
def process (names : Location) : Stage → Process (Except Failure ApplyReport)
  | .waiting => b.page names
  | .loaded => b.left names 0
  | .housed => b.left names 1
  | .drafted => b.left names 2
  | .published => b.left names 3

/-- The change that a page makes at a stage. -/
def change (names : Location) (document : String) : Stage → Option FileStep
  | .waiting | .published => none
  | .loaded => some (.createDirectories (b.home names))
  | .housed => some (.write (b.temporary names) document.toUTF8)
  | .drafted => some (.rename (b.temporary names) (b.out names))

/-- What a page has done to the disk at a stage: a name, and what it has. -/
def Marked (names : Location) (stage : Stage) (n : Location) (e : Option Entry) : Prop :=
  match b.document names, stage with
  | .error _, _ | .ok _, .waiting | .ok _, .loaded => False
  | .ok _, .housed => b.Way names n ∧ e = some .directory
  | .ok (document, _), .drafted =>
    (n = b.draft names ∧ e = some (.file document.toUTF8)) ∨ b.Way names n ∧ e = some .directory
  | .ok (document, _), .published =>
    (n = b.draft names ∧ e = none) ∨ (n = b.place names ∧ e = some (.file document.toUTF8)) ∨
      b.Way names n ∧ e = some .directory

/-- A name that has come to be that of another file: the place of a page that is published. -/
def Replaced (names : Location) (stage : Stage) (v : Location) : Prop :=
  (∃ result, b.document names = .ok result) ∧ stage = .published ∧ v = b.place names

/-- The directory of a page can be made. -/
def CanHouse (names : Location) : Prop := (b.disk.perform (.createDirectories (b.home names))).2 = .ok ()

/-- The place of the temporary file of a page is free. -/
def CanDraft (names : Location) : Prop :=
  Disk.Fits (b.temporary names) (sibling "html.tmp" names) ∧ b.disk.get? (b.draft names) ≠ some .directory

/-- The place of a page is free. -/
def CanPublish (names : Location) : Prop :=
  Disk.Fits (b.out names) (sibling "html" names) ∧ b.disk.get? (b.place names) ≠ some .directory

/-- What the disk must be like at the start for a page to come to a stage. -/
def Allows (names : Location) : Stage → Prop
  | .waiting | .loaded => True
  | .housed => b.CanHouse names
  | .drafted => b.CanHouse names ∧ b.CanDraft names
  | .published => b.CanHouse names ∧ b.CanDraft names ∧ b.CanPublish names

/-- One disk is another one after the turn that brings a page to a stage. -/
structure Advances (names : Location) (stage : Stage) (disk disk' : Disk) : Prop where
  current : disk'.current = disk.current
  closed : disk'.closed = disk.closed
  linked : ∀ v v', disk'.Linked v v' ↔
    disk.Linked v v' ∧ ¬ b.Replaced names stage v ∧ ¬ b.Replaced names stage v'
  marked : ∀ n e, b.Marked names stage n e → disk'.get? n = e
  kept : ∀ n, (∀ e, ¬ b.Marked names stage n e) → disk'.get? n = disk.get? n

section

variable {b} {names : Location} {document : String} {report : ApplyReport} {f : Failure} {stage : Stage}

theorem process_failed (hfails : b.document names = .error f) (hstage : stage ≠ .waiting) :
    b.process names stage = .done (.error f) := by
  cases stage with
  | waiting => exact absurd rfl hstage
  | loaded | housed | drafted | published => rw [process, left, hfails]

theorem process_published (h : IsDataFile names) (hloads : b.document names = .ok (document, report)) :
    b.process names .published = .done (.ok report) := by
  rw [process, left, hloads]
  simp only [publishSteps_eq h]
  rfl

/-- A page that is loaded and has no change left to make is published. -/
theorem published_of_no_change (hchange : b.change names document stage = none) (hstage : stage ≠ .waiting) :
    stage = .published := by
  cases stage with
  | waiting => exact absurd rfl hstage
  | loaded | housed | drafted => cases hchange
  | published => rfl

/-- A page that loads makes its changes in order. -/
theorem process_change (h : IsDataFile names) (hloads : b.document names = .ok (document, report)) {step : FileStep}
    (hstep : b.change names document stage = some step) :
    ∃ next, b.process names stage = .ask (.perform step) next ∧ next (.ok ()) = b.process names stage.next := by
  have hleft : ∀ changes, b.left names changes = publishing report ([.createDirectories (b.home names),
      .write (b.temporary names) document.toUTF8, .rename (b.temporary names) (b.out names)].drop changes) := by
    intro changes
    rw [left, hloads, ← publishSteps_eq h]
  cases stage with
  | waiting | published => cases hstep
  | loaded =>
    cases hstep
    exact ⟨_, hleft 0, (hleft 1).symm⟩
  | housed =>
    cases hstep
    exact ⟨_, hleft 1, (hleft 2).symm⟩
  | drafted =>
    cases hstep
    exact ⟨_, hleft 2, (hleft 3).symm⟩

/-- Reading the data file gives what it gave at the start, if it is as it was. -/
theorem turn_waiting {disk : Disk} (hdata : disk.readFile (b.data names) = b.disk.readFile (b.data names)) :
    (b.process names .waiting).turn disk = (b.process names .loaded, disk) := by
  have hleft : b.left names 0 = published (b.out names) (b.document names) := by
    rw [left]
    cases b.document names <;> rfl
  rw [process, process, page, pageProcess_eq, hleft, document_eq, ← hdata]
  rfl

/-! ## Marks -/

variable {n : Location} {e : Option Entry}

theorem not_marked_failed (hfails : b.document names = .error f) : ¬ b.Marked names stage n e := by
  simp only [Marked, hfails, not_false_eq_true]

theorem not_marked_waiting : ¬ b.Marked names .waiting n e := by
  cases hdocument : b.document names <;> simp only [Marked, hdocument, not_false_eq_true]

theorem not_marked_loaded : ¬ b.Marked names .loaded n e := by
  cases hdocument : b.document names <;> simp only [Marked, hdocument, not_false_eq_true]

theorem marked_housed (hloads : b.document names = .ok (document, report)) :
    b.Marked names .housed n e ↔ b.Way names n ∧ e = some .directory := by
  simp only [Marked, hloads]

theorem marked_drafted (hloads : b.document names = .ok (document, report)) : b.Marked names .drafted n e ↔
    (n = b.draft names ∧ e = some (.file document.toUTF8)) ∨ b.Way names n ∧ e = some .directory := by
  simp only [Marked, hloads]

theorem marked_published (hloads : b.document names = .ok (document, report)) : b.Marked names .published n e ↔
    (n = b.draft names ∧ e = none) ∨ (n = b.place names ∧ e = some (.file document.toUTF8)) ∨
      b.Way names n ∧ e = some .directory := by
  simp only [Marked, hloads]

/-- A page marks the way to it and its two places, and these only. -/
theorem marked_cases (h : b.Marked names stage n e) :
    (b.Way names n ∧ e = some .directory) ∨ n = b.draft names ∨ n = b.place names := by
  cases hdocument : b.document names with
  | error f => exact absurd h (not_marked_failed hdocument)
  | ok result =>
    cases stage with
    | waiting => exact absurd h not_marked_waiting
    | loaded => exact absurd h not_marked_loaded
    | housed => exact .inl ((marked_housed hdocument).1 h)
    | drafted =>
      rcases (marked_drafted hdocument).1 h with ⟨hn, -⟩ | hway
      · exact .inr (.inl hn)
      · exact .inl hway
    | published =>
      rcases (marked_published hdocument).1 h with ⟨hn, -⟩ | ⟨hn, -⟩ | hway
      · exact .inr (.inl hn)
      · exact .inr (.inr hn)
      · exact .inl hway

/-- What is marked stays marked. -/
theorem marked_next (h : b.Marked names stage n e) : ∃ e', b.Marked names stage.next n e' := by
  cases hdocument : b.document names with
  | error f => exact absurd h (not_marked_failed hdocument)
  | ok result =>
    cases stage with
    | waiting => exact absurd h not_marked_waiting
    | loaded => exact absurd h not_marked_loaded
    | housed => exact ⟨_, (marked_drafted hdocument).2 (.inr ((marked_housed hdocument).1 h))⟩
    | drafted =>
      rcases (marked_drafted hdocument).1 h with ⟨hn, -⟩ | hway
      · exact ⟨_, (marked_published hdocument).2 (.inl ⟨hn, rfl⟩)⟩
      · exact ⟨_, (marked_published hdocument).2 (.inr (.inr hway))⟩
    | published => exact ⟨_, h⟩

section

variable {base names' : Location} {stage' : Stage} {e' : Option Entry} (site : b.Site base)
  (hmem : names ∈ b.files) (hmem' : names' ∈ b.files) (hne : names ≠ names')

include site hmem hmem' hne

/-- No other page marks the place of the temporary file of a page. -/
theorem draft_unmarked : ¬ b.Marked names' stage (b.draft names) e := by
  have hfile := site.isDataFile hmem
  have hfile' := site.isDataFile hmem'
  intro h
  rcases marked_cases h with ⟨hway, -⟩ | hn | hn
  · exact site.off_way (.inr rfl) hmem hmem' hway
  · exact hne (draft_inj hfile hfile' hn)
  · exact draft_ne_place hfile hfile' hn

/-- No other page marks the place of a page. -/
theorem place_unmarked : ¬ b.Marked names' stage (b.place names) e := by
  have hfile := site.isDataFile hmem
  have hfile' := site.isDataFile hmem'
  intro h
  rcases marked_cases h with ⟨hway, -⟩ | hn | hn
  · exact site.off_way (.inl rfl) hmem hmem' hway
  · exact draft_ne_place hfile' hfile hn.symm
  · exact hne (place_inj hfile hfile' hn)

/-- Two pages do not disagree on a name that both have marked. -/
theorem marked_agree (h : b.Marked names stage n e) (h' : b.Marked names' stage' n e') : e = e' := by
  rcases marked_cases h with ⟨-, he⟩ | hn | hn
  · rcases marked_cases h' with ⟨-, he'⟩ | hn' | hn'
    · rw [he, he']
    · exact absurd (hn' ▸ h) (draft_unmarked site hmem' hmem hne.symm)
    · exact absurd (hn' ▸ h) (place_unmarked site hmem' hmem hne.symm)
  · exact absurd (hn ▸ h') (draft_unmarked site hmem hmem' hne)
  · exact absurd (hn ▸ h') (place_unmarked site hmem hmem' hne)

end

/-! ## Turns that change the disk -/

variable {disk disk' : Disk}

theorem advances_self (hlinked : ∀ v v', disk.Linked v v' → ¬ b.Replaced names stage v ∧ ¬ b.Replaced names stage v')
    (hmarked : ∀ n e, b.Marked names stage n e → disk.get? n = e) : b.Advances names stage disk disk where
  current := rfl
  closed := rfl
  linked v v' := ⟨fun h => ⟨h, hlinked v v' h⟩, And.left⟩
  marked := hmarked
  kept _ _ := rfl

theorem not_replaced (hstage : stage ≠ .published) {v : Location} : ¬ b.Replaced names stage v := fun h => hstage h.2.1

theorem replaced_published (hloads : b.document names = .ok (document, report)) {v : Location} :
    ¬ b.Replaced names .published v ↔ v ≠ b.place names :=
  not_congr ⟨fun h => h.2.2, fun h => ⟨⟨_, hloads⟩, rfl, h⟩⟩

/-- On a disk that was ready, the way to a page is there once its directory is made, and nothing else is changed. -/
theorem housed_entries (hready : b.Ready disk) (hhoused : disk.Housed b.spot names.dropLast disk') (n : Location) :
    (b.Way names n → disk'.get? n = some .directory) ∧ (¬ b.Way names n → disk'.get? n = disk.get? n) := by
  by_cases hbelow : ∃ below, below ≠ [] ∧ below <+: names.dropLast ∧ n = b.spot ++ below
  · refine ⟨fun _ => ?_, fun hway => absurd (.inr hbelow) hway⟩
    obtain ⟨below, hne, hprefix, rfl⟩ := hbelow
    exact hhoused.spans below hne hprefix
  · have hkept := hhoused.kept n fun below hne hprefix heq => hbelow ⟨below, hne, hprefix, heq⟩
    refine ⟨fun hway => ?_, fun _ => hkept⟩
    obtain ⟨-, hmissing, hmade⟩ := hway.resolve_right hbelow
    rw [hkept, hready.made n hmissing hmade]

section

variable {base : Location} (site : b.Site base) (hmem : names ∈ b.files)
  (hloads : b.document names = .ok (document, report))

include site hmem hloads

theorem advances_housed (hdisk : disk = b.disk ∨ b.Grounded ∧ b.Ready disk ∧
      ∀ below, below ≠ [] → below <+: names.dropLast → ∀ target, disk.get? (b.spot ++ below) ≠ some (.link target))
    (hok : (disk.perform (.createDirectories (b.home names))).2 = .ok ()) :
    b.Advances names .housed disk (disk.perform (.createDirectories (b.home names))).1 := by
  have hgrown := disk.grown_perform (b.home names)
  have hentries : ∀ n, (b.Way names n → (disk.perform (.createDirectories (b.home names))).1.get? n = some .directory) ∧
      (¬ b.Way names n → (disk.perform (.createDirectories (b.home names))).1.get? n = disk.get? n) := by
    rcases hdisk with rfl | ⟨hgrounded, hready, hlinks⟩
    · -- from the start, the output directory is made first
      have hgrounded := ((site.perform_home_start hmem).1 hok).1
      have hhome : b.ground.perform (.createDirectories (b.home names)) =
          b.disk.perform (.createDirectories (b.home names)) := by
        obtain ⟨ground, hground, hhome⟩ :=
          (Disk.perform_folder_start (dropLast_valid (site.isDataFile hmem))).1 (Prod.ext rfl hok)
        obtain rfl : b.ground = ground := congrArg Prod.fst hground
        exact hhome.trans (Prod.ext rfl hok.symm)
      have hready := site.ready_ground hgrounded
      have hhouse := (site.perform_home hmem hgrounded hready (site.linkless_ground hmem hgrounded)).2
      rw [hhome] at hhouse
      intro n
      obtain ⟨hway, hkept⟩ := housed_entries hready (hhouse hok) n
      refine ⟨hway, fun hoff => (hkept hoff).trans ?_⟩
      rcases b.grown_ground.entries n with hsame | ⟨-, hmissing, hmade⟩
      · exact hsame
      · exact absurd (.inl ⟨hgrounded, hmissing, hmade⟩) hoff
    · exact housed_entries hready ((site.perform_home hmem hgrounded hready hlinks).2 hok)
  refine ⟨hgrown.current, hgrown.closed, fun v v' => ?_, fun n e hmark => ?_, fun n hfree => ?_⟩
  · have hsame : (disk.perform (.createDirectories (b.home names))).1.Linked v v' ↔ disk.Linked v v' := by
      rw [Disk.Linked, hgrown.twins, Disk.Linked]
    have hstage : Stage.housed ≠ .published := nofun
    exact hsame.trans ⟨fun h => ⟨h, not_replaced hstage, not_replaced hstage⟩, And.left⟩
  · obtain ⟨hway, rfl⟩ := (marked_housed hloads).1 hmark
    exact (hentries n).1 hway
  · exact (hentries n).2 fun hway => hfree _ ((marked_housed hloads).2 ⟨hway, rfl⟩)

theorem advances_drafted (hhouse : b.Houses names disk) (hplain : disk.Plain (b.draft names))
    (hway : ∀ v, b.Way names v → disk.get? v = some .directory)
    (hok : disk.perform (.write (b.temporary names) document.toUTF8) = (disk', .ok ())) :
    b.Advances names .drafted disk disk' := by
  have hfile := site.isDataFile hmem
  obtain ⟨-, -, rfl⟩ := (perform_draft hfile hhouse hplain).1 hok
  have hget := Disk.get?_set disk (draft_ne_nil (b := b) hfile) (.file document.toUTF8)
  have hstage : Stage.drafted ≠ .published := nofun
  refine ⟨rfl, rfl, fun v v' => ⟨fun h => ⟨h, not_replaced hstage, not_replaced hstage⟩, And.left⟩,
    fun n e hmark => ?_, fun n hfree => ?_⟩
  · rw [hget]
    rcases (marked_drafted hloads).1 hmark with ⟨hn, he⟩ | ⟨hn, he⟩
    · rw [if_pos hn, he]
    · have hoff : n ≠ b.draft names := by
        rintro rfl
        exact site.off_way (.inr rfl) hmem hmem hn
      rw [if_neg hoff, hway n hn, he]
  · rw [hget, if_neg fun hn => hfree _ ((marked_drafted hloads).2 (.inl ⟨hn, rfl⟩))]

theorem advances_published (hhouse : b.Houses names disk) (hsole : disk.Sole (b.draft names))
    (hway : ∀ v, b.Way names v → disk.get? v = some .directory)
    (hdraft : disk.get? (b.draft names) = some (.file document.toUTF8))
    (hok : disk.perform (.rename (b.temporary names) (b.out names)) = (disk', .ok ())) :
    b.Advances names .published disk disk' := by
  have hfile := site.isDataFile hmem
  obtain ⟨-, -, rfl⟩ := (perform_publish hfile hhouse hdraft).1 hok
  have hne : b.place names ≠ b.draft names := (draft_ne_place hfile hfile).symm
  have hget := Disk.get?_move (.file document.toUTF8) hsole (draft_ne_nil hfile) (place_ne_nil hfile) hne
  have hkept := Disk.move_kept disk (b.draft names) (b.place names) (.file document.toUTF8)
  refine ⟨hkept.1, hkept.2, fun v v' => ?_, fun n e hmark => ?_, fun n hfree => ?_⟩
  · rw [Disk.linked_move _ hsole hne, replaced_published hloads, replaced_published hloads]
  · rw [hget]
    rcases (marked_published hloads).1 hmark with ⟨hn, he⟩ | ⟨hn, he⟩ | ⟨hn, he⟩
    · rw [if_neg (hn ▸ hne.symm), if_pos hn, he]
    · rw [if_pos hn, he]
    · have hoff : n ≠ b.place names := by
        rintro rfl
        exact site.off_way (.inl rfl) hmem hmem hn
      have hoff' : n ≠ b.draft names := by
        rintro rfl
        exact site.off_way (.inr rfl) hmem hmem hn
      rw [if_neg hoff, if_neg hoff', hway n hn, he]
  · rw [hget, if_neg fun hn => hfree _ ((marked_published hloads).2 (.inr (.inl ⟨hn, rfl⟩))),
      if_neg fun hn => hfree _ ((marked_published hloads).2 (.inl ⟨hn, rfl⟩))]

end

end

end Build

end CoveragePages
