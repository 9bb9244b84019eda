/-
Where a build takes place. Links may be on the way to the directory with the data and to the output directory,
but not at the names of pages, nor at the directories below the output directory that pages go to; so pages
and their temporary files have places of their own, none of which is on the way to a page.
-/
import CoveragePages.Proofs.Report.Outputs
import CoveragePages.Proofs.Report.Rendering

namespace CoveragePages

open CoveragePages.Path

/-! ## Ways without some links -/

namespace Disk

variable {disk now : Disk} {p : Path} {at_ : Location} {avoid : Location → Bool}

/-- A directory that is there stands where its path leads to, and no link to be avoided is on the way if none
is on any way there. -/
theorem past_of_arrives (avoid : Location → Bool) (hcurrent : now.current = disk.current)
    (hwithin : now.look.Within disk.guess) (h : now.Arrives p at_) : disk.leads? (fun _ => false) p = some at_ ∧
      (disk.leads? avoid p = disk.leads? (fun _ => false) p →
        (now.look.past avoid).enter maxLinks (p.startIn now.current) p.parts = .ok (.directory at_)) := by
  have hleads : disk.leads? (fun _ => false) p = some at_ := by
    rw [leads?_eq_some, Look.past_none, ← hcurrent]
    exact Look.enter_mono hwithin h
  refine ⟨hleads, fun havoid => ?_⟩
  rw [hleads, leads?_eq_some, ← hcurrent] at havoid
  exact Look.enter_past hwithin h havoid

theorem arrives_of_past (avoid : Location → Bool)
    (h : (disk.look.past avoid).enter maxLinks (p.startIn disk.current) p.parts = .ok (.directory at_)) :
    disk.Arrives p at_ :=
  Look.enter_mono (Look.past_within _ _) h

end Disk

/-- The places where pages and their temporary files may be, by their names. -/
def isPagePlace (place : Location) : Bool := place.getLast?.any fun name => decide (IsPageName name)

theorem isPagePlace_concat (front : Location) (name : Part) :
    isPagePlace (front ++ [name]) = decide (IsPageName name) := by
  rw [isPagePlace, List.getLast?_concat, Option.any_some]

/-- A build: the disk that it starts on, its directories and its settings. -/
structure Build where
  disk : Disk
  directory : Path
  outDirectory : Path
  settings : ResolvedSettings

namespace Build

variable (b : Build)

/-- The data files of the build, each as the names that lead to it. -/
def files : List Location := (b.disk.filesBelow b.directory).filter (isBuilt b.settings)

def data (names : Location) : Path := b.directory.join (.ofNames names)

def out (names : Location) : Path := outputPath b.outDirectory names

def temporary (names : Location) : Path := temporaryPath (b.out names)

/-- The path of the directory of a page. -/
def home (names : Location) : Path := folder b.outDirectory names.dropLast

/-- Where the output directory is once the directories on the way to it are there. -/
def spot : Location := (b.disk.leads? (fun _ => false) b.outDirectory).getD []

/-- Whether the output directory is anywhere: no name on the way is too long, and its links come to an end. -/
def Leads : Prop := b.disk.leads? (fun _ => false) b.outDirectory = some b.spot

/-- The place of a page. -/
def place (names : Location) : Location := b.spot ++ sibling "html" names

/-- The place of the temporary file of a page. -/
def draft (names : Location) : Location := b.spot ++ sibling "html.tmp" names

/-- The disk once the output directory is made. -/
def ground : Disk := (b.disk.perform (.createDirectories (folder b.outDirectory []))).1

/-- Whether the output directory can be made. -/
def Grounded : Prop := (b.disk.perform (.createDirectories (folder b.outDirectory []))).2 = .ok ()

/-- The directories that are made for a page: those of the output directory, and those below it. -/
def Way (names v : Location) : Prop :=
  (b.Grounded ∧ b.disk.get? v = none ∧ b.ground.get? v = some .directory) ∨
    ∃ below, below ≠ [] ∧ below <+: names.dropLast ∧ v = b.spot ++ below

/-- What a build relies on at the place of its output directory. -/
structure Room : Prop where
  /-- No directory on the way along the path of the output directory has the name of a page below it. -/
  through : ∀ names, b.disk.Above (folder b.outDirectory []) (b.spot ++ names) → ∀ name ∈ names, ¬ IsPageName name
  /-- No directory that a page goes to is a link. -/
  linkless : ∀ names ∈ b.files, ∀ below, below ≠ [] → below <+: names.dropLast →
    ∀ target, b.disk.get? (b.spot ++ below) ≠ some (.link target)
  /-- A temporary file is written as a file of its own. -/
  drafts : ∀ names ∈ b.files, b.disk.Plain (b.draft names)

/-- What a build relies on: the disk is a tree, the directory with the data is there, no directory below it
has the name of a page or of a temporary file, and no link with such a name is on the way to it or to the
output directory. -/
structure Site (base : Location) : Prop where
  tree : b.disk.IsTree
  found : b.disk.directory? b.directory = some base
  below : ∀ names, b.disk.get? (base ++ names) = some .directory → ∀ name ∈ names, ¬ IsPageName name
  avoids : ∀ p ∈ [b.directory, b.outDirectory], b.disk.leads? isPagePlace p = b.disk.leads? (fun _ => false) p
  room : b.Leads → b.Room

section

variable {b} {base names names' : Location}

/-! ## Data files -/

theorem Site.nodup_files (h : b.Site base) : b.files.Nodup := (h.tree.nodup_filesBelow h.found).filter _

theorem Site.mem_files (h : b.Site base) : names ∈ b.files ↔
    (∃ content, b.disk.get? (base ++ names) = some (.file content)) ∧
      b.disk.lists b.directory base names = true ∧
        (∃ name, names.getLast? = some name ∧ IsDataPart name) ∧ b.settings.excludes (.ofNames names) = false := by
  have hname : (names.getLast?.any fun name => (Text.decode? name).any isPageDataName) = true ↔
      ∃ name, names.getLast? = some name ∧ IsDataPart name := by
    simp only [Option.any_eq_true (p := fun name => (Text.decode? name).any isPageDataName), isDataPart_iff]
  rw [files, List.mem_filter, isBuilt, Bool.and_eq_true, Bool.not_eq_true', hname]
  refine Iff.trans (and_congr_left fun hbuilt => h.tree.mem_filesBelow h.found ?_) and_assoc
  rintro rfl
  obtain ⟨⟨name, hlast, -⟩, -⟩ := hbuilt
  cases hlast

theorem Site.isDataFile (h : b.Site base) (hmem : names ∈ b.files) : IsDataFile names := by
  obtain ⟨⟨content, hget⟩, -, hdata, -⟩ := h.mem_files.1 hmem
  exact ⟨fun name hname => h.tree.isName hget name (List.mem_append_right _ hname), hdata⟩

/-- The directories between the one with the data and a data file are there. -/
theorem Site.spans (h : b.Site base) (hmem : names ∈ b.files) : b.disk.Spans base names.dropLast := by
  obtain ⟨⟨content, hget⟩, -⟩ := h.mem_files.1 hmem
  obtain ⟨dirs, name, rfl, -⟩ := (h.isDataFile hmem).cases
  rw [List.dropLast_concat]
  rintro below - ⟨rest, rfl⟩
  rw [List.append_assoc, ← List.append_assoc] at hget
  exact h.tree.above (by simp) hget

/-- The way to the directory with the data goes through no link with the name of a page. -/
theorem Site.arrives_directory (h : b.Site base) : Disk.checkPath b.directory = .ok () ∧
    (b.disk.look.past isPagePlace).enter maxLinks (b.directory.startIn b.disk.current) b.directory.parts =
      .ok (.directory base) := by
  obtain ⟨hpath, harrives⟩ := Disk.directory?_eq_some.1 h.found
  exact ⟨hpath, (Disk.past_of_arrives isPagePlace rfl (Disk.look_within_guess_self _) harrives).2
    (h.avoids _ List.mem_cons_self)⟩

/-! ## The output directory -/

theorem leads_of {spot : Location} (h : b.disk.leads? (fun _ => false) b.outDirectory = some spot) :
    b.Leads ∧ spot = b.spot := by
  have hspot : b.spot = spot := by rw [Build.spot, h]; rfl
  exact ⟨by rw [Leads, hspot, h], hspot.symm⟩

theorem arrives_folder_nil {disk : Disk} {path : Path} {at_ : Location} :
    disk.Arrives (folder path []) at_ ↔ disk.Arrives path at_ := by
  rw [Disk.arrives_folder fun dir hdir => absurd hdir List.not_mem_nil, List.append_nil]
  rfl

theorem grown_ground (b : Build) : b.disk.Grown (folder b.outDirectory []) b.ground := Disk.grown_perform _ _

/-- Once the output directory is made, it is where it leads, and no link with the name of a page is on the way. -/
theorem Site.ground (h : b.Site base) (hgrounded : b.Grounded) : b.Leads ∧ Disk.FolderFits b.outDirectory [] ∧
    (b.ground.look.past isPagePlace).enter maxLinks (b.outDirectory.startIn b.disk.current) b.outDirectory.parts =
      .ok (.directory b.spot) := by
  have hgrown := b.grown_ground
  obtain ⟨hpath, at_, harrives⟩ := Disk.arrives_of_perform
    (show b.disk.perform (.createDirectories (folder b.outDirectory [])) =
      (b.ground, .ok ()) from Prod.ext rfl hgrounded)
  rw [arrives_folder_nil] at harrives
  obtain ⟨hleads, hpast⟩ := Disk.past_of_arrives isPagePlace hgrown.current hgrown.within_guess harrives
  obtain ⟨hleads, rfl⟩ := leads_of hleads
  have henter := hpast (h.avoids _ (by simp))
  rw [hgrown.current] at henter
  exact ⟨hleads, ⟨hpath, fun dir hdir => absurd hdir List.not_mem_nil⟩, henter⟩

/-! ## Pages -/

theorem dropLast_valid (h : IsDataFile names) : ∀ dir ∈ names.dropLast, IsName dir :=
  fun dir hdir => h.valid dir (List.dropLast_subset _ hdir)

theorem out_eq (h : IsDataFile names) : b.out names = b.outDirectory.join (.ofNames (sibling "html" names)) :=
  outputPath_eq _ h

theorem temporary_eq (h : IsDataFile names) :
    b.temporary names = b.outDirectory.join (.ofNames (sibling "html.tmp" names)) :=
  temporaryPath_eq _ h

theorem parent?_out (h : IsDataFile names) : (b.out names).parent? = some (b.home names) := by
  obtain ⟨dirs, name, hlast, hsibling, hdirs, hname, -⟩ := isName_sibling h (.inl rfl)
  rw [out_eq h, hsibling, parent?_join _ hdirs hname, home, hlast]

theorem place_ne_nil (h : IsDataFile names) : b.place names ≠ [] := by
  obtain ⟨dirs, name, -, hsibling, -⟩ := isName_sibling h (.inl rfl)
  rw [place, hsibling]
  simp

theorem draft_ne_nil (h : IsDataFile names) : b.draft names ≠ [] := by
  obtain ⟨dirs, name, -, hsibling, -⟩ := isName_sibling h (.inr rfl)
  rw [draft, hsibling]
  simp

theorem place_inj (h : IsDataFile names) (h' : IsDataFile names') (heq : b.place names = b.place names') :
    names = names' :=
  (sibling_inj h h' (.inl rfl) (.inl rfl) (List.append_cancel_left heq)).1

theorem draft_inj (h : IsDataFile names) (h' : IsDataFile names') (heq : b.draft names = b.draft names') :
    names = names' :=
  (sibling_inj h h' (.inr rfl) (.inr rfl) (List.append_cancel_left heq)).1

theorem draft_ne_place (h : IsDataFile names) (h' : IsDataFile names') : b.draft names ≠ b.place names' := fun heq =>
  absurd (sibling_inj h h' (.inr rfl) (.inl rfl) (List.append_cancel_left heq)).2 (by decide)

/-- Pages and temporary files have names of pages. -/
theorem isPagePlace_sibling (h : IsDataFile names) {extension : String} (hextension : IsPageExtension extension) :
    isPagePlace (b.spot ++ sibling extension names) = true := by
  obtain ⟨dirs, name, -, hsibling, -, -, hpage⟩ := isName_sibling h hextension
  rw [hsibling, ← List.append_assoc, isPagePlace_concat]
  exact decide_eq_true hpage

theorem not_isPagePlace {place : Location} {name : Part} (hlast : place.getLast? = some name)
    (hdata : IsDataPart name) :
    isPagePlace place = false := by
  rw [isPagePlace, hlast, Option.any_some]
  exact decide_eq_false hdata.not_isPageName

/-- No page and no temporary file is on the way to a page. -/
theorem Site.off_way (h : b.Site base) {extension : String} (hextension : IsPageExtension extension)
    (hmem : names ∈ b.files) (hmem' : names' ∈ b.files) : ¬ b.Way names' (b.spot ++ sibling extension names) := by
  obtain ⟨dirs, name, -, hsibling, -, -, hpage⟩ := isName_sibling (h.isDataFile hmem) hextension
  have hlast : name ∈ sibling extension names := by rw [hsibling]; simp
  rintro (⟨hgrounded, hmissing, hmade⟩ | ⟨below, hne, hbelow, heq⟩)
  · rcases b.grown_ground.entries (b.spot ++ sibling extension names) with hsame | ⟨habove, -⟩
    · cases (hsame.symm.trans hmade).symm.trans hmissing
    · exact (h.room (h.ground hgrounded).1).through _ habove name hlast hpage
  · rw [List.append_cancel_left heq] at hlast
    exact h.below below (h.spans hmem' below hne hbelow) name hlast hpage

end

end Build

end CoveragePages
