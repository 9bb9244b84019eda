/-
Interleavings of a build. Whatever the order in which pages take their turns, the disk has what the
stages of the pages say, and elsewhere what it had at the start (`Progress`). A page reads and enters
nothing that another page changes, so its changes go well exactly if the disk at the start allows them.
The first page whose directory is made makes the output directory too; until then nothing is changed at all.
The induction is on the schedule; once all pages are done, nothing of it is left to see.
-/
import CoveragePages.Proofs.Report.Stages
import Mathlib.Data.List.Nodup

namespace CoveragePages

open CoveragePages.Path

namespace Build

variable (b : Build)

/-- A page that loads and has begun to change the disk. -/
def Begun (names : Location) (stage : Stage) : Prop :=
  (∃ result, b.document names = .ok result) ∧ stage ≠ .waiting ∧ stage ≠ .loaded

/-- A build where each page has come to some stage. -/
structure Progress (w : Workers (Except Failure ApplyReport)) (stages : Location → Stage) : Prop where
  processes : w.processes = b.files.map fun names => b.process names (stages names)
  current : w.disk.current = b.disk.current
  closed : w.disk.closed = b.disk.closed
  linked : ∀ v v', w.disk.Linked v v' ↔ b.disk.Linked v v' ∧
    ∀ names ∈ b.files, ¬ b.Replaced names (stages names) v ∧ ¬ b.Replaced names (stages names) v'
  start : (∀ names ∈ b.files, ¬ b.Begun names (stages names)) → w.disk = b.disk
  marked : ∀ names ∈ b.files, ∀ n e, b.Marked names (stages names) n e → w.disk.get? n = e
  kept : ∀ n, (∀ names ∈ b.files, ∀ e, ¬ b.Marked names (stages names) n e) → w.disk.get? n = b.disk.get? n
  allowed : ∀ names ∈ b.files, ∀ result, b.document names = .ok result → b.Allows names (stages names)

section

variable {b} {base names : Location} {w : Workers (Except Failure ApplyReport)} {stages : Location → Stage}
  {n : Location} {e : Option Entry} {stage : Stage} {document : String} {report : ApplyReport}

/-! ## What pages leave alone -/

theorem Begun.way (h : b.Begun names stage) (hn : b.Way names n) : b.Marked names stage n (some .directory) := by
  obtain ⟨⟨⟨document, report⟩, hloads⟩, hwaiting, hloaded⟩ := h
  have hhoused : b.Marked names .housed n (some .directory) := (marked_housed hloads).2 ⟨hn, rfl⟩
  cases stage with
  | waiting => exact absurd rfl hwaiting
  | loaded => exact absurd rfl hloaded
  | housed => exact hhoused
  | drafted => exact (marked_drafted hloads).2 (.inr ⟨hn, rfl⟩)
  | published => exact (marked_published hloads).2 (.inr (.inr ⟨hn, rfl⟩))

theorem Begun.canHouse (h : b.Begun names stage)
    (hallows : ∀ result, b.document names = .ok result → b.Allows names stage) : b.CanHouse names := by
  obtain ⟨⟨result, hloads⟩, hwaiting, hloaded⟩ := h
  have hallows := hallows result hloads
  cases stage with
  | waiting => exact absurd rfl hwaiting
  | loaded => exact absurd rfl hloaded
  | housed => exact hallows
  | drafted | published => exact hallows.1

/-- The names on the way to a page whose directory can be made are missing or directories. -/
theorem Site.way_open (site : b.Site base) (hmem : names ∈ b.files) (hcan : b.CanHouse names) (hn : b.Way names n) :
    b.disk.Open n := by
  rcases hn with ⟨-, hmissing, -⟩ | ⟨below, hne, hbelow, rfl⟩
  · exact .inl hmissing
  · exact ((site.perform_home_start hmem).1 hcan).2.2 below hne hbelow

/-- What is marked was free at the start: nothing or a directory on the way, and no directory at a place. -/
theorem Site.marked_free (site : b.Site base) (hmem : names ∈ b.files)
    (hallows : ∀ result, b.document names = .ok result → b.Allows names stage) (h : b.Marked names stage n e) :
    (b.Way names n ∧ e = some .directory ∧ b.disk.Open n) ∨
      (n = b.draft names ∨ n = b.place names) ∧ b.disk.get? n ≠ some .directory := by
  cases hdocument : b.document names with
  | error f => exact absurd h (not_marked_failed hdocument)
  | ok result =>
    have hallows := hallows _ hdocument
    cases stage with
    | waiting => exact absurd h not_marked_waiting
    | loaded => exact absurd h not_marked_loaded
    | housed =>
      obtain ⟨hway, he⟩ := (marked_housed hdocument).1 h
      exact .inl ⟨hway, he, site.way_open hmem hallows hway⟩
    | drafted =>
      rcases (marked_drafted hdocument).1 h with ⟨hn, -⟩ | ⟨hway, he⟩
      · exact .inr ⟨.inl hn, hn ▸ hallows.2.2⟩
      · exact .inl ⟨hway, he, site.way_open hmem hallows.1 hway⟩
    | published =>
      rcases (marked_published hdocument).1 h with ⟨hn, -⟩ | ⟨hn, -⟩ | ⟨hway, he⟩
      · exact .inr ⟨.inl hn, hn ▸ hallows.2.1.2⟩
      · exact .inr ⟨.inr hn, hn ▸ hallows.2.2.2⟩
      · exact .inl ⟨hway, he, site.way_open hmem hallows.1 hway⟩

/-- A name that is marked by no page, or by one. -/
theorem Progress.cases (h : b.Progress w stages) (n : Location) :
    w.disk.get? n = b.disk.get? n ∨ ∃ names ∈ b.files, ∃ e, b.Marked names (stages names) n e ∧ w.disk.get? n = e := by
  by_cases hmarked : ∃ names ∈ b.files, ∃ e, b.Marked names (stages names) n e
  · obtain ⟨names, hmem, e, hmark⟩ := hmarked
    exact .inr ⟨names, hmem, e, hmark, h.marked names hmem n e hmark⟩
  · exact .inl (h.kept n fun names hmem e hmark => hmarked ⟨names, hmem, e, hmark⟩)

section

variable (site : b.Site base) (h : b.Progress w stages)

include site h

/-- A name is as it was at the start, or a directory that could be entered, or a place of a page. -/
theorem Progress.entry (n : Location) : w.disk.get? n = b.disk.get? n ∨
    (∃ names ∈ b.files, b.Way names n ∧ w.disk.get? n = some .directory ∧ b.disk.Open n) ∨
      ∃ names ∈ b.files, (n = b.draft names ∨ n = b.place names) ∧ b.disk.get? n ≠ some .directory := by
  rcases h.cases n with hkept | ⟨names, hmem, e, hmark, hget⟩
  · exact .inl hkept
  · rcases site.marked_free hmem (h.allowed names hmem) hmark with ⟨hway, he, hopen⟩ | hplace
    · exact .inr (.inl ⟨names, hmem, hway, hget.trans he, hopen⟩)
    · exact .inr (.inr ⟨names, hmem, hplace⟩)

/-- Directories stay. -/
theorem Progress.directory (hget : b.disk.get? n = some .directory) : w.disk.get? n = some .directory := by
  rcases h.entry site n with hkept | ⟨_, _, _, hdirectory, _⟩ | ⟨_, _, _, hfree⟩
  · rw [hkept, hget]
  · exact hdirectory
  · exact absurd hget hfree

/-- What is neither missing nor a directory stays, but for the places of pages. -/
theorem Progress.stays {entry : Entry} (hget : b.disk.get? n = some entry) (hne : entry ≠ .directory)
    (hpage : isPagePlace n = false) : w.disk.get? n = some entry := by
  rcases h.entry site n with hkept | ⟨_, _, _, _, hopen⟩ | ⟨names, hmem, hplace, -⟩
  · rw [hkept, hget]
  · rcases hopen with hmissing | hdirectory
    · cases hget.symm.trans hmissing
    · exact absurd (Option.some.inj (hget.symm.trans hdirectory)) hne
  · have hfile := site.isDataFile hmem
    rcases hplace with rfl | rfl
    · cases (isPagePlace_sibling hfile (.inr rfl)).symm.trans hpage
    · cases (isPagePlace_sibling hfile (.inl rfl)).symm.trans hpage

theorem Progress.within : (b.disk.look.past isPagePlace).Within (w.disk.look.past isPagePlace) :=
  Disk.past_within_of (fun _ hget => h.directory site hget) fun _ _ hpage hget => h.stays site hget nofun hpage

/-- A page reads its data file as it was at the start. -/
theorem Progress.readFile (hmem : names ∈ b.files) :
    w.disk.readFile (b.data names) = b.disk.readFile (b.data names) := by
  have hspans := site.spans hmem
  obtain ⟨-, henter⟩ := site.arrives_directory
  obtain ⟨⟨content, hcontent⟩, -, ⟨last, hlast, hdata⟩, -⟩ := site.mem_files.1 hmem
  obtain ⟨dirs, name, rfl, hdirs, hname, -⟩ := (site.isDataFile hmem).cases
  rw [List.dropLast_concat] at hspans
  rw [List.getLast?_concat] at hlast
  obtain rfl := Option.some.inj hlast
  have hpage : isPagePlace (base ++ (dirs ++ [name])) = false :=
    not_isPagePlace (by rw [← List.append_assoc, List.getLast?_concat]) hdata
  have hcontent' := h.stays site hcontent nofun hpage
  have harrives : b.disk.Arrives b.directory base := Disk.arrives_of_past isPagePlace henter
  have harrives' : w.disk.Arrives b.directory base := by
    apply Disk.arrives_of_past isPagePlace
    rw [h.current]
    exact Look.enter_mono (h.within site) henter
  have hspans' : w.disk.Spans base dirs := fun below hne hbelow => h.directory site (hspans below hne hbelow)
  have hlocate := Disk.locate_below hdirs harrives hname hspans true fun _ target htarget => by
    cases hcontent.symm.trans htarget
  have hlocate' := Disk.locate_below hdirs harrives' hname hspans' true fun _ target htarget => by
    cases hcontent'.symm.trans htarget
  refine Disk.readFile_congr (hlocate'.trans hlocate.symm) fun above last slash hfound => ?_
  obtain ⟨-, hspot⟩ := (Disk.locate_below_ok hdirs harrives hname hspans true fun _ target htarget => by
    cases hcontent.symm.trans htarget).1 hfound
  cases hspot
  rw [List.append_assoc, hcontent, hcontent']

/-! ## When changes go well -/

/-- Once a page has begun, the output directory is there. -/
theorem Progress.ready (hmem : names ∈ b.files) (hbegun : b.Begun names (stages names)) :
    b.Grounded ∧ b.Ready w.disk := by
  have hgrounded := ((site.perform_home_start hmem).1 (hbegun.canHouse (h.allowed names hmem))).1
  have hmade : ∀ v, b.disk.get? v = none → b.ground.get? v = some .directory → w.disk.get? v = some .directory :=
    fun v hmissing hmade => h.marked names hmem v _ (hbegun.way (.inl ⟨hgrounded, hmissing, hmade⟩))
  refine ⟨hgrounded, ?_, hmade⟩
  apply Disk.arrives_of_past isPagePlace
  rw [h.current]
  refine Look.enter_mono (Disk.past_within_of (fun v hget => ?_) fun v target hpage hget => ?_)
    (site.ground hgrounded).2.2
  · rcases b.grown_ground.entries v with hsame | ⟨-, hmissing, hdirectory⟩
    · exact h.directory site (hsame ▸ hget)
    · exact hmade v hmissing hdirectory
  · exact h.stays site (b.grown_ground.link.1 hget) nofun hpage

section

variable (hmem : names ∈ b.files)

include hmem

/-- A name on the way to a page is as it was at the start, or a directory that could be entered then. -/
theorem Progress.entry_way (hn : b.Way names n) : w.disk.get? n = b.disk.get? n ∨
    w.disk.get? n = some .directory ∧ b.disk.Open n := by
  rcases h.entry site n with hkept | ⟨_, _, _, hdirectory, hopen⟩ | ⟨names', hmem', hplace | hplace, -⟩
  · exact .inl hkept
  · exact .inr ⟨hdirectory, hopen⟩
  · subst hplace
    exact absurd hn (site.off_way (.inr rfl) hmem' hmem)
  · subst hplace
    exact absurd hn (site.off_way (.inl rfl) hmem' hmem)

theorem Progress.open_iff (hn : b.Way names n) : w.disk.Open n ↔ b.disk.Open n := by
  rcases h.entry_way site hmem hn with hkept | ⟨hdirectory, hopen⟩
  · rw [Disk.Open, hkept, Disk.Open]
  · exact ⟨fun _ => hopen, fun _ => .inr hdirectory⟩

theorem Progress.linkless (hleads : b.Leads) : ∀ below, below ≠ [] → below <+: names.dropLast →
    ∀ target, w.disk.get? (b.spot ++ below) ≠ some (.link target) := by
  intro below hne hbelow target hlink
  rcases h.entry_way site hmem (.inr ⟨below, hne, hbelow, rfl⟩) with hkept | ⟨hdirectory, -⟩
  · exact (site.room hleads).linkless names hmem below hne hbelow target (hkept ▸ hlink)
  · cases hdirectory.symm.trans hlink

/-- The directory of a page can be made now exactly if it could be at the start. -/
theorem Progress.perform_home : (w.disk.perform (.createDirectories (b.home names))).2 = .ok () ↔ b.CanHouse names := by
  by_cases hbegun : ∃ names' ∈ b.files, b.Begun names' (stages names')
  · obtain ⟨names', hmem', hbegun⟩ := hbegun
    obtain ⟨hgrounded, hready⟩ := h.ready site hmem' hbegun
    rw [(site.perform_home hmem hgrounded hready (h.linkless site hmem (site.ground hgrounded).1)).1, CanHouse,
      site.perform_home_start hmem]
    have hopen : ∀ below, below ≠ [] → below <+: names.dropLast →
        (w.disk.Open (b.spot ++ below) ↔ b.disk.Open (b.spot ++ below)) := fun below hne hbelow =>
      h.open_iff site hmem (.inr ⟨below, hne, hbelow, rfl⟩)
    constructor
    · rintro ⟨hfits, hnow⟩
      exact ⟨hgrounded, hfits, fun below hne hbelow => (hopen below hne hbelow).1 (hnow below hne hbelow)⟩
    · rintro ⟨-, hfits, hstart⟩
      exact ⟨hfits, fun below hne hbelow => (hopen below hne hbelow).2 (hstart below hne hbelow)⟩
  · rw [h.start fun names' hmem' hbegun' => hbegun ⟨names', hmem', hbegun'⟩, CanHouse]

/-- Once a page has begun, its directory is there, and so is every directory on the way. -/
theorem Progress.houses (hbegun : b.Begun names (stages names)) :
    b.Leads ∧ b.Houses names w.disk ∧ ∀ v, b.Way names v → w.disk.get? v = some .directory := by
  obtain ⟨hgrounded, hready⟩ := h.ready site hmem hbegun
  have hway : ∀ v, b.Way names v → w.disk.get? v = some .directory := fun v hv =>
    h.marked names hmem v _ (hbegun.way hv)
  exact ⟨(site.ground hgrounded).1, ⟨hready.arrives, fun below hne hbelow => hway _ (.inr ⟨below, hne, hbelow, rfl⟩)⟩,
    hway⟩

theorem Progress.sole (hleads : b.Leads) : w.disk.Sole (b.draft names) :=
  Disk.sole_iff.2 fun hlinked =>
    Disk.sole_iff.1 ((site.room hleads).drafts names hmem).sole ((h.linked _ _).1 hlinked).1

variable (hloads : b.document names = .ok (document, report))

include hloads

/-- Before a document is written, its place has what it had at the start. -/
theorem Progress.get?_draft (hstage : stages names = .housed) :
    w.disk.get? (b.draft names) = b.disk.get? (b.draft names) := by
  apply h.kept
  intro names' hmem' e
  by_cases hne : names = names'
  · rw [← hne, hstage, marked_housed hloads]
    exact fun hmark => site.off_way (.inr rfl) hmem hmem hmark.1
  · exact draft_unmarked site hmem hmem' hne

/-- Before a page is put in its place, the place has what it had at the start. -/
theorem Progress.get?_place (hstage : stages names = .drafted) :
    w.disk.get? (b.place names) = b.disk.get? (b.place names) := by
  have hfile := site.isDataFile hmem
  apply h.kept
  intro names' hmem' e
  by_cases hne : names = names'
  · rw [← hne, hstage, marked_drafted hloads]
    rintro (hmark | hmark)
    · exact draft_ne_place hfile hfile hmark.1.symm
    · exact site.off_way (.inl rfl) hmem hmem hmark.1
  · exact place_unmarked site hmem hmem' hne

/-- A document that is to be written is written to a file of its own. -/
theorem Progress.plain (hstage : stages names = .housed) (hleads : b.Leads) : w.disk.Plain (b.draft names) := by
  have hplain := (site.room hleads).drafts names hmem
  have hsame := h.get?_draft site hmem hloads hstage
  exact ⟨h.sole site hmem hleads, fun target => hsame ▸ hplain.no_link target, hsame ▸ hplain.no_device⟩

/-- The directory of a page that is loaded is made exactly if the disk at the start allows it. -/
theorem Progress.perform_loaded :
    ((w.disk.perform (.createDirectories (b.home names))).2 = .ok () ↔ b.Allows names .housed) ∧
      ((w.disk.perform (.createDirectories (b.home names))).2 = .ok () →
        b.Advances names .housed w.disk (w.disk.perform (.createDirectories (b.home names))).1) := by
  refine ⟨h.perform_home site hmem, fun hok => advances_housed site hmem hloads ?_ hok⟩
  by_cases hany : ∃ names' ∈ b.files, b.Begun names' (stages names')
  · obtain ⟨names', hmem', hbegun'⟩ := hany
    obtain ⟨hgrounded, hready⟩ := h.ready site hmem' hbegun'
    exact .inr ⟨hgrounded, hready, h.linkless site hmem (site.ground hgrounded).1⟩
  · exact .inl (h.start fun names' hmem' hbegun' => hany ⟨names', hmem', hbegun'⟩)

/-- The document of a page whose directory is there is written exactly if the disk at the start allows it. -/
theorem Progress.perform_housed (hstage : stages names = .housed) :
    ((w.disk.perform (.write (b.temporary names) document.toUTF8)).2 = .ok () ↔ b.Allows names .drafted) ∧
      ((w.disk.perform (.write (b.temporary names) document.toUTF8)).2 = .ok () →
        b.Advances names .drafted w.disk (w.disk.perform (.write (b.temporary names) document.toUTF8)).1) := by
  have hfile := site.isDataFile hmem
  have hallowed := h.allowed names hmem _ hloads
  obtain ⟨hleads, hhouse, hway⟩ :=
    h.houses site hmem ⟨⟨_, hloads⟩, by rw [hstage]; exact nofun, by rw [hstage]; exact nofun⟩
  have hplain := h.plain site hmem hloads hstage hleads
  have hdraft := h.get?_draft site hmem hloads hstage
  rw [hstage] at hallowed
  constructor
  · rw [Disk.perform_snd]
    constructor
    · rintro ⟨disk', hok⟩
      obtain ⟨hfits, hfree, -⟩ := (perform_draft hfile hhouse hplain).1 hok
      exact ⟨hallowed, hfits, hdraft ▸ hfree⟩
    · rintro ⟨-, hfits, hfree⟩
      exact ⟨_, (perform_draft hfile hhouse hplain).2 ⟨hfits, hdraft ▸ hfree, rfl⟩⟩
  · exact fun hok => advances_drafted site hmem hloads hhouse hplain hway (Prod.ext rfl hok)

/-- A document that is written is put in its place exactly if the disk at the start allows it. -/
theorem Progress.perform_drafted (hstage : stages names = .drafted) :
    ((w.disk.perform (.rename (b.temporary names) (b.out names))).2 = .ok () ↔ b.Allows names .published) ∧
      ((w.disk.perform (.rename (b.temporary names) (b.out names))).2 = .ok () →
        b.Advances names .published w.disk (w.disk.perform (.rename (b.temporary names) (b.out names))).1) := by
  have hfile := site.isDataFile hmem
  have hallowed := h.allowed names hmem _ hloads
  have hmarked := h.marked names hmem
  obtain ⟨hleads, hhouse, hway⟩ :=
    h.houses site hmem ⟨⟨_, hloads⟩, by rw [hstage]; exact nofun, by rw [hstage]; exact nofun⟩
  rw [hstage] at hallowed hmarked
  have hdraft := hmarked _ _ ((marked_drafted hloads).2 (.inl ⟨rfl, rfl⟩))
  have hplace := h.get?_place site hmem hloads hstage
  constructor
  · rw [Disk.perform_snd]
    constructor
    · rintro ⟨disk', hok⟩
      obtain ⟨⟨-, hfits⟩, hfree, -⟩ := (perform_publish hfile hhouse hdraft).1 hok
      exact ⟨hallowed.1, hallowed.2, hfits, hplace ▸ hfree⟩
    · rintro ⟨-, hcan, hfits, hfree⟩
      exact ⟨_, (perform_publish hfile hhouse hdraft).2 ⟨⟨hcan.1, hfits⟩, hplace ▸ hfree, rfl⟩⟩
  · exact fun hok =>
      advances_published site hmem hloads hhouse (h.sole site hmem hleads) hway hdraft (Prod.ext rfl hok)

/-- A change goes well exactly if the disk at the start allows the stage after it; then it brings the page to
this stage. -/
theorem Progress.perform_ok {step : FileStep} (hstep : b.change names document (stages names) = some step) :
    ((w.disk.perform step).2 = .ok () ↔ b.Allows names (stages names).next) ∧
      ((w.disk.perform step).2 = .ok () → b.Advances names (stages names).next w.disk (w.disk.perform step).1) := by
  cases hstage : stages names with
  | waiting | published =>
    rw [hstage] at hstep
    cases hstep
  | loaded =>
    rw [hstage] at hstep
    cases hstep
    exact h.perform_loaded site hmem hloads
  | housed =>
    rw [hstage] at hstep
    cases hstep
    exact h.perform_housed site hmem hloads hstage
  | drafted =>
    rw [hstage] at hstep
    cases hstep
    exact h.perform_drafted site hmem hloads hstage

end

end

/-! ## Turns -/

theorem map_update_of_get {α β : Type} [DecidableEq α] {l : List α} (hl : l.Nodup) {i : Nat} {x : α}
    (hx : l[i]? = some x) (f : α → β) (y : β) : l.map (Function.update f x y) = (l.map f).set i y := by
  obtain ⟨hlt, hget⟩ := List.getElem?_eq_some_iff.1 hx
  have hindex : l.idxOf x = i := by rw [← hget, hl.idxOf_getElem]
  rw [hl.map_update, if_pos (hget ▸ List.getElem_mem hlt), hindex]

section

variable (site : b.Site base) (h : b.Progress w stages) {i : Nat}
  (hi : b.files[i]? = some names)

include site h

/-- The turn of a page brings it to its next stage. -/
theorem Progress.turn_page (hmem : names ∈ b.files)
    (hgoes : ∀ step next, b.process names (stages names) = .ask (.perform step) next →
      (w.disk.perform step).2 = .ok ()) :
    ∃ disk', (b.process names (stages names)).turn w.disk = (b.process names (stages names).next, disk') ∧
      b.Advances names (stages names).next w.disk disk' ∧
        (¬ b.Begun names (stages names).next → disk' = w.disk) ∧
          ∀ result, b.document names = .ok result → b.Allows names (stages names).next := by
  by_cases hwaiting : stages names = .waiting
  · rw [hwaiting]
    have hloaded : Stage.loaded ≠ .published := nofun
    refine ⟨w.disk, turn_waiting (h.readFile site hmem), ?_, fun _ => rfl, fun _ _ => trivial⟩
    exact advances_self (fun _ _ _ => ⟨not_replaced hloaded, not_replaced hloaded⟩) fun n e hmark =>
      absurd hmark not_marked_loaded
  · have hnext : (stages names).next ≠ .waiting := by cases stages names <;> exact nofun
    cases hdocument : b.document names with
    | error f =>
      have hfailed : ∀ stage v, ¬ b.Replaced names stage v := by
        rintro stage v ⟨⟨result, hresult⟩, -⟩
        cases hdocument.symm.trans hresult
      refine ⟨w.disk, ?_, ?_, fun _ => rfl, fun _ hresult => (by cases hresult)⟩
      · rw [process_failed hdocument hwaiting, process_failed hdocument hnext]
        rfl
      · exact advances_self (fun v v' _ => ⟨hfailed _ v, hfailed _ v'⟩) fun n e hmark =>
          absurd hmark (not_marked_failed hdocument)
    | ok result =>
      cases hchange : b.change names result.1 (stages names) with
      | some step =>
        obtain ⟨next, hask, hprocess⟩ := process_change (site.isDataFile hmem) hdocument hchange
        have hok := hgoes step next hask
        obtain ⟨hallows, hadvances⟩ := h.perform_ok site hmem hdocument hchange
        refine ⟨(w.disk.perform step).1, ?_, hadvances hok, fun hbegun => ?_, fun _ _ => hallows.1 hok⟩
        · rw [hask]
          show (next (w.disk.perform step).2, (w.disk.perform step).1) = _
          rw [hok, hprocess]
        · -- a page that has made a change has begun
          refine absurd ⟨⟨result, hdocument⟩, hnext, ?_⟩ hbegun
          cases hstage : stages names with
          | waiting => exact absurd hstage hwaiting
          | loaded | housed | drafted | published => exact nofun
      | none =>
        -- a page that is published is done, and its turn does nothing
        have hstage := published_of_no_change hchange hwaiting
        have hlinked := fun v v' hlinked => ((h.linked v v').1 hlinked).2 names hmem
        have hmarked := h.marked names hmem
        have hallowed := h.allowed names hmem result hdocument
        rw [hstage] at hmarked hallowed hlinked ⊢
        refine ⟨w.disk, ?_, advances_self hlinked hmarked, fun _ => rfl, fun _ _ => hallowed⟩
        rw [Stage.next, process_published (site.isDataFile hmem) hdocument]
        rfl

omit site h in
theorem Begun.next (hbegun : b.Begun names stage) : b.Begun names stage.next := by
  obtain ⟨hloads, hwaiting, hloaded⟩ := hbegun
  refine ⟨hloads, ?_⟩
  cases stage with
  | waiting => exact absurd rfl hwaiting
  | loaded => exact absurd rfl hloaded
  | housed | drafted | published => exact ⟨nofun, nofun⟩

omit site h in
theorem Replaced.next {v : Location} (hreplaced : b.Replaced names stage v) : b.Replaced names stage.next v := by
  obtain ⟨hloads, rfl, hv⟩ := hreplaced
  exact ⟨hloads, rfl, hv⟩

omit site h in
/-- When one page comes to its next stage, what then holds of all pages holds of this one there, and of all
pages before, if it passes back from this stage to the one before. -/
theorem forall_next (stages : Location → Stage) (P : Location → Stage → Prop) (hmem : names ∈ b.files)
    (hback : P names (stages names).next → P names (stages names)) :
    (∀ names' ∈ b.files, P names' (Function.update stages names (stages names).next names')) ↔
      (∀ names' ∈ b.files, P names' (stages names')) ∧ P names (stages names).next := by
  rw [Function.forall_update_iff stages fun names' stage => names' ∈ b.files → P names' stage]
  constructor
  · rintro ⟨hown, hothers⟩
    refine ⟨fun names' hmem' => ?_, hown hmem⟩
    by_cases hne : names' = names
    · exact hne ▸ hback (hown hmem)
    · exact hothers names' hne hmem'
  · rintro ⟨hall, hown⟩
    exact ⟨fun _ => hown, fun names' _ => hall names'⟩

include hi

theorem Progress.advance {disk' : Disk} (hadvances : b.Advances names (stages names).next w.disk disk')
    (hstart : ¬ b.Begun names (stages names).next → disk' = w.disk)
    (hallows : ∀ result, b.document names = .ok result → b.Allows names (stages names).next) :
    b.Progress ⟨disk', w.processes.set i (b.process names (stages names).next)⟩
      (Function.update stages names (stages names).next) := by
  have hmem : names ∈ b.files := List.mem_of_getElem? hi
  refine ⟨?processes, hadvances.current.trans h.current, hadvances.closed.trans h.closed, ?linked, ?start, ?marked,
    ?kept, ?allowed⟩
  case processes =>
    have hnodup : b.files.Nodup := site.nodup_files
    show w.processes.set i _ = _
    rw [h.processes, ← map_update_of_get hnodup hi]
    refine List.map_congr_left fun names' _ => ?_
    exact (Function.apply_update (fun names => b.process names) stages names _ names').symm
  case linked =>
    intro v v'
    rw [hadvances.linked, h.linked, and_assoc]
    refine and_congr_right fun _ => Iff.symm ?_
    exact forall_next stages (fun names' stage => ¬ b.Replaced names' stage v ∧ ¬ b.Replaced names' stage v') hmem
      (And.imp (mt Replaced.next) (mt Replaced.next))
  case start =>
    intro hnone
    obtain ⟨hbefore, hown⟩ := (forall_next stages (¬ b.Begun · ·) hmem (mt Begun.next)).1 hnone
    exact (hstart hown).trans (h.start hbefore)
  case marked =>
    intro names' hmem' n e hmark
    by_cases hne : names = names'
    · rw [← hne, Function.update_self] at hmark
      exact hadvances.marked n e hmark
    · rw [Function.update_of_ne (Ne.symm hne)] at hmark
      -- the turn may put the entry there once more, but no other one
      by_cases hboth : ∃ e', b.Marked names (stages names).next n e'
      · obtain ⟨e', hmark'⟩ := hboth
        rw [hadvances.marked n e' hmark', marked_agree site hmem hmem' hne hmark' hmark]
      · rw [hadvances.kept n fun e' hmark' => hboth ⟨e', hmark'⟩, h.marked names' hmem' n e hmark]
  case kept =>
    intro n hfree
    -- what is free now was free before the turn
    have hback : (∀ e, ¬ b.Marked names (stages names).next n e) → ∀ e, ¬ b.Marked names (stages names) n e := by
      intro hown e hmark
      obtain ⟨e', hmark'⟩ := marked_next hmark
      exact hown e' hmark'
    obtain ⟨hbefore, hown⟩ :=
      (forall_next stages (fun names' stage => ∀ e, ¬ b.Marked names' stage n e) hmem hback).1 hfree
    exact (hadvances.kept n hown).trans (h.kept n hbefore)
  case allowed =>
    intro names' hmem' result hloads
    by_cases hne : names = names'
    · rw [← hne] at hloads ⊢
      rw [Function.update_self]
      exact hallows result hloads
    · rw [Function.update_of_ne (Ne.symm hne)]
      exact h.allowed names' hmem' result hloads

end

/-! ## Runs -/

section

variable (site : b.Site base)

include site

theorem Progress.turn (h : b.Progress w stages) {i : Nat} (hgoes : w.ChangeGoesWell i) :
    ∃ stages', b.Progress (w.turn i) stages' := by
  rw [Workers.turn]
  cases hi : b.files[i]? with
  | none =>
    have hprocess : w.processes[i]? = none := by rw [h.processes, List.getElem?_map, hi]; rfl
    rw [hprocess]
    exact ⟨stages, h⟩
  | some names =>
    have hprocess : w.processes[i]? = some (b.process names (stages names)) := by
      rw [h.processes, List.getElem?_map, hi]
      rfl
    obtain ⟨disk', hturn, hadvances, hstart, hallows⟩ := h.turn_page site (List.mem_of_getElem? hi)
      fun step next hask => hgoes step next (by rw [hprocess, hask])
    rw [hprocess]
    simp only [hturn]
    exact ⟨_, h.advance site hi hadvances hstart hallows⟩

/-- After any schedule whose changes go well each page has come to some stage. -/
theorem Progress.run (schedule : List Nat) : ∀ {w : Workers (Except Failure ApplyReport)}
    {stages : Location → Stage},
    b.Progress w stages → w.GoesWell schedule → ∃ stages', b.Progress (w.run schedule) stages' := by
  induction schedule with
  | nil => exact fun h _ => ⟨_, h⟩
  | cons i rest ih =>
    intro w stages h hgoes
    obtain ⟨stages', h'⟩ := h.turn site hgoes.1
    exact ih h' hgoes.2

end

section

variable (site : b.Site base)

include site

/-- When all pages are done, those that load are published. -/
theorem Progress.published (h : b.Progress w stages) (hdone : w.AllDone) (hmem : names ∈ b.files)
    (hloads : b.document names = .ok (document, report)) : stages names = .published := by
  have hprocess : b.process names (stages names) ∈ w.processes := by
    rw [h.processes]
    exact List.mem_map_of_mem hmem
  obtain ⟨result, hresult⟩ := hdone _ hprocess
  cases hchange : b.change names document (stages names) with
  | some step =>
    obtain ⟨next, hask, -⟩ := process_change (site.isDataFile hmem) hloads hchange
    rw [hask] at hresult
    cases hresult
  | none =>
    refine published_of_no_change hchange fun hwaiting => ?_
    rw [hwaiting, process, page, pageProcess_eq] at hresult
    cases hresult

end

end

/-! ## Built disks -/

/-- The result of a page: the report on its document, or why there is none. -/
def result (names : Location) : Except Failure ApplyReport := (b.document names).map Prod.snd

/-- A disk where the build is done: every page that loads has its document in its place, as a file of its own,
and nothing else is changed but for the directories on the way. -/
structure Built (disk' : Disk) : Prop where
  current : disk'.current = b.disk.current
  closed : disk'.closed = b.disk.closed
  published : ∀ names ∈ b.files, ∀ document report, b.document names = .ok (document, report) →
    disk'.get? (b.place names) = some (.file document.toUTF8) ∧ disk'.get? (b.draft names) = none ∧
      disk'.readFile (b.out names) = .ok document.toUTF8
  housed : ∀ names ∈ b.files, ∀ result, b.document names = .ok result →
    ∀ v, b.Way names v → disk'.get? v = some .directory
  failed : ∀ names ∈ b.files, ∀ f, b.document names = .error f →
    disk'.get? (b.place names) = b.disk.get? (b.place names) ∧
      disk'.get? (b.draft names) = b.disk.get? (b.draft names)
  kept : ∀ n, (∀ names ∈ b.files, ∀ result, b.document names = .ok result →
    n ≠ b.place names ∧ n ≠ b.draft names ∧ ¬ b.Way names n) → disk'.get? n = b.disk.get? n
  linked : ∀ v v', disk'.Linked v v' ↔ b.disk.Linked v v' ∧ ∀ names ∈ b.files, ∀ result,
    b.document names = .ok result → v ≠ b.place names ∧ v' ≠ b.place names

section

variable {b} {base names : Location} {w : Workers (Except Failure ApplyReport)} {stages : Location → Stage}
    {disk disk' : Disk} {document : String} {report : ApplyReport}

variable (site : b.Site base) (h : b.Progress w stages) (hdone : w.AllDone)

include site h

theorem Progress.place_kept {f : Failure} (hmem : names ∈ b.files) (hfails : b.document names = .error f) :
    w.disk.get? (b.place names) = b.disk.get? (b.place names) ∧
      w.disk.get? (b.draft names) = b.disk.get? (b.draft names) := by
  have hunmarked : ∀ n, (∀ names' ∈ b.files, names ≠ names' → ∀ e, ¬ b.Marked names' (stages names') n e) →
      w.disk.get? n = b.disk.get? n := by
    intro n hother
    apply h.kept
    intro names' hmem' e
    by_cases hne : names = names'
    · exact hne ▸ not_marked_failed hfails
    · exact hother names' hmem' hne e
  exact ⟨hunmarked _ fun _ hmem' hne _ => place_unmarked site hmem hmem' hne,
    hunmarked _ fun _ hmem' hne _ => draft_unmarked site hmem hmem' hne⟩

/-- A page that is published is read at its path. -/
theorem Progress.readFile_out (hmem : names ∈ b.files) (hloads : b.document names = .ok (document, report))
    (hstage : stages names = .published) : w.disk.readFile (b.out names) = .ok document.toUTF8 := by
  have hfile := site.isDataFile hmem
  have hallowed := h.allowed names hmem _ hloads
  have hmarked := h.marked names hmem
  rw [hstage] at hallowed hmarked
  have hplace := hmarked _ _ ((marked_published hloads).2 (.inr (.inl ⟨rfl, rfl⟩)))
  have hbegun : b.Begun names (stages names) := hstage ▸ ⟨⟨_, hloads⟩, nofun, nofun⟩
  obtain ⟨above, last, heq, hlocate⟩ := (h.houses site hmem hbegun).2.1.locate hfile (.inl rfl) true
    fun _ target htarget => by cases hplace.symm.trans htarget
  rw [← out_eq hfile] at hlocate
  refine Disk.readFile_of_locate ((hlocate _).2 ⟨hallowed.2.2.1, rfl⟩) ?_
  rw [heq, Disk.content?, ← place, hplace]

include hdone

theorem Progress.results : w.processes = b.files.map fun names => .done (b.result names) := by
  rw [h.processes]
  apply List.map_congr_left
  intro names hmem
  cases hdocument : b.document names with
  | ok result =>
    rw [h.published site hdone hmem hdocument, process_published (site.isDataFile hmem) hdocument, Build.result,
      hdocument]
    rfl
  | error f =>
    have hwaiting : stages names ≠ .waiting := by
      intro hwaiting
      have hprocess : b.page names ∈ w.processes := by
        rw [h.processes]
        exact List.mem_map.2 ⟨names, hmem, by rw [hwaiting, process]⟩
      obtain ⟨result, hresult⟩ := hdone _ hprocess
      rw [page, pageProcess_eq] at hresult
      cases hresult
    rw [process_failed hdocument hwaiting, Build.result, hdocument]
    rfl

/-- When all pages are done, the build is. -/
theorem Progress.built : b.Built w.disk where
  current := h.current
  closed := h.closed
  published names hmem document report hloads := by
    have hstage := h.published site hdone hmem hloads
    have hmarked := h.marked names hmem
    rw [hstage] at hmarked
    exact ⟨hmarked _ _ ((marked_published hloads).2 (.inr (.inl ⟨rfl, rfl⟩))),
      hmarked _ _ ((marked_published hloads).2 (.inl ⟨rfl, rfl⟩)), h.readFile_out site hmem hloads hstage⟩
  housed names hmem result hloads v hv := by
    have hmarked := h.marked names hmem
    rw [h.published site hdone hmem hloads] at hmarked
    exact hmarked v _ ((marked_published hloads).2 (.inr (.inr ⟨hv, rfl⟩)))
  failed names hmem f hfails := h.place_kept site hmem hfails
  kept n hfree := by
    apply h.kept
    intro names hmem e hmark
    cases hdocument : b.document names with
    | error f => exact not_marked_failed hdocument hmark
    | ok result =>
      obtain ⟨hplace, hdraft, hway⟩ := hfree names hmem result hdocument
      rcases marked_cases hmark with ⟨hn, -⟩ | hn | hn
      · exact hway hn
      · exact hdraft hn
      · exact hplace hn
  linked v v' := by
    rw [h.linked]
    refine and_congr_right fun _ => forall₂_congr fun names hmem => ?_
    constructor
    · rintro ⟨hv, hv'⟩ ⟨document, report⟩ hloads
      rw [h.published site hdone hmem hloads] at hv hv'
      exact ⟨(replaced_published hloads).1 hv, (replaced_published hloads).1 hv'⟩
    · intro hall
      exact ⟨fun ⟨⟨result, hloads⟩, _, hv⟩ => (hall result hloads).1 hv,
        fun ⟨⟨result, hloads⟩, _, hv⟩ => (hall result hloads).2 hv⟩

end

end Build

end CoveragePages
