/-
Which settings file counts, and which limits. Loading only looks at the disk, so a load is described
by its answer as a function of the disk (`Task.Looks`). The answer for settings is a function of the
file that is chosen and of its text alone; the answer for a page is one of its context and of the first
item that is missing, where limits that are given stand for both percentages of the page.
-/
import CoveragePages.Proofs.Report.Loading

namespace CoveragePages

/-! ## Tasks that only look -/

namespace Task

variable {α β : Type}

/-- A task that leaves every disk as it is, with the answer that it has there. -/
def Looks (task : Task (StateM Disk) α) (answer : Disk → Except Failure α) : Prop :=
  ∀ disk : Disk, task.run disk = (answer disk, disk)

theorem Looks.pure (a : α) : Looks (Pure.pure a) fun _ => .ok a := fun _ => rfl

theorem Looks.bind {x : Task (StateM Disk) α} {f : α → Task (StateM Disk) β} {answer : Disk → Except Failure α}
    {rest : α → Disk → Except Failure β} (hx : x.Looks answer) (hf : ∀ a, (f a).Looks (rest a)) :
    (x >>= f).Looks fun disk => (answer disk).bind fun a => rest a disk := by
  intro disk
  rw [ExceptT.run_bind]
  simp only [Bind.bind, StateT.bind, hx disk]
  cases answer disk with
  | error e => rfl
  | ok a => exact hf a disk

theorem Looks.lift {ε : Type} (failure : ε → Failure) (x : Except ε α) :
    (Task.lift failure x).Looks fun _ => x.mapError failure := by
  intro disk
  cases x <;> rfl

theorem Looks.operation {operation : StateM Disk α} {answer : Disk → α}
    (h : ∀ disk : Disk, operation.run disk = (answer disk, disk)) :
      Looks (liftM operation) fun disk => .ok (answer disk) := by
  intro disk
  show (Except.ok (operation.run disk).1, (operation.run disk).2) = _
  rw [h]

theorem Reads.looks {task : Task (StateM Disk) α} {path : Path}
    {answer : Except FileError ByteArray → Except Failure α} (h : task.Reads path answer) :
    task.Looks fun disk => answer (disk.readFile path) := by
  intro disk
  rw [h]
  rfl

end Task

/-- The text of a file. -/
def Disk.textOf (disk : Disk) (path : Path) : Except FileError String := textIn (disk.readFile path)

/-! ## Settings -/

/-- What a text is as the settings of a file, or what is wrong with it. -/
def settingsIn (path : Path) (text : Except FileError String) : Except Failure Settings := do
  let text ← text.mapError fun e => (Failure.of (.file e)).within (.readingSettings path)
  let settings ← (Json.readText Settings.reader text).mapError fun e =>
    (Failure.of (.json e)).within (.parsingSettings path)
  let _ ← settings.check.mapError fun e => (Failure.ofSettings e).within (.checkingSettings path)
  return settings

theorem loadSettingsFile_reads {m : Type → Type} [Monad m] [LawfulMonad m] [FileStore m] (path : Path) :
    (loadSettingsFile path : Task m Settings).Reads path fun content => settingsIn path (textIn content) :=
  (readText_reads _ path).bind fun _ => Task.run_bind_pure (Task.run_lift _ _) fun _ =>
    Task.run_bind_pure (Task.run_lift _ _) fun _ => rfl

/-- The settings file of a run: the explicit one, or the first in the root directory that exists. -/
def Disk.settingsFile? (disk : Disk) (root : Path) (explicit : Option Path) : Option Path :=
  match explicit with
  | some path => some path
  | none =>
    if (disk.kind? (root.join (.ofText ".covreportrc.json"))).isSome then some (root.join (.ofText ".covreportrc.json"))
    else if (disk.kind? (root.join (.ofText "covreport.config.json"))).isSome then
      some (root.join (.ofText "covreport.config.json"))
    else none

theorem firstExisting_run (disk : Disk) : ∀ paths : List Path,
    (firstExisting paths : StateM Disk (Option Path)).run disk =
      (paths.find? fun path => (disk.kind? path).isSome, disk)
  | [] => rfl
  | path :: rest => by
    have hkind : (FileStore.kind? path : StateM Disk (Option EntryKind)).run disk = (disk.kind? path, disk) := rfl
    rw [firstExisting, StateT.run_bind, hkind, List.find?_cons]
    cases disk.kind? path with
    | some _ => rfl
    | none => exact firstExisting_run disk rest

theorem settingsFile_run (root : Path) (explicit : Option Path) (disk : Disk) :
    (settingsFile root explicit : StateM Disk (Option Path)).run disk = (disk.settingsFile? root explicit, disk) := by
  cases explicit with
  | some path => rfl
  | none =>
    rw [settingsFile, firstExisting_run, Disk.settingsFile?]
    simp only [settingsFileNames, List.map_cons, List.map_nil, List.find?_cons, List.find?_nil]
    cases (disk.kind? (root.join (.ofText ".covreportrc.json"))).isSome <;>
      cases (disk.kind? (root.join (.ofText "covreport.config.json"))).isSome <;> rfl

/-- The settings of a run, by their file and what its text is. -/
def settingsFrom (file : Option Path) (text : Path → Except FileError String) : Except Failure ResolvedSettings := do
  let settings ← match file with
    | some path => settingsIn path (text path)
    | none => pure {}
  let resolved ← settings.resolve.mapError Failure.ofSettings
  return { resolved with file := file.map (·.text) }

theorem loadSettings_looks (root : Path) (explicit : Option Path) :
    (loadSettings root explicit).Looks fun disk => settingsFrom (disk.settingsFile? root explicit) disk.textOf := by
  refine (Task.Looks.operation (settingsFile_run root explicit)).bind fun file =>
    (?_ : Task.Looks _ fun disk => settingsFrom file disk.textOf)
  cases file with
  | some path =>
    exact (loadSettingsFile_reads path).looks.bind fun settings => (Task.Looks.lift _ _).bind fun resolved => .pure _
  | none =>
    exact (Task.Looks.pure _).bind fun settings => (Task.Looks.lift _ _).bind fun resolved => .pure _

theorem mapError_ok {ε ε' α : Type} {x : Except ε α} {f : ε → ε'} {a : α} : x.mapError f = .ok a ↔ x = .ok a := by
  cases x <;> simp [Except.mapError]

theorem settingsIn_ok {path : Path} {text : Except FileError String} {settings : Settings} :
    settingsIn path text = .ok settings ↔
      ∃ read, text = .ok read ∧ Json.readText Settings.reader read = .ok settings ∧
        ∃ globs, settings.check = .ok globs := by
  constructor
  · intro h
    obtain ⟨read, hread, h⟩ := Json.bind_ok h
    obtain ⟨parsed, hparsed, h⟩ := Json.bind_ok h
    obtain ⟨globs, hglobs, h⟩ := Json.bind_ok h
    cases h
    exact ⟨read, mapError_ok.1 hread, mapError_ok.1 hparsed, globs, mapError_ok.1 hglobs⟩
  · rintro ⟨read, rfl, hparsed, globs, hglobs⟩
    simp only [settingsIn, Except.mapError, hparsed, hglobs, Bind.bind, Except.bind]
    rfl

/-- Settings that resolve are those that were written, with their globs read. -/
theorem Settings.resolve_ok {settings : Settings} {resolved : ResolvedSettings}
    (h : settings.resolve = .ok resolved) :
    settings.check = .ok resolved.exclude ∧
      resolved = ⟨settings.limits, settings.theme, settings.sortColumn, resolved.exclude, none⟩ := by
  obtain ⟨globs, hglobs, h⟩ := Json.bind_ok h
  obtain ⟨-, -, h⟩ := Json.bind_ok h
  cases h
  exact ⟨hglobs, rfl⟩

theorem settingsFrom_none (text : Path → Except FileError String) :
    settingsFrom none text = .ok ⟨none, none, none, [], none⟩ := by
  rfl

theorem settingsFrom_some {path : Path} {text : Path → Except FileError String} {resolved : ResolvedSettings} :
    settingsFrom (some path) text = .ok resolved ↔
      ∃ read settings, text path = .ok read ∧ Json.readText Settings.reader read = .ok settings ∧
        settings.resolve = .ok { resolved with file := none } ∧ resolved.file = some path.text := by
  constructor
  · intro h
    obtain ⟨settings, hsettings, h⟩ := Json.bind_ok h
    obtain ⟨accepted, haccepted, h⟩ := Json.bind_ok h
    obtain ⟨read, hread, hparsed, -⟩ := settingsIn_ok.1 hsettings
    have hresolve := mapError_ok.1 haccepted
    obtain ⟨-, hplain⟩ := Settings.resolve_ok hresolve
    cases h
    refine ⟨read, settings, hread, hparsed, ?_, rfl⟩
    rw [hresolve, hplain]
  · rintro ⟨read, settings, hread, hparsed, hresolve, hfile⟩
    have hsettings : settingsIn path (text path) = .ok settings :=
      settingsIn_ok.2 ⟨read, hread, hparsed, _, (Settings.resolve_ok hresolve).1⟩
    simp only [settingsFrom, hsettings, hresolve, Except.mapError, Bind.bind, Except.bind, Option.map, ← hfile]
    rfl

/-! ## Items of a page -/

namespace PageData

/-- The pair of limits that a page has itself. -/
def pair? (page : PageData) : Option Limits := do return ⟨← page.percentLow, ← page.percentHigh⟩

/-- The page data under limits that replace its own, if there are any. -/
def under (page : PageData) : Option Limits → PageData
  | some limits => page.withLimits limits
  | none => page

/-- Whether a page has an item, where limits that are given stand for both percentages. -/
def supplies (page : PageData) (given : Option Limits) : Item → Bool
  | .header => page.header.isSome
  | .data => page.data.isSome
  | .mergedData => page.mergedData.isSome
  | .percentLow => given.isSome || page.percentLow.isSome
  | .percentHigh => given.isSome || page.percentHigh.isSome

/-- The items that a kind of page needs, in the order in which they are looked for. -/
def needed : PageKind → List Item
  | .index => [.header, .data, .mergedData, .percentLow, .percentHigh]
  | .source => [.header, .data, .percentLow, .percentHigh]

/-- The first item that a kind of page needs and a page has not. -/
def missing? (page : PageData) (given : Option Limits) (kind : PageKind) : Option Item :=
  (needed kind).find? fun item => !page.supplies given item

/-- Limits that are given count before the pair of the page, both numbers of it. -/
theorem limits_ok {page : PageData} {given : Option Limits} {limits : Limits} :
    (page.under given).limits = .ok limits ↔ given.or page.pair? = some limits := by
  cases given with
  | some given => exact ⟨fun h => by cases h; rfl, fun h => by cases h; rfl⟩
  | none =>
    obtain ⟨header, data, merged, _ | low, _ | high⟩ := page <;> constructor <;> intro h <;> cases h
    all_goals rfl

theorem indexContext_under (page : PageData) (given : Option Limits) (sort : SortIntent) :
    (page.under given).indexContext sort = do
      let header ← need .header page.header
      let main ← need .data page.data
      let merged ← need .mergedData page.mergedData
      let limits ← (page.under given).limits
      return ⟨header, ⟨.main, main⟩, ⟨.merged, merged⟩, limits, sort⟩ := by
  cases given <;> rfl

theorem sourceContext_under (page : PageData) (given : Option Limits) :
    (page.under given).sourceContext = do
      let header ← need .header page.header
      let source ← need .data page.data
      let limits ← (page.under given).limits
      return ⟨header, ⟨.source, source⟩, limits⟩ := by
  cases given <;> rfl

theorem indexContext_ok {page : PageData} {given : Option Limits} {sort : SortIntent} {ctx : IndexContext} :
    (page.under given).indexContext sort = .ok ctx ↔
      page.header = some ctx.header ∧ (∃ main, page.data = some main ∧ ctx.main = ⟨.main, main⟩) ∧
        (∃ merged, page.mergedData = some merged ∧ ctx.merged = ⟨.merged, merged⟩) ∧
        given.or page.pair? = some ctx.limits ∧ ctx.sort = sort := by
  rw [indexContext_under]
  constructor
  · intro h
    obtain ⟨header, hheader, h⟩ := Json.bind_ok h
    obtain ⟨main, hmain, h⟩ := Json.bind_ok h
    obtain ⟨merged, hmerged, h⟩ := Json.bind_ok h
    obtain ⟨limits, hlimits, h⟩ := Json.bind_ok h
    cases h
    exact ⟨need_ok hheader, ⟨main, need_ok hmain, rfl⟩, ⟨merged, need_ok hmerged, rfl⟩, limits_ok.1 hlimits, rfl⟩
  · obtain ⟨header, main, merged, limits, sort'⟩ := ctx
    rintro ⟨hheader, ⟨_, hmain, rfl⟩, ⟨_, hmerged, rfl⟩, hlimits, rfl⟩
    rw [hheader, hmain, hmerged, limits_ok.2 hlimits]
    rfl

theorem sourceContext_ok {page : PageData} {given : Option Limits} {ctx : SourceContext} :
    (page.under given).sourceContext = .ok ctx ↔
      page.header = some ctx.header ∧ (∃ source, page.data = some source ∧ ctx.source = ⟨.source, source⟩) ∧
        given.or page.pair? = some ctx.limits := by
  rw [sourceContext_under]
  constructor
  · intro h
    obtain ⟨header, hheader, h⟩ := Json.bind_ok h
    obtain ⟨source, hsource, h⟩ := Json.bind_ok h
    obtain ⟨limits, hlimits, h⟩ := Json.bind_ok h
    cases h
    exact ⟨need_ok hheader, ⟨source, need_ok hsource, rfl⟩, limits_ok.1 hlimits⟩
  · obtain ⟨header, source, limits⟩ := ctx
    rintro ⟨hheader, ⟨_, hsource, rfl⟩, hlimits⟩
    rw [hheader, hsource, limits_ok.2 hlimits]
    rfl

section

variable {α β : Type} {lacks : Item → Bool} {rest : List Item} {item first : Item}

/-- An item that is needed before others is the first that is missing, or leaves that to the others. -/
theorem need_error {x : Option α} {f : α → Except Item β} (hitem : lacks item = !x.isSome)
    (hrest : ∀ a, f a = .error first ↔ rest.find? lacks = some first) :
    (need item x >>= f) = .error first ↔ (item :: rest).find? lacks = some first := by
  rw [List.find?_cons, hitem]
  cases x with
  | none => exact ⟨fun h => by cases h; rfl, fun h => by cases h; rfl⟩
  | some a => exact hrest a

theorem limits_error {page : PageData} {given : Option Limits} {f : Limits → β} :
    (do let limits ← (page.under given).limits; return f limits : Except Item β) = .error first ↔
      [Item.percentLow, .percentHigh].find? (fun item => !page.supplies given item) = some first := by
  cases given with
  | some given => exact ⟨fun h => (by cases h), fun h => (by cases h)⟩
  | none =>
    obtain ⟨header, data, merged, _ | low, _ | high⟩ := page <;> constructor <;> intro h <;> cases h
    all_goals rfl

end

theorem indexContext_error {page : PageData} {given : Option Limits} {sort : SortIntent} {item : Item} :
    (page.under given).indexContext sort = .error item ↔ page.missing? given .index = some item := by
  rw [indexContext_under]
  exact need_error rfl fun _ => need_error rfl fun _ => need_error rfl fun _ => limits_error

theorem sourceContext_error {page : PageData} {given : Option Limits} {item : Item} :
    (page.under given).sourceContext = .error item ↔ page.missing? given .source = some item := by
  rw [sourceContext_under]
  exact need_error rfl fun _ => need_error rfl fun _ => limits_error

theorem missing?_index_eq_none {page : PageData} {given : Option Limits} : page.missing? given .index = none ↔
    page.header.isSome ∧ page.data.isSome ∧ page.mergedData.isSome ∧
      (given.isSome ∨ page.percentLow.isSome ∧ page.percentHigh.isSome) := by
  simp [missing?, needed, supplies, or_and_left]

theorem missing?_source_eq_none {page : PageData} {given : Option Limits} : page.missing? given .source = none ↔
    page.header.isSome ∧ page.data.isSome ∧ (given.isSome ∨ page.percentLow.isSome ∧ page.percentHigh.isSome) := by
  simp [missing?, needed, supplies, or_and_left]

end PageData

/-! ## From files to a context -/

/-- What a text is as the data of a page, or what is wrong with it. -/
def pageIn (path : Path) (text : Except FileError String) : Except Failure PageData := do
  let text ← text.mapError fun e => (Failure.of (.file e)).within (.readingPage path)
  (PageData.parse text).mapError fun e => (Failure.ofPageData e).within (.parsingPage path)

/-- What the data of a page gives under some settings. -/
def pageUnder (path : Path) (settings : ResolvedSettings) (content : Except FileError ByteArray) :
    Except Failure PageData :=
  (pageIn path (textIn content)).bind fun page => .ok (page.under settings.limits)

theorem loadPage_reads {m : Type → Type} [Monad m] [LawfulMonad m] [FileStore m] (path : Path)
    (settings : ResolvedSettings) :
    (loadPage path settings : Task m PageData).Reads path (pageUnder path settings) := by
  refine Task.Reads.bind ((readText_reads (.readingPage path) path).bind
    fun text => Task.run_lift _ (PageData.parse text))
    fun page => ?_
  cases settings.limits <;> rfl

section

variable {disk : Disk} {path : Path} {page : PageData}

theorem pageUnder_of_holds (h : disk.Holds path page) (settings : ResolvedSettings) :
    pageUnder path settings (disk.readFile path) = .ok (page.under settings.limits) := by
  obtain ⟨content, text, hread, htext, hparse⟩ := h
  rw [pageUnder, textIn_ok.2 ⟨content, hread, htext⟩]
  simp only [pageIn, Except.mapError, Bind.bind, Except.bind, hparse]

theorem loadIndexContext_run (h : disk.Holds path page) (settings : ResolvedSettings) :
    (loadIndexContext path settings : Task (StateM Disk) IndexContext).run disk =
      (((page.under settings.limits).indexContext settings.sortIntent).mapError fun item =>
        .of (.missingItem item), disk) := by
  have hrun := (loadPage_reads path settings).looks.bind
    (fun page => Task.Looks.lift (fun item => .of (.missingItem item)) (page.indexContext settings.sortIntent)) disk
  simp only [pageUnder_of_holds h, Except.bind] at hrun
  exact hrun

theorem loadSourceContext_run (h : disk.Holds path page) (settings : ResolvedSettings) :
    (loadSourceContext path settings : Task (StateM Disk) SourceContext).run disk =
      ((page.under settings.limits).sourceContext.mapError fun item => .of (.missingItem item), disk) := by
  have hrun := (loadPage_reads path settings).looks.bind
    (fun page => Task.Looks.lift (fun item => .of (.missingItem item)) page.sourceContext) disk
  simp only [pageUnder_of_holds h, Except.bind] at hrun
  exact hrun

end

theorem mapError_eq_error {ε ε' α : Type} {x : Except ε α} {f : ε → ε'} {e : ε'} :
    x.mapError f = .error e ↔ ∃ cause, x = .error cause ∧ e = f cause := by
  cases x <;> simp [Except.mapError, eq_comm]

/-! ## Precedence -/

theorem ResolvedSettings.limits_withLimits (settings : ResolvedSettings) (cli : Option Limits) :
    (settings.withLimits cli).limits = cli.or settings.limits := by
  cases cli <;> rfl

theorem ResolvedSettings.sortIntent_withLimits (settings : ResolvedSettings) (cli : Option Limits) :
    (settings.withLimits cli).sortIntent = settings.sortIntent := by
  cases cli <;> rfl

/-- The text of the file that counts decides, and nothing else on the disk. -/
theorem settingsFrom_congr {file : Option Path} {text text' : Path → Except FileError String}
    (h : ∀ path, file = some path → text' path = text path) : settingsFrom file text' = settingsFrom file text := by
  cases file with
  | none => rfl
  | some path => rw [settingsFrom, settingsFrom, h path rfl]

/-- The settings of a run are those of the file that counts, which must be readable and have settings that are
accepted; without such a file they are the defaults. -/
theorem loadSettings_chosen (disk : Disk) (root : Path) (explicit : Option Path) :
    ∃ answer, (loadSettings root explicit : Task (StateM Disk) ResolvedSettings).run disk = (answer, disk) ∧
      match disk.settingsFile? root explicit with
      | none => answer = .ok ⟨none, none, none, [], none⟩
      | some path => ∀ resolved, answer = .ok resolved ↔
        ∃ text settings, disk.textOf path = .ok text ∧ Json.readText Settings.reader text = .ok settings ∧
          settings.resolve = .ok { resolved with file := none } ∧ resolved.limits = settings.limits ∧
          resolved.file = some path.text := by
  refine ⟨settingsFrom (disk.settingsFile? root explicit) disk.textOf, loadSettings_looks root explicit disk, ?_⟩
  cases disk.settingsFile? root explicit with
  | none => exact settingsFrom_none _
  | some path =>
    intro resolved
    refine settingsFrom_some.trans ⟨?_, ?_⟩
    · rintro ⟨text, settings, htext, hread, hresolve, hfile⟩
      exact ⟨text, settings, htext, hread, hresolve, congrArg ResolvedSettings.limits
        (Settings.resolve_ok hresolve).2, hfile⟩
    · rintro ⟨text, settings, htext, hread, hresolve, -, hfile⟩
      exact ⟨text, settings, htext, hread, hresolve, hfile⟩

/-- What any file has that does not count makes no difference to the settings. -/
theorem loadSettings_congr {disk disk' : Disk} {root : Path} {explicit : Option Path}
    (hfile : disk'.settingsFile? root explicit = disk.settingsFile? root explicit)
    (hread : ∀ path, disk.settingsFile? root explicit = some path → disk'.readFile path = disk.readFile path) :
    ((loadSettings root explicit : Task (StateM Disk) ResolvedSettings).run disk').1 =
      ((loadSettings root explicit : Task (StateM Disk) ResolvedSettings).run disk).1 := by
  rw [loadSettings_looks root explicit disk, loadSettings_looks root explicit disk']
  show settingsFrom _ _ = settingsFrom _ _
  rw [hfile]
  exact settingsFrom_congr fun path hpath => congrArg textIn (hread path hpath)

section

variable {α : Type} {context : Except PageData.Item α} {missing : Option PageData.Item}

/-- A context is loaded if no item is missing. -/
theorem loaded_iff (h : ∀ item, context = .error item ↔ missing = some item) :
    (∃ ctx, context.mapError (fun item => Failure.of (.missingItem item)) = .ok ctx) ↔ missing = none := by
  rw [Option.eq_none_iff_forall_ne_some]
  cases context with
  | error item => exact ⟨nofun, fun hnone => absurd ((h item).1 rfl) (hnone item)⟩
  | ok ctx => exact ⟨fun _ item hitem => (nomatch (h item).2 hitem), fun _ => ⟨ctx, rfl⟩⟩

/-- The failure of a context that is not loaded names the item. -/
theorem not_loaded_iff (h : ∀ item, context = .error item ↔ missing = some item) (f : Failure) :
    context.mapError (fun item => Failure.of (.missingItem item)) = .error f ↔
      ∃ item, missing = some item ∧ f = .of (.missingItem item) := by
  simp only [mapError_eq_error, h]

end

section

variable {disk : Disk} {path : Path} {page : PageData} (h : disk.Holds path page) (settings : ResolvedSettings)
  (cli : Option Limits)

include h

/-- An index page needs a header, records, merged records and limits. -/
theorem loadIndexContext_answer :
    ∃ answer, (loadIndexContext path (settings.withLimits cli) : Task (StateM Disk) IndexContext).run disk =
      (answer, disk) ∧
      ((∃ ctx, answer = .ok ctx) ↔ page.header.isSome ∧ page.data.isSome ∧ page.mergedData.isSome ∧
        (cli.isSome ∨ settings.limits.isSome ∨ page.percentLow.isSome ∧ page.percentHigh.isSome)) ∧
      (∀ ctx, answer = .ok ctx ↔
        page.header = some ctx.header ∧ (∃ main, page.data = some main ∧ ctx.main = ⟨.main, main⟩) ∧
          (∃ merged, page.mergedData = some merged ∧ ctx.merged = ⟨.merged, merged⟩) ∧
          cli.or (settings.limits.or page.pair?) = some ctx.limits ∧ ctx.sort = settings.sortIntent) ∧
      ∀ f, answer = .error f ↔ ∃ item, page.missing? (cli.or settings.limits) .index = some item ∧
        f = .of (.missingItem item) := by
  have hrun := loadIndexContext_run h (settings.withLimits cli)
  rw [ResolvedSettings.limits_withLimits, ResolvedSettings.sortIntent_withLimits] at hrun
  refine ⟨_, hrun, ?_, fun ctx => ?_, not_loaded_iff fun _ => PageData.indexContext_error⟩
  · rw [loaded_iff fun _ => PageData.indexContext_error, PageData.missing?_index_eq_none, Option.isSome_or,
      Bool.or_eq_true, or_assoc]
  · rw [mapError_ok, PageData.indexContext_ok, Option.or_assoc]

/-- A source page needs a header, records and limits. -/
theorem loadSourceContext_answer :
    ∃ answer, (loadSourceContext path (settings.withLimits cli) : Task (StateM Disk) SourceContext).run disk =
      (answer, disk) ∧
      ((∃ ctx, answer = .ok ctx) ↔ page.header.isSome ∧ page.data.isSome ∧
        (cli.isSome ∨ settings.limits.isSome ∨ page.percentLow.isSome ∧ page.percentHigh.isSome)) ∧
      (∀ ctx, answer = .ok ctx ↔
        page.header = some ctx.header ∧ (∃ source, page.data = some source ∧ ctx.source = ⟨.source, source⟩) ∧
          cli.or (settings.limits.or page.pair?) = some ctx.limits) ∧
      ∀ f, answer = .error f ↔ ∃ item, page.missing? (cli.or settings.limits) .source = some item ∧
        f = .of (.missingItem item) := by
  have hrun := loadSourceContext_run h (settings.withLimits cli)
  rw [ResolvedSettings.limits_withLimits] at hrun
  refine ⟨_, hrun, ?_, fun ctx => ?_, not_loaded_iff fun _ => PageData.sourceContext_error⟩
  · rw [loaded_iff fun _ => PageData.sourceContext_error, PageData.missing?_source_eq_none, Option.isSome_or,
      Bool.or_eq_true, or_assoc]
  · rw [mapError_ok, PageData.sourceContext_ok, Option.or_assoc]

end

/-- Which settings count, and which limits. The settings of a run are those of the explicit file, or else of
the first file that is looked for and exists, or else the defaults; a file that counts must be readable,
and settings that are accepted. What any other file has makes no difference. A page is rendered under
the pair of the command line, or else of the settings, or else its own, if it has the items that its kind
needs; and if not, the first item that is missing is named. -/
theorem loads_by_precedence :
    (∀ (disk : Disk) (root : Path) (explicit : Option Path),
      ∃ answer, (loadSettings root explicit : Task (StateM Disk) ResolvedSettings).run disk = (answer, disk) ∧
        match disk.settingsFile? root explicit with
        | none => answer = .ok ⟨none, none, none, [], none⟩
        | some path => ∀ resolved, answer = .ok resolved ↔
          ∃ text settings, disk.textOf path = .ok text ∧ Json.readText Settings.reader text = .ok settings ∧
            settings.resolve = .ok { resolved with file := none } ∧ resolved.limits = settings.limits ∧
            resolved.file = some path.text) ∧
    (∀ (disk disk' : Disk) (root : Path) (explicit : Option Path),
      disk'.settingsFile? root explicit = disk.settingsFile? root explicit →
      (∀ path, disk.settingsFile? root explicit = some path → disk'.readFile path = disk.readFile path) →
      ((loadSettings root explicit : Task (StateM Disk) ResolvedSettings).run disk').1 =
        ((loadSettings root explicit : Task (StateM Disk) ResolvedSettings).run disk).1) ∧
    (∀ (disk : Disk) (path : Path) (page : PageData) (settings : ResolvedSettings) (cli : Option Limits),
      disk.Holds path page →
      ∃ answer, (loadIndexContext path (settings.withLimits cli) : Task (StateM Disk) IndexContext).run disk =
        (answer, disk) ∧
        ((∃ ctx, answer = .ok ctx) ↔ page.header.isSome ∧ page.data.isSome ∧ page.mergedData.isSome ∧
          (cli.isSome ∨ settings.limits.isSome ∨ page.percentLow.isSome ∧ page.percentHigh.isSome)) ∧
        (∀ ctx, answer = .ok ctx ↔
          page.header = some ctx.header ∧ (∃ main, page.data = some main ∧ ctx.main = ⟨.main, main⟩) ∧
            (∃ merged, page.mergedData = some merged ∧ ctx.merged = ⟨.merged, merged⟩) ∧
            cli.or (settings.limits.or page.pair?) = some ctx.limits ∧ ctx.sort = settings.sortIntent) ∧
        ∀ f, answer = .error f ↔ ∃ item, page.missing? (cli.or settings.limits) .index = some item ∧
          f = .of (.missingItem item)) ∧
    ∀ (disk : Disk) (path : Path) (page : PageData) (settings : ResolvedSettings) (cli : Option Limits),
      disk.Holds path page →
      ∃ answer, (loadSourceContext path (settings.withLimits cli) : Task (StateM Disk) SourceContext).run disk =
        (answer, disk) ∧
        ((∃ ctx, answer = .ok ctx) ↔ page.header.isSome ∧ page.data.isSome ∧
          (cli.isSome ∨ settings.limits.isSome ∨ page.percentLow.isSome ∧ page.percentHigh.isSome)) ∧
        (∀ ctx, answer = .ok ctx ↔
          page.header = some ctx.header ∧ (∃ source, page.data = some source ∧ ctx.source = ⟨.source, source⟩) ∧
            cli.or (settings.limits.or page.pair?) = some ctx.limits) ∧
        ∀ f, answer = .error f ↔ ∃ item, page.missing? (cli.or settings.limits) .source = some item ∧
          f = .of (.missingItem item) := by
  exact ⟨loadSettings_chosen, fun _ _ _ _ => loadSettings_congr,
    fun _ _ _ settings cli hholds => loadIndexContext_answer hholds settings cli,
    fun _ _ _ settings cli hholds => loadSourceContext_answer hholds settings cli⟩

/-- Page data without percentages. -/
def bareText : String := "[[\"test\",\"today\",1,2],[\x7b\"line\":\"x\"\x7d],[\x7b\x7d],null,null]"

/-- A disk with two settings files, and with a page that has no percentages. -/
def limitedDisk (later : String) : Disk where
  entries := [
    ([Path.nameOf ".covreportrc.json"], .file "\x7b\"limits\":\x7b\"low\":10,\"high\":20\x7d\x7d".toUTF8),
    ([Path.nameOf "covreport.config.json"], .file later.toUTF8), ([Path.nameOf "page.json"], .file bareText.toUTF8)]

theorem loads_by_precedence_sample :
    ((loadSettings (.ofText "/") none : Task (StateM Disk) ResolvedSettings).run (limitedDisk "?")).1 =
        ((loadSettings (.ofText "/") none : Task (StateM Disk) ResolvedSettings).run (limitedDisk "\x7b\x7d")).1 ∧
      ∃ page, (limitedDisk "?").Holds (.ofText "page.json") page ∧
        (∃ ctx, (loadIndexContext (.ofText "page.json") (sampleSettings.withLimits (some .standard)) :
          Task (StateM Disk) IndexContext).run (limitedDisk "?") = (.ok ctx, limitedDisk "?") ∧
            ctx.limits = .standard) ∧
        (loadSourceContext (.ofText "page.json") (sampleSettings.withLimits none) :
          Task (StateM Disk) SourceContext).run (limitedDisk "?") =
            (.error (.of (.missingItem .percentLow)), limitedDisk "?") := by
  refine ⟨loads_by_precedence.2.1 _ _ _ _ (by decide +kernel) ?_, ?_⟩
  · intro path hpath
    have hfirst : (limitedDisk "\x7b\x7d").settingsFile? (.ofText "/") none = some (.ofText "/.covreportrc.json") := by
      decide +kernel
    cases hfirst.symm.trans hpath
    decide +kernel
  · have hitems : (PageData.parse bareText).toOption.map (fun page =>
        (page.header.isSome, page.data.isSome, page.mergedData.isSome, page.missing? none .source)) =
        some (true, true, true, some .percentLow) := by decide +kernel
    have hread : (limitedDisk "?").readFile (.ofText "page.json") = .ok bareText.toUTF8 := by decide +kernel
    have htext : String.fromUTF8? bareText.toUTF8 = some bareText := by decide +kernel
    cases hparse : PageData.parse bareText with
    | error refusal => rw [hparse] at hitems; cases hitems
    | ok page =>
      rw [hparse] at hitems
      obtain ⟨hheader, hitems⟩ := Prod.mk.inj (Option.some.inj hitems)
      obtain ⟨hdata, hitems⟩ := Prod.mk.inj hitems
      obtain ⟨hmerged, hmissing⟩ := Prod.mk.inj hitems
      have hholds : (limitedDisk "?").Holds (.ofText "page.json") page := ⟨_, _, hread, htext, hparse⟩
      refine ⟨page, hholds, ?_, ?_⟩
      · obtain ⟨answer, hrun, hok, hctx, -⟩ := loads_by_precedence.2.2.1 _ _ _ sampleSettings (some .standard) hholds
        obtain ⟨ctx, rfl⟩ := hok.2 ⟨hheader, hdata, hmerged, .inl rfl⟩
        obtain ⟨-, -, -, hlimits, -⟩ := (hctx ctx).1 rfl
        exact ⟨ctx, hrun, (Option.some.inj hlimits).symm⟩
      · obtain ⟨answer, hrun, -, -, herror⟩ := loads_by_precedence.2.2.2 _ _ _ sampleSettings none hholds
        obtain rfl := (herror _).2 ⟨_, hmissing, rfl⟩
        exact hrun

end CoveragePages
