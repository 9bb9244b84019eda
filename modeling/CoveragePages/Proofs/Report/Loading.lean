/-
From a data file to the finished page. A task that reads one file is described by its answer as a function of
what the file has (`Task.Reads`). What loads is rendered without a failure, from exactly the records that
the file has: each has one row in the document, and no record can add a row or hide one.
-/
import CoveragePages.Files.Disk
import CoveragePages.Proofs.Markup.Count
import CoveragePages.Report.Load

namespace CoveragePages

open Text RowTemplate

/-! ## Tasks that read one file -/

section

variable {m : Type → Type} [Monad m] [LawfulMonad m] [FileStore m] {α β : Type}

/-- A task that reads one file and then only computes. -/
def Task.Reads (task : Task m α) (path : Path) (answer : Except FileError ByteArray → Except Failure α) : Prop :=
  task.run = do return answer (← FileStore.readFile path)

omit [LawfulMonad m] [FileStore m] in
theorem Task.run_lift {ε : Type} (failure : ε → Failure) (x : Except ε α) :
    (Task.lift failure x : Task m α).run = pure (x.mapError failure) := by
  cases x <;> rfl

omit [FileStore m] in
/-- A file operation as a task, with its failure in a context. -/
theorem Task.run_file (context : Context) (operation : m (Except FileError α)) :
    (Task.file context operation).run = do
    return (← operation).mapError fun e => (Failure.of (.file e)).within context := by
  rw [Task.file, ExceptT.run_bind]
  show (Except.ok <$> operation >>= _) = _
  rw [bind_map_left]
  congr
  funext result
  exact Task.run_lift _ _

omit [FileStore m] in
theorem Task.run_bind_pure {x : Task m α} {f : α → Task m β} {answer : Except Failure α} {rest : α → Except Failure β}
    (hx : x.run = pure answer) (hf : ∀ a, (f a).run = pure (rest a)) : (x >>= f).run = pure (answer.bind rest) := by
  rw [ExceptT.run_bind, hx, pure_bind]
  cases answer with
  | error e => rfl
  | ok a => exact hf a

theorem Task.Reads.bind {path : Path} {x : Task m α} {f : α → Task m β}
    {answer : Except FileError ByteArray → Except Failure α}
    {rest : α → Except Failure β} (hx : x.Reads path answer) (hf : ∀ a, (f a).run = pure (rest a)) :
    (x >>= f).Reads path fun content => (answer content).bind rest := by
  rw [Reads, ExceptT.run_bind, hx, bind_assoc]
  congr
  funext content
  rw [pure_bind]
  cases answer content with
  | error e => rfl
  | ok a => exact hf a

/-- What a file has, as a text. -/
def textIn (content : Except FileError ByteArray) : Except FileError String := do
  match String.fromUTF8? (← content) with
  | some text => return text
  | none => .error .notText

theorem textIn_ok {content : Except FileError ByteArray} {text : String} :
    textIn content = .ok text ↔ ∃ bytes, content = .ok bytes ∧ String.fromUTF8? bytes = some text := by
  cases content with
  | error e => exact ⟨nofun, nofun⟩
  | ok bytes =>
    simp only [textIn, Bind.bind, Except.bind, Except.ok.injEq, exists_eq_left']
    cases String.fromUTF8? bytes <;> simp [pure, Except.pure]

omit [LawfulMonad m] in
theorem readText_eq (path : Path) : (readText path : m (Except FileError String)) = do
    return textIn (← FileStore.readFile path) := by
  rw [readText]
  congr
  funext content
  cases content with
  | error e => rfl
  | ok bytes =>
    simp only [textIn, Bind.bind, Except.bind]
    cases String.fromUTF8? bytes <;> rfl

theorem readText_reads (context : Context) (path : Path) :
    (Task.file context (readText path) : Task m String).Reads path
    fun content => (textIn content).mapError fun e => (Failure.of (.file e)).within context := by
  rw [Task.Reads, Task.run_file, readText_eq, bind_assoc]
  simp only [pure_bind]

end

/-! ## Tasks on a disk -/

namespace Task

variable {α β : Type} {disk disk' : Disk}

/-- A task that ends well went through its first part, and ended well from there. -/
theorem run_bind_ok {x : Task (StateM Disk) α} {f : α → Task (StateM Disk) β} {b : β}
    (h : (x >>= f).run disk = (.ok b, disk')) :
    ∃ a between, x.run disk = (.ok a, between) ∧ (f a).run between = (.ok b, disk') := by
  rw [ExceptT.run_bind] at h
  obtain ⟨⟨result, between⟩, hx⟩ : ∃ after, x.run disk = after := ⟨_, rfl⟩
  simp only [bind, StateT.bind, hx] at h
  cases result with
  | error e => cases h
  | ok a => exact ⟨a, between, hx, h⟩

theorem run_lift_ok {ε : Type} {failure : ε → Failure} {x : Except ε α} {a : α}
    (h : (Task.lift failure x : Task (StateM Disk) α).run disk = (.ok a, disk')) : x = .ok a ∧ disk' = disk := by
  cases x with
  | error e => cases h
  | ok a' => cases h; exact ⟨rfl, rfl⟩

theorem run_file_ok {context : Context} {operation : StateM Disk (Except FileError α)} {a : α}
    (h : (Task.file context operation : Task (StateM Disk) α).run disk = (.ok a, disk')) :
    operation.run disk = (.ok a, disk') := by
  obtain ⟨result, between, hoperation, hlift⟩ := run_bind_ok h
  obtain ⟨rfl, rfl⟩ := run_lift_ok hlift
  have hlifted : (liftM operation : Task (StateM Disk) _).run disk =
      (.ok (operation.run disk).1, (operation.run disk).2) := rfl
  rw [hlifted] at hoperation
  obtain ⟨hresult, hdisk⟩ := Prod.mk.inj hoperation
  exact Prod.ext (Except.ok.inj hresult) hdisk

end Task

/-! ## Loaded pages -/

/-- The page data in a file. -/
def Disk.Holds (disk : Disk) (path : Path) (page : PageData) : Prop :=
  ∃ content text, disk.readFile path = .ok content ∧ String.fromUTF8? content = some text ∧
    PageData.parse text = .ok page

theorem need_ok {α : Type} {item : PageData.Item} {x : Option α} {a : α} (h : PageData.need item x = .ok a) :
    x = some a := by
  cases x with
  | none => cases h
  | some a' => cases h; rfl

section

variable {disk disk' : Disk} {path : Path} {settings : ResolvedSettings}

theorem readText_run (path : Path) (disk : Disk) :
    (readText path : StateM Disk (Except FileError String)).run disk = (textIn (disk.readFile path), disk) := by
  rw [readText_eq]
  rfl

theorem readText_ok {text : String}
    (h : (readText path : StateM Disk (Except FileError String)).run disk = (.ok text, disk')) :
    disk' = disk ∧ ∃ content, disk.readFile path = .ok content ∧ String.fromUTF8? content = some text := by
  rw [readText_run] at h
  obtain ⟨htext, hdisk⟩ := Prod.mk.inj h
  exact ⟨hdisk.symm, textIn_ok.1 htext⟩

theorem loadPageFile_ok {page : PageData}
    (h : (loadPageFile path : Task (StateM Disk) PageData).run disk = (.ok page, disk')) :
    disk' = disk ∧ disk.Holds path page := by
  obtain ⟨text, between, hread, hparse⟩ := Task.run_bind_ok h
  obtain ⟨rfl, content, hcontent, htext⟩ := readText_ok (Task.run_file_ok hread)
  obtain ⟨hpage, rfl⟩ := Task.run_lift_ok hparse
  exact ⟨rfl, content, text, hcontent, htext, hpage⟩

/-- The settings replace limits, and nothing else. -/
theorem loadPage_ok {page : PageData}
    (h : (loadPage path settings : Task (StateM Disk) PageData).run disk = (.ok page, disk')) :
    disk' = disk ∧ ∃ held, disk.Holds path held ∧ page.data = held.data ∧ page.mergedData = held.mergedData := by
  obtain ⟨held, between, hload, hlimits⟩ := Task.run_bind_ok h
  obtain ⟨rfl, hholds⟩ := loadPageFile_ok hload
  cases hsettings : settings.limits with
  | none =>
    rw [hsettings] at hlimits
    cases hlimits
    exact ⟨rfl, _, hholds, rfl, rfl⟩
  | some limits =>
    rw [hsettings] at hlimits
    cases hlimits
    exact ⟨rfl, _, hholds, rfl, rfl⟩

theorem loadIndexContext_ok {ctx : IndexContext}
    (h : (loadIndexContext path settings : Task (StateM Disk) IndexContext).run disk = (.ok ctx, disk')) :
    disk' = disk ∧ ∃ page main merged, disk.Holds path page ∧ page.data = some main ∧ page.mergedData = some merged ∧
      ctx.main = ⟨.main, main⟩ ∧ ctx.merged = ⟨.merged, merged⟩ := by
  obtain ⟨loaded, between, hload, hlift⟩ := Task.run_bind_ok h
  obtain ⟨rfl, page, hholds, hdata, hmerged⟩ := loadPage_ok hload
  obtain ⟨hcontext, rfl⟩ := Task.run_lift_ok hlift
  obtain ⟨header, -, hcontext⟩ := Json.bind_ok hcontext
  obtain ⟨main, hmain, hcontext⟩ := Json.bind_ok hcontext
  obtain ⟨merged, hmergedData, hcontext⟩ := Json.bind_ok hcontext
  obtain ⟨limits, -, hcontext⟩ := Json.bind_ok hcontext
  cases hcontext
  exact ⟨rfl, page, main, merged, hholds, hdata ▸ need_ok hmain, hmerged ▸ need_ok hmergedData, rfl, rfl⟩

theorem loadSourceContext_ok {ctx : SourceContext}
    (h : (loadSourceContext path settings : Task (StateM Disk) SourceContext).run disk = (.ok ctx, disk')) :
    disk' = disk ∧ ∃ page records, disk.Holds path page ∧ page.data = some records ∧
      ctx.source = ⟨.source, records⟩ := by
  obtain ⟨loaded, between, hload, hlift⟩ := Task.run_bind_ok h
  obtain ⟨rfl, page, hholds, hdata, -⟩ := loadPage_ok hload
  obtain ⟨hcontext, rfl⟩ := Task.run_lift_ok hlift
  obtain ⟨header, -, hcontext⟩ := Json.bind_ok hcontext
  obtain ⟨records, hrecords, hcontext⟩ := Json.bind_ok hcontext
  obtain ⟨limits, -, hcontext⟩ := Json.bind_ok hcontext
  cases hcontext
  exact ⟨rfl, page, records, hholds, hdata ▸ need_ok hrecords, rfl⟩

end

/-! ## From file to document -/

/-- A page of datasets in their roles is rendered in full. -/
theorem IndexContext.rendered {ctx : IndexContext} {main merged : List Record} (hmain : ctx.main = ⟨.main, main⟩)
    (hmerged : ctx.merged = ⟨.merged, merged⟩) :
    ctx.plan.bindings = [⟨"main-data", main⟩, ⟨"merged-data", merged⟩] ∧
      ∃ document report, ctx.plan.document = .ok (document, report) ∧
        report.outcomes.map (·.status) = [.applied, .applied, .applied, .applied] ∧
        report.rows? "main-data" = some main.length ∧ report.rows? "merged-data" = some merged.length ∧
        occurrences fileCell document.toList = main.length + merged.length := by
  have hroles : ctx.main.role = .main ∧ ctx.merged.role = .merged := by rw [hmain, hmerged]; exact ⟨rfl, rfl⟩
  obtain ⟨document, report, hdocument, houtcomes, -⟩ := IndexContext.document_eq hroles.1 hroles.2
  have hcells := IndexContext.cells_of_document hroles.1 hroles.2 hdocument
  rw [hmain, hmerged] at houtcomes hcells
  refine ⟨?_, document, report, hdocument, by rw [houtcomes]; rfl, ?_, ?_, hcells⟩
  · unfold IndexContext.plan
    rw [hmain, hmerged]
    rfl
  all_goals
    unfold ApplyReport.rows?
    rw [houtcomes]
    rfl

theorem SourceContext.rendered {ctx : SourceContext} {records : List Record}
    (hsource : ctx.source = ⟨.source, records⟩) :
    ctx.plan.bindings = [⟨"source-code", records⟩] ∧ (∀ activation, .activateSort activation ∉ ctx.plan.steps) ∧
      ∃ document report, ctx.plan.document = .ok (document, report) ∧
        report.outcomes.map (·.status) = [.applied, .applied] ∧ report.rows? "source-code" = some records.length ∧
        occurrences numberCell document.toList = records.length ∧ ¬ scriptOpener <:+: document.toList := by
  have hrole : ctx.source.role = .source := by rw [hsource]
  obtain ⟨document, report, hdocument, houtcomes, -⟩ := SourceContext.document_eq hrole
  obtain ⟨hcells, hscript⟩ := SourceContext.cells_of_document hrole hdocument
  rw [hsource] at houtcomes hcells
  refine ⟨?_, ?_, document, report, hdocument, by rw [houtcomes]; rfl, ?_, hcells, hscript⟩
  · unfold SourceContext.plan
    rw [hsource]
    rfl
  · intro activation hmem
    simp [SourceContext.plan, Dataset.bindStep, Header.step] at hmem
  · unfold ApplyReport.rows?
    rw [houtcomes]
    rfl

/-- A loaded page is rendered in full, from exactly the records of its file: every step is applied, the
records of the file are bound as they are, and the document has one cell for each record. A source page
is not sorted, and has no script. -/
theorem loaded_records_displayed :
    (∀ (disk disk' : Disk) (path : Path) (settings : ResolvedSettings) (ctx : IndexContext),
      (loadIndexContext path settings : Task (StateM Disk) IndexContext).run disk = (.ok ctx, disk') →
      ∃ page main merged, disk.Holds path page ∧ page.data = some main ∧ page.mergedData = some merged ∧
        ctx.plan.bindings = [⟨"main-data", main⟩, ⟨"merged-data", merged⟩] ∧
        ∃ document report, ctx.plan.document = .ok (document, report) ∧
          report.outcomes.map (·.status) = [.applied, .applied, .applied, .applied] ∧
          report.rows? "main-data" = some main.length ∧ report.rows? "merged-data" = some merged.length ∧
          occurrences fileCell document.toList = main.length + merged.length) ∧
    ∀ (disk disk' : Disk) (path : Path) (settings : ResolvedSettings) (ctx : SourceContext),
      (loadSourceContext path settings : Task (StateM Disk) SourceContext).run disk = (.ok ctx, disk') →
      ∃ page records, disk.Holds path page ∧ page.data = some records ∧
        ctx.plan.bindings = [⟨"source-code", records⟩] ∧ (∀ activation, .activateSort activation ∉ ctx.plan.steps) ∧
        ∃ document report, ctx.plan.document = .ok (document, report) ∧
          report.outcomes.map (·.status) = [.applied, .applied] ∧ report.rows? "source-code" = some records.length ∧
          occurrences numberCell document.toList = records.length ∧ ¬ scriptOpener <:+: document.toList := by
  constructor
  · intro disk disk' path settings ctx h
    -- the roles that loading gives are those that the page has slots for
    obtain ⟨-, page, main, merged, hholds, hdata, hmergedData, hmain, hmerged⟩ := loadIndexContext_ok h
    exact ⟨page, main, merged, hholds, hdata, hmergedData, IndexContext.rendered hmain hmerged⟩
  · intro disk disk' path settings ctx h
    obtain ⟨-, page, records, hholds, hdata, hsource⟩ := loadSourceContext_ok h
    exact ⟨page, records, hholds, hdata, SourceContext.rendered hsource⟩

/-- A disk with the data of one page, whose line looks like a script. -/
def sampleDisk : Disk where
  entries := [([Path.nameOf "page.json"],
    .file "[[\"test\",\"today\",1,2],[\x7b\"line\":\"<script>\"\x7d],[\x7b\x7d],25,75]".toUTF8)]

def sampleSettings : ResolvedSettings := ⟨none, none, none, [], none⟩

theorem loaded_records_displayed_sample :
    (∃ ctx disk', (loadIndexContext (.ofText "page.json") sampleSettings : Task (StateM Disk) IndexContext).run
        sampleDisk = (.ok ctx, disk') ∧
      ∃ document report, ctx.plan.document = .ok (document, report) ∧ occurrences fileCell document.toList = 2) ∧
    ∃ ctx disk', (loadSourceContext (.ofText "page.json") sampleSettings : Task (StateM Disk) SourceContext).run
        sampleDisk = (.ok ctx, disk') ∧
      ∃ document report, ctx.plan.document = .ok (document, report) ∧ occurrences numberCell document.toList = 1 ∧
        ¬ scriptOpener <:+: document.toList := by
  constructor
  · have hload : ((loadIndexContext (.ofText "page.json") sampleSettings : Task (StateM Disk) IndexContext).run
        sampleDisk).1.toOption.map
        (fun ctx => (ctx.main.size, ctx.merged.size)) = some (1, 1) := by decide +kernel
    obtain ⟨⟨result, disk'⟩, hrun⟩ :
      ∃ after, (loadIndexContext (.ofText "page.json") sampleSettings : Task (StateM Disk) _).run
      sampleDisk = after := ⟨_, rfl⟩
    rw [hrun] at hload
    cases result with
    | error e => cases hload
    | ok ctx =>
      obtain ⟨hmain, hmerged⟩ := Prod.mk.inj (Option.some.inj hload)
      obtain ⟨-, main, merged, -, -, -, hbindings, document, report, hdocument, -, -, -, hcells⟩ :=
        loaded_records_displayed.1 _ _ _ _ _ hrun
      obtain ⟨hbinding, hrest⟩ := List.cons.inj hbindings
      obtain rfl : ctx.main.records = main := (TemplateBinding.mk.inj hbinding).2
      obtain rfl : ctx.merged.records = merged := (TemplateBinding.mk.inj (List.cons.inj hrest).1).2
      rw [show ctx.main.records.length = 1 from hmain, show ctx.merged.records.length = 1 from hmerged] at hcells
      exact ⟨ctx, disk', hrun, document, report, hdocument, hcells⟩
  · have hload : ((loadSourceContext (.ofText "page.json") sampleSettings : Task (StateM Disk) SourceContext).run
        sampleDisk).1.toOption.map
        (fun ctx => ctx.source.size) = some 1 := by decide +kernel
    obtain ⟨⟨result, disk'⟩, hrun⟩ :
      ∃ after, (loadSourceContext (.ofText "page.json") sampleSettings : Task (StateM Disk) _).run
      sampleDisk = after := ⟨_, rfl⟩
    rw [hrun] at hload
    cases result with
    | error e => cases hload
    | ok ctx =>
      obtain ⟨-, records, -, -, hbindings, -, document, report, hdocument, -, -, hcells, hscript⟩ :=
        loaded_records_displayed.2 _ _ _ _ _ hrun
      obtain rfl : ctx.source.records = records := (TemplateBinding.mk.inj (List.cons.inj hbindings).1).2
      rw [show ctx.source.records.length = 1 from Option.some.inj hload] at hcells
      exact ⟨ctx, disk', hrun, document, report, hdocument, hcells, hscript⟩

end CoveragePages
