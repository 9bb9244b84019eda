/-
Rendering a page as a process. Loading reads one file, and what it gives is a function of what the file
has; then come the changes that publish the document. So a page takes four turns at most, and one if it
does not load.
-/
import CoveragePages.Proofs.Files.Process
import CoveragePages.Proofs.Markup.Document
import CoveragePages.Proofs.Report.Precedence
import CoveragePages.Report.Publish

namespace CoveragePages

section

variable {m : Type → Type} [Monad m] [LawfulMonad m] [FileStore m]

/-! ## Documents -/

/-- The plan of a page, from what its data file has. -/
def planIn (kind : PageKind) (path : Path) (settings : ResolvedSettings) (content : Except FileError ByteArray) :
    Except Failure RenderPlan :=
  match kind with
  | .index => ((pageUnder path settings content).bind fun page =>
      (page.indexContext settings.sortIntent).mapError fun item => .of (.missingItem item)).bind fun ctx =>
        .ok ctx.plan
  | .source => ((pageUnder path settings content).bind fun page =>
      page.sourceContext.mapError fun item => .of (.missingItem item)).bind fun ctx => .ok ctx.plan

theorem loadPlan_reads (kind : PageKind) (path : Path) (settings : ResolvedSettings) :
    (loadPlan kind path settings : Task m RenderPlan).Reads path (planIn kind path settings) := by
  cases kind with
  | index => exact ((loadPage_reads path settings).bind fun page => Task.run_lift _ _).bind fun ctx => rfl
  | source => exact ((loadPage_reads path settings).bind fun page => Task.run_lift _ _).bind fun ctx => rfl

/-- Loads a page and makes its document. -/
def loadDocument (kind : PageKind) (path : Path) (settings : ResolvedSettings) : Task m (String × ApplyReport) := do
  let plan ← loadPlan kind path settings
  Task.lift Failure.ofHtmlPage plan.document

/-- The document of a page, from what its data file has. -/
def documentIn (kind : PageKind) (path : Path) (settings : ResolvedSettings) (content : Except FileError ByteArray) :
    Except Failure (String × ApplyReport) :=
  (planIn kind path settings content).bind fun plan => plan.document.mapError Failure.ofHtmlPage

theorem loadDocument_reads (kind : PageKind) (path : Path) (settings : ResolvedSettings) :
    (loadDocument kind path settings : Task m (String × ApplyReport)).Reads path (documentIn kind path settings) :=
  (loadPlan_reads kind path settings).bind fun _ => Task.run_lift _ _

theorem ne_empty_of_append {document : String} {before after : List Char}
    (h : document.toList = before ++ '\n' :: after) : document ≠ "" := by
  rintro rfl
  simp at h

/-- A page that loads has a document, which is not empty. -/
theorem exists_document {kind : PageKind} {path : Path} {settings : ResolvedSettings}
    {content : Except FileError ByteArray} {plan : RenderPlan} (h : planIn kind path settings content = .ok plan) :
      ∃ document report, plan.document = .ok (document, report) ∧ document ≠ "" := by
  cases kind with
  | index =>
    obtain ⟨ctx, hctx, hplan⟩ := Json.bind_ok h
    obtain ⟨page, hpage, hctx⟩ := Json.bind_ok hctx
    obtain ⟨read, -, hunder⟩ := Json.bind_ok hpage
    cases hunder
    obtain ⟨-, ⟨main, -, hmain⟩, ⟨merged, -, hmerged⟩, -⟩ := PageData.indexContext_ok.1 (mapError_ok.1 hctx)
    cases hplan
    obtain ⟨document, report, hdocument, -, hchars⟩ := IndexContext.document_eq (by rw [hmain]) (by rw [hmerged])
    exact ⟨document, report, hdocument, ne_empty_of_append hchars⟩
  | source =>
    obtain ⟨ctx, hctx, hplan⟩ := Json.bind_ok h
    obtain ⟨page, hpage, hctx⟩ := Json.bind_ok hctx
    obtain ⟨read, -, hunder⟩ := Json.bind_ok hpage
    cases hunder
    obtain ⟨-, ⟨source, -, hsource⟩, -⟩ := PageData.sourceContext_ok.1 (mapError_ok.1 hctx)
    cases hplan
    obtain ⟨document, report, hdocument, -, hchars⟩ := SourceContext.document_eq (by rw [hsource])
    exact ⟨document, report, hdocument, ne_empty_of_append hchars⟩

/-- A page has no document only if it does not load. -/
theorem documentIn_error {kind : PageKind} {path : Path} {settings : ResolvedSettings}
    {content : Except FileError ByteArray} {f : Failure} :
    documentIn kind path settings content = .error f ↔ planIn kind path settings content = .error f := by
  rw [documentIn]
  cases hplan : planIn kind path settings content with
  | error e => exact ⟨fun h => (by cases h; rfl), fun h => (by cases h; rfl)⟩
  | ok plan =>
    obtain ⟨document, report, hdocument, -⟩ := exists_document hplan
    rw [Except.bind, hdocument]
    exact ⟨fun h => (by cases h), fun h => (by cases h)⟩

/-- No document is empty. -/
theorem documentIn_ne_empty {kind : PageKind} {path : Path} {settings : ResolvedSettings}
    {content : Except FileError ByteArray} {document : String} {report : ApplyReport}
    (h : documentIn kind path settings content = .ok (document, report)) : document ≠ "" := by
  obtain ⟨plan, hplan, hdocument⟩ := Json.bind_ok h
  obtain ⟨document', report', hplanned, hne⟩ := exists_document hplan
  rw [hplanned] at hdocument
  cases hdocument
  exact hne

/-! ## Rendering -/

/-- Carries out changes, and then reports. -/
def publish (steps : List FileStep) (report : ApplyReport) : Task m ApplyReport := do
  performAll steps
  return report

/-- Changes are carried out up to the first that fails. -/
theorem publish_cons (step : FileStep) (rest : List FileStep) (report : ApplyReport) :
    (publish (step :: rest) report : Task m ApplyReport).run = do
      match ← FileStore.perform step with
      | .ok () => (publish rest report).run
      | .error e => return .error ((Failure.of (.file e)).within step.context) := by
  have hcons : (performAll (step :: rest) : Task m Unit) =
      Task.file step.context (FileStore.perform step) >>= fun _ => performAll rest := rfl
  rw [publish, hcons, bind_assoc, ExceptT.run_bind, Task.run_file, bind_assoc]
  congr
  funext answer
  rw [pure_bind]
  cases answer with
  | error e => rfl
  | ok _ => rfl

/-- Publishes a document, if there is one. -/
def publishDocument (out : Path) : Except Failure (String × ApplyReport) → m (Except Failure ApplyReport)
  | .ok (document, report) => (publish (publishSteps out document) report).run
  | .error f => return .error f

/-- A page is loaded, and published if it loads. -/
theorem renderPage_eq (data : Path) (kind : PageKind) (out : Path) (settings : ResolvedSettings) :
    (renderPage data kind out settings : Task m ApplyReport).run =
      FileStore.readFile data >>= fun content => publishDocument out (documentIn kind data settings content) := by
  have hload : (renderPage data kind out settings : Task m ApplyReport) =
      loadDocument kind data settings >>= fun result => publish (publishSteps out result.1) result.2 := by
    rw [renderPage, loadDocument, bind_assoc]
    rfl
  rw [hload, ExceptT.run_bind, loadDocument_reads, bind_assoc]
  congr
  funext content
  rw [pure_bind]
  cases documentIn kind data settings content <;> rfl

end

/-! ## Pages as processes -/

/-- The changes that are left of publishing a page, and then its report. -/
def publishing (report : ApplyReport) : List FileStep → Process (Except Failure ApplyReport)
  | [] => .done (.ok report)
  | step :: rest => .ask (.perform step) fun
    | .ok () => publishing report rest
    | .error e => .done (.error ((Failure.of (.file e)).within step.context))

theorem publish_process (report : ApplyReport) (steps : List FileStep) :
    (publish steps report : Task Process ApplyReport).run = publishing report steps := by
  induction steps with
  | nil => rfl
  | cons step rest ih =>
    rw [publish_cons, ih]
    show Process.ask (.perform step) _ = Process.ask (.perform step) _
    congr
    funext answer
    cases answer <;> rfl

theorem onDisk_publishing (report : ApplyReport) (steps : List FileStep) :
    (publishing report steps).onDisk = (publish steps report : Task (StateM Disk) ApplyReport).run := by
  induction steps with
  | nil => rfl
  | cons step rest ih =>
    rw [publish_cons, ← ih]
    show (FileStore.perform step : StateM Disk _) >>= _ = _
    congr
    funext answer
    cases answer <;> rfl

/-- A page as a process, once its data file is read. -/
def published (out : Path) : Except Failure (String × ApplyReport) → Process (Except Failure ApplyReport)
  | .error f => .done (.error f)
  | .ok (document, report) => publishing report (publishSteps out document)

theorem publishDocument_process (out : Path) (result : Except Failure (String × ApplyReport)) :
    (publishDocument out result : Process (Except Failure ApplyReport)) = published out result := by
  cases result with
  | error f => rfl
  | ok result => exact publish_process result.2 _

theorem onDisk_published (out : Path) (result : Except Failure (String × ApplyReport)) :
    (published out result).onDisk = (publishDocument out result : StateM Disk (Except Failure ApplyReport)) := by
  cases result with
  | error f => rfl
  | ok result => exact onDisk_publishing result.2 _

/-- A page as a process. -/
def pageProcess (data : Path) (kind : PageKind) (out : Path) (settings : ResolvedSettings) :
    Process (Except Failure ApplyReport) :=
  (renderPage data kind out settings : Task Process ApplyReport).run

section

variable (data : Path) (kind : PageKind) (out : Path) (settings : ResolvedSettings)

theorem pageProcess_eq : pageProcess data kind out settings =
    .ask (.readFile data) fun content => published out (documentIn kind data settings content) := by
  rw [pageProcess, renderPage_eq]
  exact congrArg (Process.ask (.readFile data)) (funext fun _ => publishDocument_process _ _)

/-- A page that takes all of its turns in a row is rendered. -/
theorem onDisk_pageProcess : (pageProcess data kind out settings).onDisk =
    (renderPage data kind out settings : Task (StateM Disk) ApplyReport).run := by
  rw [pageProcess_eq, renderPage_eq]
  exact congrArg (Bind.bind (FileStore.readFile data : StateM Disk (Except FileError ByteArray)))
    (funext fun _ => onDisk_published _ _)

section

variable {data kind out settings} {disk : Disk} {document : String} {report : ApplyReport} {f : Failure}

end

theorem loadPlan_run (disk : Disk) : (loadPlan kind data settings : Task (StateM Disk) RenderPlan).run disk =
    (planIn kind data settings (disk.readFile data), disk) := by
  rw [loadPlan_reads]
  rfl

theorem loadDocument_run (disk : Disk) :
    (loadDocument kind data settings : Task (StateM Disk) (String × ApplyReport)).run disk =
      (documentIn kind data settings (disk.readFile data), disk) := by
  rw [loadDocument_reads]
  rfl

end

end CoveragePages
