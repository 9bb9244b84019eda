/-
What can go wrong, and in the course of what. A failure is a cause inside some contexts; its text
is that of the contexts, from the outside in, and then that of the cause.
-/
import CoveragePages.Files.Store
import CoveragePages.Markup.Page
import CoveragePages.Settings

namespace CoveragePages

/-! ## Contexts -/

/-- What was being done. -/
inductive Context where
  | loadingSettings
  | readingSettings (path : Path)
  | parsingSettings (path : Path)
  | checkingSettings (path : Path)
  | readingGlob (text : String)
  | readingLimit (name part : String)
  | readingPage (path : Path)
  | parsingPage (path : Path)
  | readingDocument
  | readingVariable (name : String)
  | readingStatement (refusal : Script.Refusal)
  | readingTemplate (slot : String)
  | creatingDirectory (path : Path)
  | writingTemporary (path : Path)
  | renamingTo (path : Path)

def Context.message : Context → String
  | loadingSettings => "failed to load configuration"
  | readingSettings path => "failed to read config file: " ++ path.text
  | parsingSettings path => "failed to parse config file: " ++ path.text
  | checkingSettings path => "invalid config in: " ++ path.text
  | readingGlob text => "invalid exclude pattern: " ++ text
  | readingLimit name part => "invalid " ++ name ++ " limit: " ++ Text.quoted part
  | readingPage path => "failed to read page data: " ++ path.text
  | parsingPage path => "failed to parse page data: " ++ path.text
  | readingDocument => "invalid page data JSON"
  | readingVariable name => "invalid `" ++ name ++ "` value"
  | readingStatement refusal => refusal.message
  | readingTemplate slot => "invalid row template for slot " ++ slot
  | creatingDirectory path => "Failed to create directory: " ++ path.text
  | writingTemporary path => "Failed to write temporary file: " ++ path.text
  | renamingTo path => "Failed to rename temporary file to: " ++ path.text

/-! ## Causes -/

/-- What went wrong. -/
inductive Cause where
  | missingItem (item : PageData.Item)
  | json (refusal : Json.Refusal)
  | glob (refusal : Glob.Refusal)
  | globs (refusal : Glob.SetRefusal)
  | file (error : FileError)
  | number (refusal : Decimal.Refusal)
  | script (refusal : Script.Refusal)
  | template (refusal : RowTemplate.Refusal)
  | noTemplate (slot : String)
  | limits (refusal : Limits.Refusal)
  | noLimitPair (text : String)
  | notNumber (name : String) (value : Json)
  | blankTheme
  | noSuchColumn (column : UInt64)
  | notDirectory (path : Path)
  | pagesFailed (count : Nat)

def Cause.message : Cause → String
  | missingItem item => (SurfaceError.missingData item.name).message
  | json refusal => refusal.message
  | glob refusal => refusal.message
  | globs refusal => refusal.message
  | file error => error.message
  | number refusal => refusal.message
  | script refusal => refusal.message
  | template refusal => refusal.message
  | noTemplate slot => "no built-in template for slot " ++ slot
  | limits refusal => refusal.message
  | noLimitPair text => "expected LOW,HIGH (got " ++ Text.quoted text ++ ")"
  | notNumber name value => "`" ++ name ++ "` must be a number (got " ++ value.compact ++ ")"
  | blankTheme => "theme must not be empty"
  | noSuchColumn column =>
    "sort_column must be less than " ++ toString Settings.indexColumns ++
      " (got " ++ toString column.toNat ++ ")"
  | notDirectory path => "Not a directory: " ++ path.text
  | pagesFailed count => toString count ++ " page(s) failed to render"

/-! ## Failures -/

/-- A cause, and the contexts it arose in, from the outside in. -/
structure Failure where
  contexts : List Context
  cause : Cause

namespace Failure

/-- A cause without a context. -/
def of (cause : Cause) : Failure := ⟨[], cause⟩

/-- The failure inside another context. -/
def within (context : Context) (f : Failure) : Failure :=
  { f with contexts := context :: f.contexts }

/-- The texts of the contexts and of the cause. -/
def chain (f : Failure) : List String := f.contexts.map Context.message ++ [f.cause.message]

def message (f : Failure) : String := Text.join ": " f.chain

/-- The failure of a text of limits. -/
def ofLimitsText : Limits.TextRefusal → Failure
  | .noComma text => .of (.noLimitPair text)
  | .badNumber name part cause => (of (.number cause)).within (.readingLimit name part)
  | .invalid cause => .of (.limits cause)

/-- The failure of settings. -/
def ofSettings : Settings.Refusal → Failure
  | .limits cause => .of (.limits cause)
  | .blankTheme => .of .blankTheme
  | .noSuchColumn column => .of (.noSuchColumn column)
  | .badGlob text cause => (of (.glob cause)).within (.readingGlob text)
  | .globs cause => .of (.globs cause)

/-- The failure of a script. -/
def ofScript : Script.Refusal → Failure
  | refusal@(.badValue _ _ cause) => (of (.json cause)).within (.readingStatement refusal)
  | refusal => .of (.script refusal)

/-- The failure of page data. -/
def ofPageData : PageData.Refusal → Failure
  | .script cause => ofScript cause
  | .badVariable name cause => (of (.json cause)).within (.readingVariable name)
  | .notNumber name value => .of (.notNumber name value)
  | .document cause => (of (.json cause)).within .readingDocument

/-- The failure of setting up a page. -/
def ofHtmlPage : HtmlPage.Refusal → Failure
  | .noTemplate slot => .of (.noTemplate slot)
  | .badTemplate slot cause => (of (.template cause)).within (.readingTemplate slot)

end Failure

end CoveragePages
