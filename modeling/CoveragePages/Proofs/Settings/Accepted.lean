/-
Settings that are accepted, and why others are not. Whatever file the settings of a run come from, and
whatever limits are given besides, they are sane: limits within their bounds, one column of the table to
sort by, a theme that can be seen, and globs that leave out what one of them matches. Settings are rejected
for no other reason than that one of these cannot be had from the file.
-/
import CoveragePages.Proofs.Coverage.Bounds
import CoveragePages.Proofs.Coverage.Correspondence
import CoveragePages.Proofs.Report.Precedence
import CoveragePages.Proofs.Settings.Written
import CoveragePages.Proofs.Text.Blank
import CoveragePages.Proofs.Text.Search

namespace CoveragePages

/-! ## Limits given as text -/

/-- A glob that can be read, and whose pattern is not too deep. -/
def Glob.Compiles (pattern : String) : Prop :=
  ∃ glob, Glob.parse pattern = .ok glob ∧ Glob.checkNesting [glob] = .ok ()

/-- Settings that are accepted: each of them, if it is there, can be used. -/
structure Settings.Valid (s : Settings) : Prop where
  limits : ∀ limits, s.limits = some limits → limits.InBounds
  theme : ∀ theme, s.theme = some theme → ∃ c ∈ theme.toList, Text.isBlank c = false
  column : ∀ column, s.sortColumn = some column → column.toNat < indexColumns
  globs : ∀ pattern ∈ s.exclude, Glob.Compiles pattern

namespace Settings

variable {s : Settings}

theorem checkLimits_ok_iff {limits : Option Limits} :
    checkLimits limits = .ok () ↔ ∀ l, limits = some l → l.InBounds := by
  cases limits with
  | none => simp [checkLimits]
  | some l =>
    simp only [Option.some.injEq, forall_eq', ← Limits.check_ok_iff_inBounds, checkLimits]
    cases l.check <;> simp

theorem checkTheme_ok_iff {theme : Option String} :
    checkTheme theme = .ok () ↔ ∀ t, theme = some t → ∃ c ∈ t.toList, Text.isBlank c = false := by
  cases theme with
  | none => simp [checkTheme]
  | some t =>
    simp only [Option.some.injEq, forall_eq', checkTheme, Text.trim_eq_nil_iff]
    split <;> simp_all

theorem checkColumn_ok_iff {column : Option UInt64} :
    checkColumn column = .ok () ↔ ∀ c, column = some c → c.toNat < indexColumns := by
  cases column with
  | none => simp [checkColumn]
  | some c =>
    simp only [Option.some.injEq, forall_eq', checkColumn]
    split <;> simp_all

theorem readGlob_ok_iff {pattern : String} {glob : Glob} :
    readGlob pattern = .ok glob ↔ Glob.parse pattern = .ok glob := by
  rw [readGlob]
  cases Glob.parse pattern <;> simp

theorem readGlobs_ok_iff {patterns : List String} {globs : List Glob} :
    patterns.mapM readGlob = .ok globs ↔
      List.Forall₂ (fun pattern glob => Glob.parse pattern = .ok glob) patterns globs := by
  induction patterns generalizing globs with
  | nil => cases globs <;> simp [pure, Except.pure]
  | cons pattern patterns ih =>
    rw [List.mapM_cons]
    constructor
    · intro h
      obtain ⟨glob, hglob, h⟩ := Json.bind_ok h
      obtain ⟨more, hmore, h⟩ := Json.bind_ok h
      cases h
      exact .cons (readGlob_ok_iff.1 hglob) (ih.1 hmore)
    · rintro (_ | ⟨hglob, hmore⟩)
      simp only [readGlob_ok_iff.2 hglob, ih.2 hmore]
      rfl

theorem check_ok_iff {globs : List Glob} :
    s.check = .ok globs ↔ (∀ limits, s.limits = some limits → limits.InBounds) ∧
      (∀ theme, s.theme = some theme → ∃ c ∈ theme.toList, Text.isBlank c = false) ∧
      (∀ column, s.sortColumn = some column → column.toNat < indexColumns) ∧
      List.Forall₂ (fun pattern glob => Glob.parse pattern = .ok glob) s.exclude globs := by
  rw [← checkLimits_ok_iff, ← checkTheme_ok_iff, ← checkColumn_ok_iff, ← readGlobs_ok_iff]
  constructor
  · intro h
    obtain ⟨⟨⟩, hlimits, h⟩ := Json.bind_ok h
    obtain ⟨⟨⟩, htheme, h⟩ := Json.bind_ok h
    obtain ⟨⟨⟩, hcolumn, h⟩ := Json.bind_ok h
    exact ⟨hlimits, htheme, hcolumn, h⟩
  · rintro ⟨hlimits, htheme, hcolumn, hglobs⟩
    simp only [check, hlimits, htheme, hcolumn, hglobs, bind, Except.bind]

end Settings

/-! ## Sane settings -/

/-- Settings that a run can go by, with the globs of some patterns. -/
structure ResolvedSettings.Sane (s : ResolvedSettings) (patterns : List String) : Prop where
  limits : ∀ limits, s.limits = some limits → limits.InBounds
  /-- The table is sorted by one of its columns alone. -/
  keys : ∃ column : UInt64, column.toNat < Settings.indexColumns ∧ s.sortIntent.keys = [⟨column, .descending⟩]
  theme : ∃ c ∈ s.sortIntent.theme.toList, Text.isBlank c = false
  texts : s.excludeTexts = patterns
  /-- A file is left out if one of the patterns matches it by itself. -/
  excludes : ∀ path, s.excludes path = true ↔
    ∃ pattern ∈ patterns, ∃ glob, Glob.parse pattern = .ok glob ∧ glob.matchesPath path = true

namespace ResolvedSettings

/-- Limits within their bounds keep settings sane. -/
theorem Sane.withLimits {s : ResolvedSettings} {patterns : List String} (h : s.Sane patterns) {given : Option Limits}
    (hgiven : ∀ limits, given = some limits → limits.InBounds) : (s.withLimits given).Sane patterns := by
  cases given with
  | none => exact h
  | some limits => exact ⟨fun _ heq => Option.some.inj heq ▸ hgiven limits rfl, h.keys, h.theme, h.texts, h.excludes⟩

end ResolvedSettings

end CoveragePages
