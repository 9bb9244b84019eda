/-
The two classifiers side by side. A header tests the low limit first and a row the high one, so the
classes differ exactly where a ratio has both limits against it; limits that are accepted leave no such
ratio, and the header of a file and its row on an index page then always tell the same.
-/
import CoveragePages.Header
import CoveragePages.Proofs.Coverage.Classes
import CoveragePages.Proofs.Dict
import CoveragePages.Proofs.Json.Grammar
import CoveragePages.Records.Rows
import CoveragePages.Settings

namespace CoveragePages

open Binary64

/-! ## Numbers that can be compared -/

namespace Binary64

theorem isNaN_of_le {x y : Binary64} (h : x ≤ y) : x.isNaN = false ∧ y.isNaN = false := by
  cases x with
  | nan => cases h
  | ranked =>
    cases y with
    | nan => cases h
    | ranked => exact ⟨rfl, rfl⟩

/-- Any two numbers can be compared, also infinite ones. -/
theorem lt_iff_not_le {x y : Binary64} (hx : x.isNaN = false) (hy : y.isNaN = false) : x < y ↔ ¬ y ≤ x := by
  cases x with
  | nan => cases hx
  | ranked s a =>
    cases y with
    | nan => cases hy
    | ranked t b =>
      show decide (place s a < place t b) = true ↔ ¬ decide (place t b ≤ place s a) = true
      rw [decide_eq_true_eq, decide_eq_true_eq, Int.not_le]

end Binary64

/-! ## Limits that a person sets -/

namespace Limits

variable {limits : Limits}

/-- Accepted limits are numbers, and no ratio is at the high one and at the low one. -/
theorem apart_of_check (h : limits.check = .ok ()) :
    limits.low.isNaN = false ∧ limits.high.isNaN = false ∧ ∀ ratio, ¬ (limits.high ≤ ratio ∧ ratio ≤ limits.low) := by
  obtain ⟨hlow, hhigh, hbelow⟩ := check_ok_iff.1 h
  refine ⟨(isNaN_of_le (isPercentage_iff.1 hlow).1).2, (isNaN_of_le (isPercentage_iff.1 hhigh).1).2, ?_⟩
  rintro ratio ⟨hover, hunder⟩
  exact hbelow (Binary64.le_trans hover hunder)

/-- Limits are set by a text of the two numbers, or by settings that are accepted. -/
inductive IsSet : Limits → Prop
  | text {limits : Limits} {text : String} : parse text = .ok limits → IsSet limits
  | settings {limits : Limits} {settings : Settings} {resolved : ResolvedSettings} :
      settings.resolve = .ok resolved → resolved.limits = some limits → IsSet limits

theorem check_of_parse {text : String} (h : parse text = .ok limits) : limits.check = .ok () := by
  unfold parse at h
  split at h
  · cases h
  · obtain ⟨low, -, h⟩ := Json.bind_ok h
    obtain ⟨high, -, h⟩ := Json.bind_ok h
    dsimp only at h
    split at h
    · rename_i hcheck
      cases h
      exact hcheck
    · cases h

theorem check_of_resolve {settings : Settings} {resolved : ResolvedSettings} (h : settings.resolve = .ok resolved)
    (hlimits : resolved.limits = some limits) : limits.check = .ok () := by
  obtain ⟨globs, hcheck, h⟩ := Json.bind_ok h
  obtain ⟨-, -, h⟩ := Json.bind_ok h
  cases h
  obtain ⟨⟨⟩, hcheck, -⟩ := Json.bind_ok hcheck
  rw [show settings.limits = some limits from hlimits, Settings.checkLimits] at hcheck
  split at hcheck
  · assumption
  · cases hcheck

/-- However limits are set, they are accepted. -/
theorem IsSet.check_ok (h : limits.IsSet) : limits.check = .ok () := by
  cases h with
  | text h => exact check_of_parse h
  | settings h hlimits => exact check_of_resolve h hlimits

end Limits

/-! ## Headers and rows -/

/-- The class of a row that tells the same as the class of a header. -/
def CoverageClass.rowClass : CoverageClass → RowClass
  | low => .uncovered
  | medium => .partly
  | high => .covered

/-- Whether the header and the row of a ratio tell the same. -/
def Correspond (ratio : Binary64) (limits : Limits) : Prop :=
  RowClass.ofRatio ratio limits = (CoverageClass.ofRatio ratio limits).rowClass

section

variable {ratio : Binary64} {limits : Limits}

theorem correspond_iff (hratio : ratio.isNaN = false) (hlow : limits.low.isNaN = false) :
    Correspond ratio limits ↔ ¬ (limits.high ≤ ratio ∧ ratio ≤ limits.low) := by
  have habove := lt_iff_not_le hlow hratio
  unfold Correspond RowClass.ofRatio CoverageClass.ofRatio
  by_cases hunder : ratio ≤ limits.low
  · -- the header is low, and the row is not partly covered
    rw [if_pos hunder, if_neg fun h => habove.1 h hunder]
    by_cases hover : limits.high ≤ ratio <;> simp [hover, hunder, CoverageClass.rowClass]
  · rw [if_neg hunder, if_pos (habove.2 hunder)]
    by_cases hover : limits.high ≤ ratio <;> simp [hover, hunder, CoverageClass.rowClass]

theorem correspond_of_check (h : limits.check = .ok ()) (hratio : ratio.isNaN = false) : Correspond ratio limits := by
  obtain ⟨hlow, -, hapart⟩ := Limits.apart_of_check h
  exact (correspond_iff hratio hlow).2 (hapart ratio)

end

/-- The class that the row of a file is displayed in. -/
theorem FileSummary.fieldText_class (file : FileSummary) (limits : Limits) :
    (file.toRecord limits).fieldText "covered_class" = (RowClass.ofRatio file.percent limits).css := by
  simp [FileSummary.toRecord, Record.fieldText, Record.get?, Record.insertText, Record.insert, Dict.get?_insert]

theorem coverageRatio_isNaN {covered instrumented : UInt64} (h : 0 < instrumented) :
    (coverageRatio covered instrumented).isNaN = false := by
  rw [coverageRatio_eq h]
  rfl

/-- The row of a file is displayed in the class of the page header with the same counts. -/
theorem FileSummary.class_of_header {limits : Limits} (h : limits.check = .ok ()) {file : FileSummary} {header : Header}
    (hlines : 0 < file.totalLines) (hcovered : header.covered = file.coveredLines)
    (hinstrumented : header.instrumented = file.totalLines) :
    (file.toRecord limits).fieldText "covered_class" =
      (HeaderView.ofHeader header limits).percentClass.rowClass.css := by
  have hpercent : file.percent = coverageRatio file.coveredLines file.totalLines :=
    if_neg (UInt64.pos_iff_ne_zero.1 hlines)
  have hratio : (coverageRatio file.coveredLines file.totalLines).isNaN = false := coverageRatio_isNaN hlines
  have hclass := correspond_of_check h hratio
  rw [FileSummary.fieldText_class, hpercent, hclass, HeaderView.ofHeader, CoverageClass.ofCounts, hcovered,
    hinstrumented]

/-- Among numbers, a header and a row differ exactly where the high limit is at most the ratio and the ratio at
most the low limit. Limits that are accepted, as all are that a person sets, leave no such ratio, so the row of a
file is always in the class of a header with its counts. -/
theorem rows_follow_headers (limits : Limits) :
    (limits.low.isNaN = false → limits.high.isNaN = false → ∀ ratio : Binary64, ratio.isNaN = false →
      (Correspond ratio limits ↔ ¬ (limits.high ≤ ratio ∧ ratio ≤ limits.low))) ∧
    (limits.check = .ok () →
      (∀ ratio : Binary64, ratio.isNaN = false → Correspond ratio limits) ∧
      ∀ (file : FileSummary) (header : Header), 0 < file.totalLines → header.covered = file.coveredLines →
        header.instrumented = file.totalLines → (file.toRecord limits).fieldText "covered_class" =
          (HeaderView.ofHeader header limits).percentClass.rowClass.css) ∧
    (limits.IsSet → limits.check = .ok ()) :=
  ⟨fun hlow _ _ hratio => correspond_iff hratio hlow,
    fun h => ⟨fun _ hratio => correspond_of_check h hratio, fun _ _ hlines hcovered hinstrumented =>
      FileSummary.class_of_header h hlines hcovered hinstrumented⟩,
    Limits.IsSet.check_ok⟩

theorem rows_follow_headers_sample :
    let crossed : Limits := ⟨Binary64.ofNat 75, Binary64.ofNat 25⟩
    let file : FileSummary := ⟨"main.c.html", "main.c", "src/main.c", 1, 3⟩
    let header : Header := ⟨"main", "2024-01-01", 1, 3⟩
    (crossed.low.isNaN = false ∧ crossed.high.isNaN = false ∧ (Binary64.ofNat 50).isNaN = false ∧
      ¬ Correspond (Binary64.ofNat 50) crossed) ∧
    (Limits.standard.IsSet ∧ Limits.standard.check = .ok () ∧ (infinity false).isNaN = false ∧
      Correspond (infinity false) Limits.standard) ∧
    0 < file.totalLines ∧ header.covered = file.coveredLines ∧ header.instrumented = file.totalLines ∧
      (file.toRecord Limits.standard).fieldText "covered_class" = "linePartCov" := by
  intro crossed file header
  have hboth : crossed.high ≤ Binary64.ofNat 50 ∧ Binary64.ofNat 50 ≤ crossed.low := by decide +kernel
  have hset : Limits.standard.IsSet := by
    have hcheck : Settings.checkLimits (some Limits.standard) = .ok () := by
      rw [Settings.checkLimits, check_ok_iff.2 (by decide +kernel)]
    have hresolve : Settings.resolve { limits := some Limits.standard } =
        .ok ⟨some .standard, none, none, [], none⟩ := by
      rw [Settings.resolve, Settings.check, hcheck]
      rfl
    exact .settings hresolve rfl
  have hcheck := (rows_follow_headers Limits.standard).2.2 hset
  have hcrossed := (rows_follow_headers crossed).1 rfl rfl (Binary64.ofNat 50) rfl
  obtain ⟨hratios, hfiles⟩ := (rows_follow_headers Limits.standard).2.1 hcheck
  have hmedium : (HeaderView.ofHeader header Limits.standard).percentClass = .medium := by decide +kernel
  have hclass := hfiles file header (by decide) rfl rfl
  rw [hmedium] at hclass
  exact ⟨⟨rfl, rfl, rfl, fun h => hcrossed.1 h hboth⟩, ⟨hset, hcheck, rfl, hratios _ rfl⟩, by decide, rfl, rfl, hclass⟩

end CoveragePages
