/-
The data files of a build and the names of their pages. The name of a data file is that of its page with
another extension, and back, so pages and their temporary files have names of their own, and none of them is
the name of a data file.
-/
import CoveragePages.Proofs.Files.Below
import CoveragePages.Report.Publish

namespace CoveragePages

open CoveragePages.Path

/-! ## Cutting at the last place of a character -/

namespace Text

section

variable {α : Type} [DecidableEq α] {c : α}

theorem breakOnLast?_append (a : List α) {b : List α} (h : c ∉ b) :
    breakOnLast? c (a ++ c :: b) = some (a, b) := by
  have hafter : ((a ++ c :: b).reverse.takeWhile (· ≠ c)).reverse = b := by
    rw [List.reverse_append, List.reverse_cons, List.append_assoc, List.singleton_append,
      List.takeWhile_append_of_pos fun x hx => decide_eq_true (ne_of_mem_of_not_mem (List.mem_reverse.1 hx) h),
      List.takeWhile_cons_of_neg (by simp), List.append_nil, List.reverse_reverse]
  rw [breakOnLast?, if_pos (by simp)]
  simp only [hafter]
  congr 2
  rw [List.length_append, List.length_cons, show a.length + (b.length + 1) - b.length - 1 = a.length by omega,
    List.take_left]

theorem breakOnLast?_eq_some {cs a b : List α} :
    breakOnLast? c cs = some (a, b) ↔ cs = a ++ c :: b ∧ c ∉ b := by
  refine ⟨fun h => ?_, fun ⟨hcs, hb⟩ => hcs ▸ breakOnLast?_append a hb⟩
  by_cases hmem : c ∈ cs
  · obtain ⟨after, before, hreverse, hafter⟩ := List.eq_append_cons_of_mem (List.mem_reverse.2 hmem)
    have hcs : cs = before.reverse ++ c :: after.reverse := by
      rw [← List.reverse_reverse cs, hreverse]
      simp
    have hplain : c ∉ after.reverse := fun hc => hafter (List.mem_reverse.1 hc)
    rw [hcs, breakOnLast?_append _ hplain] at h
    cases h
    exact ⟨hcs, hplain⟩
  · rw [breakOnLast?, if_neg hmem] at h
    cases h

end

theorem dropEnd?_eq_some {pattern cs rest : List Char} : dropEnd? pattern cs = some rest ↔ cs = rest ++ pattern := by
  rw [dropEnd?]
  constructor
  · intro h
    split at h
    · next hsuffix =>
      obtain ⟨front, hfront⟩ := List.isSuffixOf_iff_suffix.1 hsuffix
      cases h
      rw [← hfront]
      simp
    · cases h
  · rintro rfl
    rw [if_pos (List.isSuffixOf_iff_suffix.2 (List.suffix_append _ _))]
    simp

end Text

/-! ## Names of data files -/

/-- The names of data files: `index.json`, and `FILE.CRC.json` with a hexadecimal checksum. -/
def IsDataName (name : String) : Prop :=
  name = "index.json" ∨
    ∃ file crc : String, name = file ++ "." ++ crc ++ ".json" ∧ file ≠ "" ∧ crc ≠ "" ∧ ∀ c ∈ crc.toList, isHexDigit c

theorem isPageDataName_iff (name : String) : isPageDataName name = true ↔ IsDataName name := by
  rw [isPageDataName, Bool.or_eq_true, beq_iff_eq]
  refine or_congr Iff.rfl ?_
  constructor
  · intro h
    cases hstem : Text.dropEnd? ".json".toList name.toList with
    | none => rw [hstem] at h; cases h
    | some stem =>
      rw [hstem] at h
      cases hcut : Text.breakOnLast? '.' stem with
      | none => simp only [hcut] at h; cases h
      | some cut =>
        obtain ⟨file, crc⟩ := cut
        simp only [hcut, Bool.and_eq_true, Bool.not_eq_true', List.isEmpty_eq_false_iff, List.all_eq_true] at h
        obtain ⟨⟨hfile, hcrc⟩, hdigits⟩ := h
        obtain ⟨rfl, -⟩ := Text.breakOnLast?_eq_some.1 hcut
        have hname := Text.dropEnd?_eq_some.1 hstem
        refine ⟨String.ofList file, String.ofList crc, ?_, ?_, ?_, ?_⟩
        · apply String.toList_inj.1
          rw [hname]
          simp
        · exact fun hempty => hfile (by simpa using congrArg String.toList hempty)
        · exact fun hempty => hcrc (by simpa using congrArg String.toList hempty)
        · simpa using hdigits
  · rintro ⟨file, crc, rfl, hfile, hcrc, hdigits⟩
    have hplain : '.' ∉ crc.toList := fun hdot => absurd (hdigits '.' hdot) (by decide)
    have hstem : Text.dropEnd? ".json".toList (file ++ "." ++ crc ++ ".json").toList =
        some (file.toList ++ '.' :: crc.toList) :=
      Text.dropEnd?_eq_some.2 (by simp)
    rw [hstem]
    simp only [Text.breakOnLast?_append _ hplain, Bool.and_eq_true, Bool.not_eq_true', List.isEmpty_eq_false_iff,
      List.all_eq_true]
    exact ⟨⟨fun h => hfile (String.toList_inj.1 h), fun h => hcrc (String.toList_inj.1 h)⟩, hdigits⟩

/-- The name of a data file, in bytes. -/
def IsDataPart (name : Part) : Prop := ∃ text, name = nameOf text ∧ IsDataName text

theorem isDataPart_iff (name : Part) : (Text.decode? name).any isPageDataName = true ↔ IsDataPart name := by
  rw [Option.any_eq_true]
  simp only [Text.decode?_eq_some, isPageDataName_iff]
  rfl

/-- A data file has a name with the extension `json`. -/
theorem IsDataPart.json {name : Part} (h : IsDataPart name) : ∃ stem, stem ≠ [] ∧ name = stem ++ nameOf ".json" := by
  obtain ⟨text, rfl, rfl | ⟨file, crc, rfl, hfile, -, -⟩⟩ := h
  · exact ⟨nameOf "index", by decide, by decide⟩
  · refine ⟨nameOf (file ++ "." ++ crc), ?_, ?_⟩
    · have hdot : Text.bytes ".".toList ≠ [] := by decide
      simp only [nameOf, String.toList_append, Text.bytes_append]
      exact List.append_ne_nil_of_left_ne_nil (List.append_ne_nil_of_right_ne_nil _ hdot) _
    · simp only [nameOf, String.toList_append, Text.bytes_append]

/-! ## Trees and the files below a directory -/

/-- A disk whose entries form a tree: each stands under its own names, in a directory. -/
structure Disk.IsTree (disk : Disk) : Prop where
  nodup : (disk.entries.map (·.1)).Nodup
  names : ∀ entry ∈ disk.entries, entry.1 ≠ [] ∧ ∀ name ∈ entry.1, IsName name
  parents : ∀ entry ∈ disk.entries, disk.get? entry.1.dropLast = some .directory

namespace Disk

variable {disk : Disk}

theorem mem_of_get? {names : Location} {entry : Entry} (hne : names ≠ []) (h : disk.get? names = some entry) :
    (names, entry) ∈ disk.entries := by
  rw [get?, if_neg hne] at h
  obtain ⟨before, after, hentries, -⟩ := List.lookup_eq_some_iff.1 h
  rw [hentries]
  exact List.mem_append_right _ List.mem_cons_self

theorem IsTree.get?_of_mem (h : disk.IsTree) {names : Location} {entry : Entry}
    (hmem : (names, entry) ∈ disk.entries) :
    disk.get? names = some entry := by
  rw [get?, if_neg (h.names _ hmem).1]
  obtain ⟨before, after, hentries⟩ := List.append_of_mem hmem
  have hnodup := h.nodup
  rw [hentries, List.map_append, List.nodup_append] at hnodup
  refine List.lookup_eq_some_iff.2 ⟨before, after, hentries, fun other hother => bne_iff_ne.2 ?_⟩
  exact (hnodup.2.2 other.1 (List.mem_map_of_mem hother) names List.mem_cons_self).symm

/-- What an entry lies in is a directory. -/
theorem IsTree.above (h : disk.IsTree) {above below : Location} {entry : Entry} (hbelow : below ≠ [])
    (hget : disk.get? (above ++ below) = some entry) : disk.get? above = some .directory := by
  induction below using List.reverseRecOn generalizing entry with
  | nil => exact absurd rfl hbelow
  | append_singleton init last ih =>
    have hparent := h.parents _ (mem_of_get? (by simp) hget)
    rw [← List.append_assoc, List.dropLast_concat] at hparent
    by_cases hinit : init = []
    · rw [hinit, List.append_nil] at hparent
      exact hparent
    · exact ih hinit hparent

theorem IsTree.isName (h : disk.IsTree) {names : Location} {entry : Entry} (hget : disk.get? names = some entry) :
    ∀ name ∈ names, IsName name := by
  by_cases hne : names = []
  · rw [hne]
    exact fun name hname => absurd hname List.not_mem_nil
  · exact (h.names _ (mem_of_get? hne hget)).2

/-- The names of a file below a directory, from the directory on, if the directories between can be listed. -/
def below? (disk : Disk) (path : Path) (base : Location) (entry : Location × Entry) : Option Location :=
  match entry with
  | (place, .file _) =>
    let names := place.drop base.length
    if base.isPrefixOf place && disk.lists path base names then some names else none
  | _ => none

theorem filesBelow_eq {directory : Path} {base : Location} (h : disk.directory? directory = some base) :
    disk.filesBelow directory = (disk.entries.filterMap (disk.below? directory base)).mergeSort namesLe := by
  rw [filesBelow, h]
  refine congrArg (List.mergeSort · namesLe) (List.filterMap_congr fun entry _ => ?_)
  obtain ⟨place, kind⟩ := entry
  cases kind <;> rfl

theorem below?_eq_some {directory : Path} {base names : Location} {entry : Location × Entry} :
    disk.below? directory base entry = some names ↔
      (∃ content, entry = (base ++ names, .file content)) ∧ disk.lists directory base names = true := by
  obtain ⟨key, kind⟩ := entry
  cases kind with
  | directory | link target | device => exact ⟨fun h => (by cases h), fun ⟨⟨_, h⟩, _⟩ => (by cases h)⟩
  | file content =>
    rw [below?]
    constructor
    · intro h
      split at h
      · next hbase =>
        obtain ⟨hinner, hlists⟩ := Bool.and_eq_true_iff.1 hbase
        obtain ⟨rest, rfl⟩ := List.isPrefixOf_iff_prefix.1 hinner
        rw [List.drop_left] at h hlists
        cases h
        exact ⟨⟨content, rfl⟩, hlists⟩
      · cases h
    · rintro ⟨⟨other, h⟩, hlists⟩
      cases h
      have hbase : (base.isPrefixOf (base ++ names) && disk.lists directory base ((base ++ names).drop base.length)) =
          true := by
        rw [List.drop_left, hlists, Bool.and_true]
        exact List.isPrefixOf_iff_prefix.2 (List.prefix_append _ _)
      rw [if_pos hbase, List.drop_left]

/-- The files below a directory are listed once each. -/
theorem IsTree.nodup_filesBelow (h : disk.IsTree) {directory : Path} {base : Location}
    (hfound : disk.directory? directory = some base) : (disk.filesBelow directory).Nodup := by
  rw [filesBelow_eq hfound, (List.mergeSort_perm _ _).nodup_iff, List.Nodup, List.pairwise_filterMap]
  refine (List.pairwise_map.1 h.nodup).imp fun {a b} hab x hx y hy hxy => ?_
  obtain ⟨⟨_, rfl⟩, -⟩ := below?_eq_some.1 hx
  obtain ⟨⟨_, rfl⟩, -⟩ := below?_eq_some.1 hy
  exact hab (by rw [hxy])

theorem IsTree.mem_filesBelow (h : disk.IsTree) {directory : Path} {base names : Location}
    (hfound : disk.directory? directory = some base) (hne : names ≠ []) :
    names ∈ disk.filesBelow directory ↔
      (∃ content, disk.get? (base ++ names) = some (.file content)) ∧ disk.lists directory base names = true := by
  rw [filesBelow_eq hfound, (List.mergeSort_perm _ _).mem_iff, List.mem_filterMap]
  constructor
  · rintro ⟨entry, hentry, hbelow⟩
    obtain ⟨⟨content, rfl⟩, hlists⟩ := below?_eq_some.1 hbelow
    exact ⟨⟨content, h.get?_of_mem hentry⟩, hlists⟩
  · rintro ⟨⟨content, hget⟩, hlists⟩
    exact ⟨_, mem_of_get? (by simp [hne]) hget, below?_eq_some.2 ⟨⟨content, rfl⟩, hlists⟩⟩

end Disk

/-! ## Names with another extension -/

namespace Path

/-- A name with its extension replaced. -/
def replaced (extension : String) (name : Part) : Part := stem name ++ dot :: nameOf extension

/-- Names with the extension of the last one replaced. -/
def sibling (extension : String) (names : Location) : Location :=
  names.dropLast ++ [replaced extension (names.getLast?.getD [])]

@[simp] theorem sibling_concat (extension : String) (dirs : Location) (name : Part) :
    sibling extension (dirs ++ [name]) = dirs ++ [replaced extension name] := by
  simp [sibling]

theorem stem_append {before after : Part} (hbefore : before ≠ []) (hafter : dot ∉ after) :
    stem (before ++ dot :: after) = before := by
  rw [stem, Text.breakOnLast?_append _ hafter]
  exact if_neg hbefore

theorem withExtension_join (base : Path) (extension : String) {dirs : Location} {name : Part}
    (hdirs : ∀ dir ∈ dirs, IsName dir) (hname : IsName name) (hreplaced : IsName (replaced extension name)) :
    (base.join (.ofNames (dirs ++ [name]))).withExtension extension =
      base.join (.ofNames (dirs ++ [replaced extension name])) := by
  have hall := isName_concat hdirs hname
  have htidy := tidy_join base (by simp) hall
  have hfile : (ofParts base.isAbsolute (base.lead ++ (dirs ++ [name]))).fileName? = some name := by
    rw [fileName?, parts_ofParts htidy, ← List.append_assoc, List.getLast?_concat]
    exact if_neg (not_or.2 ⟨hname.ne_here, hname.ne_up⟩)
  rw [join_ofNames base (by simp) hall, join_ofNames base (by simp) (isName_concat hdirs hreplaced),
    withExtension, hfile]
  simp only [withParts, isAbsolute_ofParts htidy, parts_ofParts htidy]
  rw [← List.append_assoc, List.dropLast_concat, List.append_assoc, replaced]

end Path

/-! ## Data files and their pages -/

/-- The names that lead to a data file. -/
structure IsDataFile (names : Location) : Prop where
  valid : ∀ name ∈ names, IsName name
  data : ∃ name, names.getLast? = some name ∧ IsDataPart name

theorem IsDataFile.cases {names : Location} (h : IsDataFile names) :
    ∃ dirs name, names = dirs ++ [name] ∧ (∀ dir ∈ dirs, IsName dir) ∧ IsName name ∧ IsDataPart name := by
  obtain ⟨name, hlast, hdata⟩ := h.data
  obtain ⟨dirs, rfl⟩ := List.getLast?_eq_some_iff.1 hlast
  exact ⟨dirs, name, rfl, fun dir hdir => h.valid dir (List.mem_append_left _ hdir), h.valid name (by simp), hdata⟩

/-- The extensions of pages and of temporary files. -/
def IsPageExtension (extension : String) : Prop := extension = "html" ∨ extension = "html.tmp"

theorem replaced_json {name stem : Part} (hstem : stem ≠ []) (hname : name = stem ++ nameOf ".json")
    (extension : String) :
    replaced extension name = stem ++ dot :: nameOf extension := by
  have hjson : nameOf ".json" = dot :: nameOf "json" := by decide
  rw [replaced, hname, hjson, stem_append hstem (by decide)]

theorem isName_replaced {name : Part} {extension : String} (hname : IsName name) (hdata : IsDataPart name)
    (h : IsPageExtension extension) : IsName (replaced extension name) := by
  obtain ⟨stem, hstem, hjson⟩ := hdata.json
  have hbytes := replaced_json hstem hjson extension
  have hlength : 6 ≤ (replaced extension name).length := by
    have hpositive := List.length_pos_iff.2 hstem
    have hextension : 4 ≤ (nameOf extension).length := by
      rcases h with rfl | rfl <;> decide
    rw [hbytes, List.length_append, List.length_cons]
    omega
  refine ⟨fun hempty => ?_, fun hhere => ?_, fun hup => ?_, ?_⟩
  · rw [hempty] at hlength
    exact absurd hlength (by decide)
  · rw [hhere] at hlength
    exact absurd hlength (by decide)
  · rw [hup] at hlength
    exact absurd hlength (by decide)
  · rw [hbytes]
    intro hslash
    rcases List.mem_append.1 hslash with hslash | hslash
    · exact hname.plain (by rw [hjson]; exact List.mem_append_left _ hslash)
    · rcases h with rfl | rfl <;> exact absurd hslash (by decide)

theorem replaced_replaced {name : Part} (hdata : IsDataPart name) :
    replaced "html.tmp" (replaced "html" name) = replaced "html.tmp" name := by
  obtain ⟨stem, hstem, hjson⟩ := hdata.json
  rw [replaced_json hstem hjson, replaced_json hstem hjson, replaced, stem_append hstem (by decide)]

section

variable {names : Location}

theorem outputPath_eq (out : Path) (h : IsDataFile names) :
    outputPath out names = out.join (.ofNames (sibling "html" names)) := by
  obtain ⟨dirs, name, rfl, hdirs, hname, hdata⟩ := h.cases
  rw [sibling_concat]
  exact withExtension_join out "html" hdirs hname (isName_replaced hname hdata (.inl rfl))

theorem temporaryPath_eq (out : Path) (h : IsDataFile names) :
    temporaryPath (outputPath out names) = out.join (.ofNames (sibling "html.tmp" names)) := by
  rw [outputPath_eq out h]
  obtain ⟨dirs, name, rfl, hdirs, hname, hdata⟩ := h.cases
  have hpage := isName_replaced hname hdata (.inl rfl)
  rw [sibling_concat, sibling_concat, temporaryPath, withExtension_join out "html.tmp" hdirs hpage,
    replaced_replaced hdata]
  rw [replaced_replaced hdata]
  exact isName_replaced hname hdata (.inr rfl)

end

/-! ## Names of pages -/

/-- A name that a page or its temporary file may have. -/
def IsPageName (name : Part) : Prop := nameOf ".html" <:+ name ∨ nameOf ".html.tmp" <:+ name

instance (name : Part) : Decidable (IsPageName name) := inferInstanceAs (Decidable (_ ∨ _))

theorem isPageName_replaced {name : Part} {extension : String} (hdata : IsDataPart name)
    (h : IsPageExtension extension) :
    IsPageName (replaced extension name) := by
  obtain ⟨stem, hstem, hjson⟩ := hdata.json
  rw [IsPageName, replaced_json hstem hjson]
  rcases h with rfl | rfl
  · exact .inl (List.suffix_append _ _)
  · exact .inr (List.suffix_append _ _)

theorem IsDataPart.not_isPageName {name : Part} (h : IsDataPart name) : ¬ IsPageName name := by
  obtain ⟨stem, -, hjson⟩ := h.json
  have hsuffix : nameOf ".json" <:+ name := hjson ▸ List.suffix_append _ _
  rintro (hpage | htemporary)
  · exact absurd (List.suffix_of_suffix_length_le hpage hsuffix (by decide)) (by decide)
  · exact absurd (List.suffix_of_suffix_length_le hsuffix htemporary (by decide)) (by decide)

/-- Pages and temporary files of different data files, or of one, have different names. -/
theorem sibling_inj {names names' : Location} {extension extension' : String} (h : IsDataFile names)
    (h' : IsDataFile names')
    (hextension : IsPageExtension extension) (hextension' : IsPageExtension extension')
    (heq : sibling extension names = sibling extension' names') : names = names' ∧ extension = extension' := by
  obtain ⟨dirs, name, rfl, -, -, hdata⟩ := h.cases
  obtain ⟨dirs', name', rfl, -, -, hdata'⟩ := h'.cases
  obtain ⟨stem, hstem, hjson⟩ := hdata.json
  obtain ⟨stem', hstem', hjson'⟩ := hdata'.json
  rw [sibling_concat, sibling_concat] at heq
  obtain ⟨rfl, hlast⟩ := List.append_inj' heq rfl
  have hname : stem ++ dot :: nameOf extension = stem' ++ dot :: nameOf extension' := by
    rw [← replaced_json hstem hjson, ← replaced_json hstem' hjson', (List.cons.inj hlast).1]
  -- neither of the two extensions with their dots is the end of the other
  have hsame : extension = extension' := by
    have hsuffix : dot :: nameOf extension <:+ stem ++ dot :: nameOf extension := List.suffix_append _ _
    have hsuffix' : dot :: nameOf extension' <:+ stem ++ dot :: nameOf extension := hname ▸ List.suffix_append _ _
    rcases hextension with rfl | rfl <;> rcases hextension' with rfl | rfl
    · rfl
    · exact absurd (List.suffix_of_suffix_length_le hsuffix hsuffix' (by decide)) (by decide)
    · exact absurd (List.suffix_of_suffix_length_le hsuffix' hsuffix (by decide)) (by decide)
    · rfl
  subst hsame
  obtain rfl := List.append_cancel_right hname
  exact ⟨by rw [hjson, hjson'], rfl⟩

theorem isName_sibling {names : Location} (h : IsDataFile names) {extension : String}
    (hextension : IsPageExtension extension) :
    ∃ dirs name, names.dropLast = dirs ∧ sibling extension names = dirs ++ [name] ∧ (∀ dir ∈ dirs, IsName dir) ∧
      IsName name ∧ IsPageName name := by
  obtain ⟨dirs, name, rfl, hdirs, hname, hdata⟩ := h.cases
  exact ⟨dirs, _, List.dropLast_concat, sibling_concat _ _ _, hdirs, isName_replaced hname hdata hextension,
    isPageName_replaced hdata hextension⟩

end CoveragePages
