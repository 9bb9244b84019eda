/-
What changes do to a disk. A file that has one name only is changed under this name alone, be it written or
renamed; so the entries after a change are those before it, but for the places of its paths.
-/
import CoveragePages.Proofs.Files.Locate

namespace CoveragePages

open CoveragePages.Path

namespace Disk

variable {disk now : Disk}

/-! ## Entries after a change -/

theorem lookup_filter_ne {place n : Location} (h : n ≠ place) (entries : List (Location × Entry)) :
    (entries.filter (·.1 != place)).lookup n = entries.lookup n := by
  induction entries with
  | nil => rfl
  | cons entry rest ih =>
    obtain ⟨key, value⟩ := entry
    by_cases hkey : key = place
    · have hn : (n == key) = false := beq_false_of_ne (hkey ▸ h)
      rw [List.filter_cons_of_neg (by simpa using hkey), ih, List.lookup_cons, hn]
    · rw [List.filter_cons_of_pos (by simpa using hkey), List.lookup_cons, List.lookup_cons, ih]

section

variable {place source target : Location} {entry : Entry}

theorem ne_nil_of_missing (h : disk.get? place = none) : place ≠ [] := by
  rintro rfl
  cases h

theorem get?_erase (hne : place ≠ []) (n : Location) :
    (disk.erase place).get? n = if n = place then none else disk.get? n := by
  rw [get?, get?, erase]
  by_cases hn : n = place
  · rw [if_pos hn, if_neg (hn ▸ hne), hn]
    apply List.lookup_eq_none_iff.2
    intro entry hentry
    exact bne_iff_ne.2 (Ne.symm (bne_iff_ne.1 (List.mem_filter.1 hentry).2))
  · rw [if_neg hn, lookup_filter_ne hn]

theorem get?_set (disk : Disk) (hne : place ≠ []) (entry : Entry) (n : Location) :
    (disk.set place entry).get? n = if n = place then some entry else disk.get? n := by
  have herase : (disk.erase place).get? n = if n = place then none else disk.get? n := get?_erase hne n
  rw [get?] at herase ⊢
  by_cases hn : n = place
  · rw [if_pos hn, if_neg (hn ▸ hne), hn, set, List.lookup_cons_self]
  · rw [if_neg hn] at herase ⊢
    rw [← herase, set, List.lookup_cons, beq_false_of_ne hn]

/-- A place that is no name of a file with several names. -/
def Sole (disk : Disk) (place : Location) : Prop := ∀ names ∈ disk.twins, place ∉ names

theorem Sole.namesOf (h : disk.Sole place) : disk.namesOf place = [place] := by
  have hnone : disk.twins.filter (·.contains place) = [] :=
    List.filter_eq_nil_iff.2 fun names hnames hmem => h names hnames (List.contains_iff_mem.1 hmem)
  rw [Disk.namesOf, hnone]
  rfl

theorem Sole.fill (h : disk.Sole place) (content : ByteArray) :
    disk.fill place content = disk.set place (.file content) := by
  rw [Disk.fill, h.namesOf]
  rfl

/-- Two names of one file. -/
def Linked (disk : Disk) (v v' : Location) : Prop := ∃ names ∈ disk.twins, v ∈ names ∧ v' ∈ names

theorem sole_iff : disk.Sole place ↔ ¬ disk.Linked place place := by
  constructor
  · rintro h ⟨names, hnames, hmem, -⟩
    exact h names hnames hmem
  · exact fun h names hnames hmem => h ⟨names, hnames, hmem, hmem⟩

theorem Sole.move (h : disk.Sole source) (hne : target ≠ source) (entry : Entry) :
    disk.move source target entry = { (disk.erase source).set target entry with
      twins := disk.twins.map fun names =>
        (names.filter (· != target)).map fun place => if place = source then target else place } := by
  rw [Disk.move, h.namesOf, if_neg]
  exact fun hmem => hne (List.mem_singleton.1 (List.contains_iff_mem.1 hmem))

/-- A name that a file is renamed to is no name of another file any more. -/
theorem linked_move (entry : Entry) (h : disk.Sole source) (hne : target ≠ source) {v v' : Location} :
    (disk.move source target entry).Linked v v' ↔ disk.Linked v v' ∧ v ≠ target ∧ v' ≠ target := by
  rw [h.move hne]
  -- the file that is renamed has no other name, so the other names stay what they are
  have hmem : ∀ names ∈ disk.twins, ∀ v : Location,
      v ∈ ((names.filter (· != target)).map fun place => if place = source then target else place) ↔
        v ∈ names ∧ v ≠ target := by
    intro names hnames v
    simp only [List.mem_map, List.mem_filter, bne_iff_ne]
    constructor
    · rintro ⟨place, ⟨hplace, hother⟩, rfl⟩
      have hsource : place ≠ source := by
        rintro rfl
        exact h names hnames hplace
      rw [if_neg hsource]
      exact ⟨hplace, hother⟩
    · rintro ⟨hv, hother⟩
      refine ⟨v, ⟨hv, hother⟩, if_neg ?_⟩
      rintro rfl
      exact h names hnames hv
  constructor
  · rintro ⟨_, hrenamed, hv, hv'⟩
    obtain ⟨names, hnames, rfl⟩ := List.mem_map.1 hrenamed
    obtain ⟨hv, hne⟩ := (hmem names hnames v).1 hv
    obtain ⟨hv', hne'⟩ := (hmem names hnames v').1 hv'
    exact ⟨⟨names, hnames, hv, hv'⟩, hne, hne'⟩
  · rintro ⟨⟨names, hnames, hv, hv'⟩, hne, hne'⟩
    exact ⟨_, List.mem_map_of_mem hnames, (hmem names hnames v).2 ⟨hv, hne⟩, (hmem names hnames v').2 ⟨hv', hne'⟩⟩

theorem get?_move (entry : Entry) (h : disk.Sole source) (hsource : source ≠ []) (htarget : target ≠ [])
    (hne : target ≠ source) (n : Location) : (disk.move source target entry).get? n =
      if n = target then some entry else if n = source then none else disk.get? n := by
  have hget : (disk.move source target entry).get? n = ((disk.erase source).set target entry).get? n := by
    rw [h.move hne]
    rfl
  rw [hget, get?_set _ htarget, get?_erase hsource]

theorem move_kept (disk : Disk) (source target : Location) (entry : Entry) :
    (disk.move source target entry).current = disk.current ∧ (disk.move source target entry).closed = disk.closed := by
  rw [move]
  split <;> exact ⟨rfl, rfl⟩

end

/-! ## Reading -/

/-- What is read under some names, if anything; a device has nothing to read. -/
def content? (disk : Disk) (place : Location) : Option ByteArray :=
  match disk.get? place with
  | some (.file content) => some content
  | some .device => some ByteArray.empty
  | _ => none

section

variable {p : Path} {above : Location} {last : Part} {content : ByteArray}

theorem readFile_of_locate (h : disk.locate true p = .ok (.name above last false))
    (hcontent : disk.content? (above ++ [last]) = some content) : disk.readFile p = .ok content := by
  rw [readFile, find_of_locate h]
  rw [Disk.content?] at hcontent
  cases hget : disk.get? (above ++ [last]) with
  | none => rw [hget] at hcontent; cases hcontent
  | some entry =>
    rw [hget] at hcontent
    cases entry with
    | file content' | device => cases hcontent; rfl
    | directory | link target => cases hcontent

theorem readFile_of_error {e : FileError} (h : disk.locate true p = .error e) : disk.readFile p = .error e := by
  rw [readFile, find, h]
  rfl

/-- A file that is read is read at the name that its path leads to. -/
theorem locate_of_readFile (h : disk.readFile p = .ok content) : ∃ above last,
    disk.locate true p = .ok (.name above last false) ∧ disk.content? (above ++ [last]) = some content := by
  rw [readFile] at h
  obtain ⟨entry, hfind, hentry⟩ := bind_ok.1 h
  cases hlocate : disk.locate true p with
  | error e => rw [find, hlocate] at hfind; cases hfind
  | ok spot =>
    cases spot with
    | directory place =>
      rw [find, hlocate] at hfind
      cases hfind
      cases hentry
    | name above last slash =>
      rw [find_of_locate hlocate] at hfind
      cases hget : disk.get? (above ++ [last]) with
      | none => rw [hget] at hfind; cases hfind
      | some found =>
        rw [hget] at hfind
        cases found with
        | directory => cases hfind; cases hentry
        | link target =>
          cases slash <;> cases hfind
          cases hentry
        | file content' | device =>
          cases slash <;> cases hfind
          exact ⟨above, last, rfl, by rw [content?, hget]; exact congrArg some (Except.ok.inj hentry)⟩

theorem readFile_congr (hlocate : now.locate true p = disk.locate true p)
    (hget : ∀ above last slash, disk.locate true p = .ok (.name above last slash) →
      now.get? (above ++ [last]) = disk.get? (above ++ [last])) : now.readFile p = disk.readFile p := by
  have hfind : now.find p = disk.find p := by
    cases hspot : disk.locate true p with
    | error e => rw [find, find, hlocate, hspot]; rfl
    | ok spot =>
      cases spot with
      | directory place => rw [find, find, hlocate, hspot]; rfl
      | name above last slash =>
        rw [find_of_locate hspot, find_of_locate (hlocate.trans hspot), hget above last slash hspot]
  rw [readFile, readFile, hfind]

end

/-! ## Writing -/

section

variable {p : Path} {above : Location} {last : Part} {content : ByteArray}

/-- A place that a file can be written to without anything else being changed: nothing, or a file that has
no other name. -/
structure Plain (disk : Disk) (place : Location) : Prop where
  sole : disk.Sole place
  no_link : ∀ target, disk.get? place ≠ some (.link target)
  no_device : disk.get? place ≠ some .device

theorem locate_of_write (h : disk.write p content = .ok now) :
    ∃ above last slash, disk.locate true p = .ok (.name above last slash) := by
  rw [write] at h
  obtain ⟨spot, hspot, h⟩ := bind_ok.1 h
  cases spot with
  | directory place => cases h
  | name above last slash => exact ⟨above, last, slash, hspot⟩

theorem write_of_locate (h : disk.locate true p = .ok (.name above last false))
    (hplain : disk.Plain (above ++ [last])) :
    disk.write p content = match disk.get? (above ++ [last]) with
      | some .directory => .error .isDirectory
      | _ => .ok (disk.set (above ++ [last]) (.file content)) := by
  rw [write, h]
  dsimp only [Bind.bind, Except.bind]
  cases hget : disk.get? (above ++ [last]) with
  | none => rfl
  | some entry =>
    cases entry with
    | directory => rfl
    | file old => exact congrArg Except.ok (hplain.sole.fill content)
    | link target => exact absurd hget (hplain.no_link target)
    | device => exact absurd hget hplain.no_device

theorem write_ok (h : disk.locate true p = .ok (.name above last false)) (hplain : disk.Plain (above ++ [last])) :
    disk.write p content = .ok now ↔
      disk.get? (above ++ [last]) ≠ some .directory ∧ now = disk.set (above ++ [last]) (.file content) := by
  rw [write_of_locate h hplain]
  split
  · next hdirectory => exact ⟨fun hwrite => (by cases hwrite), fun hfree => absurd hdirectory hfree.1⟩
  · next hother =>
    exact ⟨fun hwrite => ⟨hother, (Except.ok.inj hwrite).symm⟩, fun hfree => by rw [hfree.2]⟩

end

/-! ## Renaming -/

section

variable {source target : Path} {above : Location} {last : Part} {content : ByteArray}

theorem locate_of_rename (h : disk.rename source target = .ok now) :
    ∃ above last slash, disk.locate false source = .ok (.name above last slash) := by
  rw [rename] at h
  obtain ⟨spot, hspot, h⟩ := bind_ok.1 h
  obtain ⟨spot', -, h⟩ := bind_ok.1 h
  cases spot with
  | directory place => cases h
  | name above last slash => exact ⟨above, last, slash, hspot⟩

/-- A file is renamed to the name that the other path leads to, unless a directory is there. -/
theorem rename_ok (h : disk.locate false source = .ok (.name above last false))
    (hcontent : disk.get? (above ++ [last]) = some (.file content)) :
    disk.rename source target = .ok now ↔ ∃ above' last', disk.locate false target = .ok (.name above' last' false) ∧
      disk.get? (above' ++ [last']) ≠ some .directory ∧
        now = disk.move (above ++ [last]) (above' ++ [last']) (.file content) := by
  cases hlocate : disk.locate false target with
  | error e =>
    rw [rename, h, hlocate]
    exact ⟨fun hrename => (by cases hrename), fun ⟨_, _, hfound, _⟩ => (by cases hfound)⟩
  | ok spot =>
    cases spot with
    | directory place =>
      rw [rename, h, hlocate]
      exact ⟨fun hrename => (by cases hrename), fun ⟨_, _, hfound, _⟩ => (by cases hfound)⟩
    | name above' last' slash =>
      have hrename : disk.rename source target = if (false || slash) = true then .error .notDirectory
          else match disk.get? (above' ++ [last']) with
            | some .directory => .error .isDirectory
            | _ => .ok (disk.move (above ++ [last]) (above' ++ [last']) (.file content)) := by
        rw [rename, h, hlocate]
        dsimp only [Bind.bind, Except.bind]
        rw [hcontent]
        rfl
      rw [hrename]
      cases slash with
      | true => exact ⟨fun hok => (by cases hok), fun ⟨_, _, hfound, _⟩ => (by cases hfound)⟩
      | false =>
        rw [if_neg (by decide)]
        split
        · next hdirectory =>
          refine ⟨fun hok => (by cases hok), ?_⟩
          rintro ⟨_, _, hfound, hfree, -⟩
          cases hfound
          exact absurd hdirectory hfree
        · next hother =>
          constructor
          · intro hok
            exact ⟨above', last', rfl, hother, (Except.ok.inj hok).symm⟩
          · rintro ⟨_, _, hfound, -, rfl⟩
            cases hfound
            rfl

end

/-! ## Changes as steps -/

theorem perform_write {p : Path} {content : ByteArray} :
    disk.perform (.write p content) = (now, .ok ()) ↔ disk.write p content = .ok now := by
  rw [perform]
  cases disk.write p content with
  | error e => exact ⟨fun h => (by cases h), fun h => (by cases h)⟩
  | ok written => exact ⟨fun h => (by cases h; rfl), fun h => (by cases h; rfl)⟩

theorem perform_rename {source target : Path} :
    disk.perform (.rename source target) = (now, .ok ()) ↔ disk.rename source target = .ok now := by
  rw [perform]
  cases disk.rename source target with
  | error e => exact ⟨fun h => (by cases h), fun h => (by cases h)⟩
  | ok renamed => exact ⟨fun h => (by cases h; rfl), fun h => (by cases h; rfl)⟩

theorem perform_snd {step : FileStep} :
    (disk.perform step).2 = .ok () ↔ ∃ now, disk.perform step = (now, .ok ()) := by
  constructor
  · intro hok
    exact ⟨(disk.perform step).1, Prod.ext rfl hok⟩
  · rintro ⟨now, hok⟩
    rw [hok]

/-! ## What stays -/

/-- Two disks where a walk that avoids some links meets the same. -/
theorem past_within_of {avoid : Location → Bool}
    (hdirectory : ∀ v, disk.get? v = some .directory → now.get? v = some .directory)
    (hlink : ∀ v target, avoid v = false → disk.get? v = some (.link target) → now.get? v = some (.link target)) :
    (disk.look.past avoid).Within (now.look.past avoid) := by
  intro v turn hturn
  obtain ⟨hlook, havoid⟩ := Look.past_ok.1 hturn
  refine Look.past_ok.2 ⟨?_, havoid⟩
  cases turn with
  | enter => exact look_enter.2 (hdirectory v (look_enter.1 hlook))
  | follow target => exact look_follow.2 (hlink v target (havoid ⟨target, rfl⟩) (look_follow.1 hlook))

/-- A walk on a disk meets the same on another one, if the directories and the links are still there. -/
theorem look_within (hdirectory : ∀ v, disk.get? v = some .directory → now.get? v = some .directory)
    (hlink : ∀ v target, disk.get? v = some (.link target) → now.get? v = some (.link target)) :
    disk.look.Within now.look := by
  have hpast := @past_within_of disk now (fun _ => false) hdirectory fun v target _ => hlink v target
  rwa [Look.past_none, Look.past_none] at hpast

/-- A path leads where it led before, if the directories are still there and the links are the same. -/
theorem locate_mono {follow : Bool} {p : Path} {spot : Spot} (hcurrent : now.current = disk.current)
    (hdirectory : ∀ v, disk.get? v = some .directory → now.get? v = some .directory)
    (hlink : ∀ v target, now.get? v = some (.link target) ↔ disk.get? v = some (.link target))
    (h : disk.locate follow p = .ok spot) : now.locate follow p = .ok spot := by
  obtain ⟨hpath, hspot⟩ := locate_ok.1 h
  refine locate_ok.2 ⟨hpath, ?_⟩
  rw [hcurrent]
  refine Look.resolve_mono (look_within hdirectory fun v target => (hlink v target).2) (fun _ v => ?_) hspot
  rw [Bool.eq_iff_iff, isLink_look, isLink_look]
  simp only [hlink]

/-- Where a file is written, paths lead where they led before, if a file was there or nothing. -/
theorem locate_set_file {follow : Bool} {p : Path} {spot : Spot} {place : Location} (content : ByteArray)
    (hfree : disk.get? place = none ∨ ∃ old, disk.get? place = some (.file old))
    (h : disk.locate follow p = .ok spot) : (disk.set place (.file content)).locate follow p = .ok spot := by
  have hne : place ≠ [] := by
    rintro rfl
    rcases hfree with hmissing | ⟨old, hold⟩
    · cases hmissing
    · cases hold
  have hget : ∀ v, (disk.set place (.file content)).get? v = if v = place then some (.file content) else disk.get? v :=
    get?_set disk hne _
  have hcurrent : (disk.set place (.file content)).current = disk.current := rfl
  refine locate_mono hcurrent (fun v hv => ?_) (fun v target => ?_) h
  · by_cases heq : v = place
    · subst heq
      rcases hfree with hmissing | ⟨old, hold⟩
      · cases hmissing.symm.trans hv
      · cases hold.symm.trans hv
    · rw [hget, if_neg heq, hv]
  · by_cases heq : v = place
    · subst heq
      rw [hget, if_pos rfl]
      rcases hfree with hmissing | ⟨old, hold⟩
      · rw [hmissing]
        exact ⟨nofun, nofun⟩
      · rw [hold]
        exact ⟨nofun, nofun⟩
    · rw [hget, if_neg heq]

end Disk

end CoveragePages
