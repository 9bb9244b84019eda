/-
Making directories. A directory that is there is left as it is (`perform_of_arrives`), so the directories of
a path are made exactly if those of the path it is in are and then the last one is (`perform_parent`). What
is made are directories where nothing was, at the places of these paths (`Grown`).
-/
import CoveragePages.Proofs.Files.Changes
import Mathlib.Data.List.Chain

namespace CoveragePages

open CoveragePages.Path

namespace Path

/-! ## Bytes of the path that a path is in -/

theorem intercalate_mono {a b : List Part} (h : a <+: b) : [slash].intercalate a <+: [slash].intercalate b := by
  obtain ⟨rest, rfl⟩ := h
  by_cases ha : a = []
  · rw [ha, List.intercalate_nil]
    exact List.nil_prefix
  · by_cases hrest : rest = []
    · have hall : a ++ rest = a := by rw [hrest, List.append_nil]
      exact hall.symm ▸ List.prefix_rfl
    · rw [intercalate_append ha hrest]
      exact List.prefix_append _ _

/-- The path that a path is in is a part of it. -/
theorem bytes_parent {p parent : Path} (h : p.parent? = some parent) : parent.bytes <+: p.bytes := by
  obtain ⟨hne, rfl⟩ := parent?_eq_some.1 h
  obtain ⟨still, hpieces, -⟩ := p.pieces_eq_parts
  have hparts : trimParts (!p.isAbsolute) p.parts.dropLast <+: p.parts ++ still :=
    (trimParts_isPrefix _ _).trans ((List.dropLast_prefix _).trans (List.prefix_append _ _))
  rw [bytes_ofParts, ← intercalate_pieces p, hpieces]
  generalize trimParts (!p.isAbsolute) p.parts.dropLast = parts at hparts
  cases p.isAbsolute with
  | false => exact intercalate_mono hparts
  | true =>
    have hcons : [slash].intercalate ([[]] ++ p.parts ++ still) =
        [slash] ++ [slash].intercalate (p.parts ++ still) := by
      rw [List.append_assoc, intercalate_append (List.cons_ne_nil _ _) (List.append_ne_nil_of_left_ne_nil hne _)]
      rfl
    exact hcons ▸ (List.prefix_append_right_inj _).2 (intercalate_mono hparts)

end Path

namespace Disk

variable {disk now later : Disk} {p parent : Path} {at_ : Location}

theorem checkPath_parent (h : p.parent? = some parent) (hpath : checkPath p = .ok ()) :
    parent.bytes = [] ∨ checkPath parent = .ok () := by
  obtain ⟨-, hnul, hlength⟩ := checkPath_ok.1 hpath
  have hbytes := bytes_parent h
  by_cases hempty : parent.bytes = []
  · exact .inl hempty
  · exact .inr (checkPath_ok.2 ⟨hempty, fun hmem => hnul (hbytes.subset hmem), Nat.le_trans hbytes.length_le hlength⟩)

/-! ## Directories that are there -/

/-- A path that leads somewhere goes through the directory that it is in, or fails for want of it. -/
theorem locate_parent (h : p.parent? = some parent) (follow : Bool) (hpath : checkPath p = .ok ()) :
    (∃ at_, disk.Arrives parent at_) ∨
      ∃ e, disk.look.enter maxLinks (parent.startIn disk.current) parent.parts = .error e ∧
      disk.locate follow p = .error e := by
  obtain ⟨hne, -⟩ := parent?_eq_some.1 h
  obtain ⟨still, hpieces, -⟩ := p.pieces_eq_parts
  obtain ⟨init, last, hparts⟩ : ∃ init last, p.parts = init ++ [last] :=
    ⟨_, _, (List.dropLast_concat_getLast hne).symm⟩
  have hlast : last ≠ [] := getLast_trimParts_ne_nil (!p.isAbsolute) p.parts (by
    rw [p.tidy_parts.trimmed, hparts, List.getLast?_concat])
  have hfilled : Filled (last :: still) := ⟨_, List.mem_cons_self, hlast⟩
  have hlocate : disk.locate follow p =
      disk.look.resolve follow maxLinks (p.startIn disk.current) (init ++ last :: still) := by
    rw [locate_eq, hpath, hpieces, hparts, List.append_assoc, List.append_assoc]
    exact Look.resolve_root _ (hfilled.append init)
  have henter : disk.look.enter maxLinks (parent.startIn disk.current) parent.parts =
      disk.look.enter maxLinks (p.startIn disk.current) init := by
    rw [startIn_parent h, (parts_parent h).2.2, Look.enter_trimParts, hparts, List.dropLast_concat]
  rw [henter, hlocate]
  cases hgoes : disk.look.enter maxLinks (p.startIn disk.current) init with
  | error e => exact .inr ⟨e, rfl, Look.resolve_of_enter_error hgoes hfilled⟩
  | ok spot =>
    obtain ⟨place, rfl⟩ := Look.enter_directory hgoes
    exact .inl ⟨place, henter.trans hgoes⟩

theorem makeDirectory_ok : disk.makeDirectory p = .ok now ↔ ∃ above last slash,
    disk.locate false p = .ok (.name above last slash) ∧ disk.get? (above ++ [last]) = none ∧
      now = disk.set (above ++ [last]) .directory := by
  rw [makeDirectory]
  cases hlocate : disk.locate false p with
  | error e => exact ⟨fun h => (by cases h), fun ⟨_, _, _, h, _⟩ => (by cases h)⟩
  | ok spot =>
    cases spot with
    | directory place => exact ⟨fun h => (by cases h), fun ⟨_, _, _, h, _⟩ => (by cases h)⟩
    | name above last slash =>
      dsimp only [Bind.bind, Except.bind]
      cases hget : disk.get? (above ++ [last]) with
      | some entry =>
        refine ⟨fun h => (by cases h), ?_⟩
        rintro ⟨_, _, _, hspot, hmissing, -⟩
        cases hspot
        cases hget.symm.trans hmissing
      | none =>
        constructor
        · intro h
          exact ⟨above, last, slash, rfl, hget, (Except.ok.inj h).symm⟩
        · rintro ⟨_, _, _, hspot, -, rfl⟩
          cases hspot
          rfl

/-- A path that leads to a directory names something that is there. -/
theorem makeDirectory_of_arrives (hpath : checkPath p = .ok ()) (h : disk.Arrives p at_) :
    disk.makeDirectory p = .error .alreadyExists := by
  rw [Arrives, ← Look.enter_pieces] at h
  obtain ⟨spot, hspot, hmeets⟩ := Look.resolve_of_enter_ok _ _ _ _ h
  rw [makeDirectory, locate_ok.2 ⟨hpath, hspot⟩]
  cases spot with
  | directory place => rfl
  | name above last slash =>
    obtain ⟨turn, hturn⟩ := hmeets
    dsimp only [Bind.bind, Except.bind]
    cases hget : disk.get? (above ++ [last]) with
    | some entry => rfl
    | none => cases hturn.symm.trans (look_missing.2 hget)

/-- Makes one directory, unless it is there. -/
def attempt (disk : Disk) (p : Path) : Disk × Except FileError Unit :=
  match disk.makeDirectory p with
  | .ok made => (made, .ok ())
  | .error e => if disk.kind? p = some .directory then (disk, .ok ()) else (disk, .error e)

theorem attempt_of_arrives (hpath : checkPath p = .ok ()) (h : disk.Arrives p at_) :
    disk.attempt p = (disk, .ok ()) := by
  rw [attempt, makeDirectory_of_arrives hpath h]
  exact if_pos (kind?_directory.2 ⟨hpath, at_, h⟩)

/-- A directory that was made, or was there. -/
theorem attempt_ok (h : disk.attempt p = (now, .ok ())) : disk.makeDirectory p = .ok now ∨
    now = disk ∧ checkPath p = .ok () ∧ ∃ at_, disk.Arrives p at_ := by
  rw [attempt] at h
  cases hmake : disk.makeDirectory p with
  | ok made =>
    rw [hmake] at h
    exact .inl (congrArg Except.ok (congrArg Prod.fst h))
  | error e =>
    rw [hmake] at h
    by_cases hkind : disk.kind? p = some .directory
    · exact .inr ⟨(congrArg Prod.fst ((if_pos hkind).symm.trans h)).symm, kind?_directory.1 hkind⟩
    · cases (if_neg hkind).symm.trans h

/-- A directory that was made is there. -/
theorem arrives_of_makeDirectory (h : disk.makeDirectory p = .ok now) : ∃ at_, now.Arrives p at_ := by
  obtain ⟨above, last, slash, hlocate, hmissing, rfl⟩ := makeDirectory_ok.1 h
  obtain ⟨-, hspot⟩ := locate_ok.1 hlocate
  have hget := get?_set disk (ne_nil_of_missing hmissing) .directory
  have hwithin : disk.look.Within (disk.set (above ++ [last]) .directory).look := by
    refine look_within (fun v hv => ?_) fun v target hv => ?_
    · rw [hget]
      split
      · rfl
      · exact hv
    · rw [hget, if_neg (by rintro rfl; cases hmissing.symm.trans hv), hv]
  have hspot' := Look.resolve_mono hwithin (fun hfollow => by cases hfollow) hspot
  have hnow : (disk.set (above ++ [last]) .directory).get? (above ++ [last]) = some .directory := by
    rw [hget, if_pos rfl]
  refine ⟨above ++ [last], arrives_iff.2 ⟨_, Look.resolve_follow _ _ _ _ _ _ hspot' ?_, rfl, fun _ _ _ _ => hnow⟩⟩
  exact isLink_look_eq_false fun target htarget => by cases hnow.symm.trans htarget

theorem arrives_of_attempt (h : disk.attempt p = (now, .ok ())) : checkPath p = .ok () ∧ ∃ at_, now.Arrives p at_ := by
  rcases attempt_ok h with hmade | ⟨rfl, hpath, harrives⟩
  · obtain ⟨above, last, slash, hlocate, -⟩ := makeDirectory_ok.1 hmade
    exact ⟨(locate_ok.1 hlocate).1, arrives_of_makeDirectory hmade⟩
  · exact ⟨hpath, harrives⟩

/-! ## Making directories with those they lie in -/

theorem makeDirectories_missing (fuel : Nat) (hempty : p.bytes ≠ [])
    (hmissing : disk.makeDirectory p = .error .notFound) (hparent : p.parent? = some parent) :
    makeDirectories (fuel + 1) p disk = match makeDirectories fuel parent disk with
      | (disk, .error e) => (disk, .error e)
      | (disk, .ok ()) => disk.attempt p := by
  rw [makeDirectories, if_neg hempty, hmissing, hparent]
  rfl

theorem makeDirectories_found (fuel : Nat) (hempty : p.bytes ≠ []) (hfound : disk.makeDirectory p ≠ .error .notFound) :
    makeDirectories (fuel + 1) p disk = disk.attempt p := by
  rw [makeDirectories, if_neg hempty, attempt]
  cases hmake : disk.makeDirectory p with
  | ok made => rfl
  | error e =>
    cases e
    case notFound => exact absurd hmake hfound
    all_goals rfl

theorem makeDirectories_empty (fuel : Nat) (hempty : p.bytes = []) (disk : Disk) :
    makeDirectories (fuel + 1) p disk = (disk, .ok ()) := by
  rw [makeDirectories, if_pos hempty]

theorem length_parts_parent (h : p.parent? = some parent) : parent.parts.length < p.parts.length := by
  obtain ⟨hne, -⟩ := parent?_eq_some.1 h
  have hlength := (trimParts_isPrefix (!p.isAbsolute) p.parts.dropLast).length_le
  rw [(parts_parent h).2.2]
  rw [List.length_dropLast] at hlength
  have := List.length_pos_iff.2 hne
  omega

/-- All fuel that is more than there are components does the same. -/
theorem makeDirectories_fuel (fuel : Nat) : ∀ (fuel' : Nat) (p : Path) (disk : Disk), p.parts.length < fuel →
    p.parts.length < fuel' → makeDirectories fuel p disk = makeDirectories fuel' p disk := by
  induction fuel with
  | zero => exact fun _ p disk h => absurd h (Nat.not_lt_zero _)
  | succ fuel ih =>
    intro fuel' p disk hfuel hfuel'
    cases fuel' with
    | zero => exact absurd hfuel' (Nat.not_lt_zero _)
    | succ fuel' =>
      by_cases hempty : p.bytes = []
      · rw [makeDirectories_empty fuel hempty, makeDirectories_empty fuel' hempty]
      by_cases hmissing : disk.makeDirectory p = .error .notFound
      · cases hparent : p.parent? with
        | none => rw [makeDirectories, makeDirectories, if_neg hempty, if_neg hempty, hmissing, hparent]
        | some parent =>
          have hshorter := length_parts_parent hparent
          rw [makeDirectories_missing fuel hempty hmissing hparent,
            makeDirectories_missing fuel' hempty hmissing hparent, ih fuel' parent disk (by omega) (by omega)]
      · rw [makeDirectories_found fuel hempty hmissing, makeDirectories_found fuel' hempty hmissing]

theorem perform_missing (hempty : p.bytes ≠ []) (hmissing : disk.makeDirectory p = .error .notFound)
    (hparent : p.parent? = some parent) : disk.perform (.createDirectories p) =
      match disk.perform (.createDirectories parent) with
      | (disk, .error e) => (disk, .error e)
      | (disk, .ok ()) => disk.attempt p := by
  have hshorter := length_parts_parent hparent
  rw [perform, perform, makeDirectories_missing _ hempty hmissing hparent,
    makeDirectories_fuel _ (parent.parts.length + 1) parent disk hshorter (Nat.lt_succ_self _)]

theorem perform_found (hempty : p.bytes ≠ []) (hfound : disk.makeDirectory p ≠ .error .notFound) :
    disk.perform (.createDirectories p) = disk.attempt p :=
  makeDirectories_found _ hempty hfound

theorem perform_empty (hempty : p.bytes = []) (disk : Disk) : disk.perform (.createDirectories p) = (disk, .ok ()) :=
  makeDirectories_empty _ hempty disk

theorem parts_of_empty (hempty : p.bytes = []) : p.parts = [] := by
  obtain rfl : p = ⟨[]⟩ := eq_of_bytes hempty
  rfl

/-- The empty path leads to where it starts. -/
theorem arrives_of_empty (hempty : p.bytes = []) (disk : Disk) : disk.Arrives p (p.startIn disk.current) := by
  rw [Arrives, parts_of_empty hempty]
  exact Look.resolve_here _

/-- Directories that are there are left as they are. -/
theorem perform_of_arrives (hpath : p.bytes = [] ∨ checkPath p = .ok ()) (h : disk.Arrives p at_) :
    disk.perform (.createDirectories p) = (disk, .ok ()) := by
  by_cases hempty : p.bytes = []
  · exact perform_empty hempty disk
  · have hpath := hpath.resolve_left hempty
    rw [perform_found hempty (by rw [makeDirectory_of_arrives hpath h]; exact nofun), attempt_of_arrives hpath h]

/-- Directories that were made are there. -/
theorem arrives_of_perform (h : disk.perform (.createDirectories p) = (now, .ok ())) :
    (p.bytes = [] ∨ checkPath p = .ok ()) ∧ ∃ at_, now.Arrives p at_ := by
  by_cases hempty : p.bytes = []
  · exact ⟨.inl hempty, _, arrives_of_empty hempty now⟩
  · suffices hattempt : ∃ before : Disk, before.attempt p = (now, .ok ()) by
      obtain ⟨before, hattempt⟩ := hattempt
      exact (arrives_of_attempt hattempt).imp_left .inr
    by_cases hmissing : disk.makeDirectory p = .error .notFound
    · cases hparent : p.parent? with
      | none =>
        rw [perform, makeDirectories, if_neg hempty, hmissing, hparent] at h
        cases h
      | some parent =>
        rw [perform_missing hempty hmissing hparent] at h
        cases hmake : disk.perform (.createDirectories parent) with
        | mk before result =>
          rw [hmake] at h
          cases result with
          | error e => cases h
          | ok _ => exact ⟨before, h⟩
    · rw [perform_found hempty hmissing] at h
      exact ⟨disk, h⟩

/-! ## One directory at a time -/

/-- The last disk of some moments. -/
def after (disk : Disk) (moments : List Disk) : Disk := moments.getLastD disk

theorem after_cons (disk now : Disk) (rest : List Disk) : disk.after (now :: rest) = now.after rest :=
  List.getLastD_cons

theorem after_append (disk : Disk) (moments later : List Disk) :
    disk.after (moments ++ later) = (disk.after moments).after later := by
  induction moments generalizing disk with
  | nil => rfl
  | cons now rest ih => rw [List.cons_append, after_cons, after_cons, ih]

theorem after_mem (disk : Disk) (moments : List Disk) : disk.after moments = disk ∨ disk.after moments ∈ moments := by
  rw [after, List.getLastD_eq_getLast?]
  cases hlast : moments.getLast? with
  | none => exact .inl rfl
  | some last => exact .inr (List.mem_of_getLast? hlast)

/-- One directory is made: that of a path, or one that it lies in. -/
def MakesOne (p : Path) (disk now : Disk) : Prop := ∃ q, Heads q p ∧ disk.makeDirectory q = .ok now

/-- A disk that is reached by making directories one at a time. -/
def Grows (p : Path) (disk now : Disk) : Prop :=
  ∃ moments, (disk :: moments).IsChain (MakesOne p) ∧ disk.after moments = now

theorem Grows.refl (p : Path) (disk : Disk) : disk.Grows p disk := ⟨[], .singleton _, rfl⟩

theorem Grows.trans (h : disk.Grows p now) (h' : now.Grows p later) : disk.Grows p later := by
  obtain ⟨moments, hchain, rfl⟩ := h
  obtain ⟨more, hchain', rfl⟩ := h'
  refine ⟨moments ++ more, ?_, after_append _ _ _⟩
  cases more with
  | nil => rw [List.append_nil]; exact hchain
  | cons next rest =>
    obtain ⟨hnext, hrest⟩ := List.isChain_cons_cons.1 hchain'
    refine hchain.append hrest fun x hx y hy => ?_
    obtain rfl := Option.some.inj hy
    rw [List.getLast?_cons, Option.mem_def, ← List.getLastD_eq_getLast?] at hx
    exact Option.some.inj hx ▸ hnext

theorem Grows.of_parent (h : disk.Grows parent now) (hparent : p.parent? = some parent) : disk.Grows p now := by
  obtain ⟨moments, hchain, hafter⟩ := h
  exact ⟨moments, hchain.imp fun _ _ ⟨q, hq, hmake⟩ => ⟨q, .parent hparent hq, hmake⟩, hafter⟩

theorem grows_attempt (disk : Disk) (p : Path) : disk.Grows p (disk.attempt p).1 := by
  rw [attempt]
  cases hmake : disk.makeDirectory p with
  | ok made => exact ⟨[made], List.isChain_pair.2 ⟨p, .self, hmake⟩, rfl⟩
  | error e =>
    have hsame : (if disk.kind? p = some .directory then (disk, .ok ()) else (disk, .error e) :
        Disk × Except FileError Unit).1 = disk := by split <;> rfl
    exact hsame.symm ▸ .refl p disk

/-- Making directories makes one at a time, be the answer what it may. -/
theorem grows_makeDirectories (fuel : Nat) :
    ∀ (p : Path) (disk : Disk), disk.Grows p (makeDirectories fuel p disk).1 := by
  induction fuel with
  | zero => exact fun p disk => .refl p disk
  | succ fuel ih =>
    intro p disk
    by_cases hempty : p.bytes = []
    · rw [makeDirectories_empty fuel hempty]
      exact .refl p disk
    by_cases hmissing : disk.makeDirectory p = .error .notFound
    · cases hparent : p.parent? with
      | none =>
        rw [makeDirectories, if_neg hempty, hmissing, hparent]
        exact .refl p disk
      | some parent =>
        have hrec := ih parent disk
        rw [makeDirectories_missing fuel hempty hmissing hparent]
        cases hmake : makeDirectories fuel parent disk with
        | mk now result =>
          rw [hmake] at hrec
          cases result with
          | error e => exact hrec.of_parent hparent
          | ok _ => exact (hrec.of_parent hparent).trans (grows_attempt now p)
    · rw [makeDirectories_found fuel hempty hmissing]
      exact grows_attempt disk p

/-! ## What is made -/

/-- One disk is another one with some directories made at the places of a path and of those it lies in. -/
structure Grown (disk : Disk) (p : Path) (now : Disk) : Prop where
  current : now.current = disk.current
  twins : now.twins = disk.twins
  closed : now.closed = disk.closed
  entries : ∀ n, now.get? n = disk.get? n ∨
    disk.Above p n ∧ disk.get? n = none ∧ now.get? n = some .directory

theorem Grown.refl (disk : Disk) (p : Path) : disk.Grown p disk := ⟨rfl, rfl, rfl, fun _ => .inl rfl⟩

theorem Grown.directory (h : disk.Grown p now) {v : Location} (hv : disk.get? v = some .directory) :
    now.get? v = some .directory := by
  rcases h.entries v with hsame | ⟨-, hmissing, -⟩
  · rw [hsame, hv]
  · cases hv.symm.trans hmissing

/-- What is there after directories were made was there before, or is one of them. -/
theorem Grown.entry (h : disk.Grown p now) {v : Location} {entry : Entry} (hv : now.get? v = some entry)
    (hne : entry ≠ .directory) : disk.get? v = some entry := by
  rcases h.entries v with hsame | ⟨-, -, hdirectory⟩
  · rw [← hsame, hv]
  · exact absurd (Option.some.inj (hv.symm.trans hdirectory)) hne

theorem Grown.link (h : disk.Grown p now) {v : Location} {target : Path} :
    now.get? v = some (.link target) ↔ disk.get? v = some (.link target) := by
  refine ⟨fun hv => h.entry hv nofun, fun hv => ?_⟩
  rcases h.entries v with hsame | ⟨-, hmissing, -⟩
  · rw [hsame, hv]
  · cases hv.symm.trans hmissing

theorem Grown.within (h : disk.Grown p now) : disk.look.Within now.look :=
  look_within (fun _ => h.directory) fun _ _ => h.link.2

theorem Grown.within_guess (h : disk.Grown p now) : now.look.Within disk.guess := by
  refine look_within_guess (fun n target hdirectory hlink => ?_) fun n target hlink => h.link.1 hlink
  cases hdirectory.symm.trans (h.link.2 hlink)

theorem Grown.makesOne (h : disk.Grown p now) (hmake : now.MakesOne p later) : disk.Grown p later := by
  obtain ⟨q, hq, hmake⟩ := hmake
  obtain ⟨above, last, slash, hlocate, hmissing, rfl⟩ := makeDirectory_ok.1 hmake
  have hplace := place?_of_locate h.current h.within_guess hlocate
  refine ⟨h.current, h.twins, h.closed, fun n => ?_⟩
  rw [get?_set _ (ne_nil_of_missing hmissing)]
  by_cases hn : n = above ++ [last]
  · subst hn
    rw [if_pos rfl]
    -- what is missing now was missing before
    rcases h.entries (above ++ [last]) with hsame | ⟨-, -, hdirectory⟩
    · exact .inr ⟨⟨q, hq, hplace⟩, hsame ▸ hmissing, rfl⟩
    · cases hmissing.symm.trans hdirectory
  · rw [if_neg hn]
    exact h.entries n

theorem grown_of_chain {moments : List Disk} (h : (disk :: moments).IsChain (MakesOne p)) :
    ∀ now ∈ moments, disk.Grown p now :=
  h.cons_induction _ _ (fun _ _ hmake hgrown => hgrown.makesOne hmake) (.refl disk p)

theorem Grows.grown (h : disk.Grows p now) : disk.Grown p now := by
  obtain ⟨moments, hchain, rfl⟩ := h
  rcases after_mem disk moments with hsame | hmem
  · rw [hsame]
    exact .refl disk p
  · exact grown_of_chain hchain _ hmem

theorem grown_perform (disk : Disk) (p : Path) : disk.Grown p (disk.perform (.createDirectories p)).1 :=
  (grows_makeDirectories _ p disk).grown

/-- What a walk meets after directories were made it met before, or it was missing. -/
theorem Grown.meets (h : disk.Grown p now) {v : Location} {turn : Turn} (hturn : now.look v = .ok turn) :
    disk.look v = .ok turn ∨ disk.look v = .error .notFound := by
  cases turn with
  | enter =>
    rcases h.entries v with hsame | ⟨-, hnone, -⟩
    · exact .inl (look_enter.2 (hsame ▸ look_enter.1 hturn))
    · exact .inr (look_missing.2 hnone)
  | follow target => exact .inl (look_follow.2 (h.link.1 (look_follow.1 hturn)))

/-! ## The directory that a path is in first -/

/-- Where the last directory of a path is made or is there, so is the one that it is in. -/
theorem arrives_parent (hparent : p.parent? = some parent) (h : disk.attempt p = (now, .ok ())) :
    ∃ at_, disk.Arrives parent at_ := by
  have hpath := (arrives_of_attempt h).1
  rcases locate_parent hparent false hpath with harrives | ⟨e, -, hlocate⟩
  · exact harrives
  rcases attempt_ok h with hmade | ⟨-, -, at_, harrives⟩
  · obtain ⟨_, _, _, hfound, -⟩ := makeDirectory_ok.1 hmade
    cases hlocate.symm.trans hfound
  · rw [Arrives, ← Look.enter_pieces] at harrives
    obtain ⟨spot, hspot, -⟩ := Look.resolve_of_enter_ok _ _ _ _ harrives
    cases hlocate.symm.trans (locate_ok.2 ⟨hpath, hspot⟩)

/-- Directories are made along a path exactly if those of the path it is in are, and then the last one is or
is there. -/
theorem perform_parent (hparent : p.parent? = some parent) :
    disk.perform (.createDirectories p) = (now, .ok ()) ↔ ∃ before : Disk,
      disk.perform (.createDirectories parent) = (before, .ok ()) ∧ before.attempt p = (now, .ok ()) := by
  have hempty : p.bytes ≠ [] := fun hempty => (parent?_eq_some.1 hparent).1 (parts_of_empty hempty)
  by_cases hmissing : disk.makeDirectory p = .error .notFound
  · rw [perform_missing hempty hmissing hparent]
    cases hmake : disk.perform (.createDirectories parent) with
    | mk before result =>
      cases result with
      | error e => exact ⟨fun h => (by cases h), fun ⟨_, h, _⟩ => (by cases h)⟩
      | ok _ =>
        refine ⟨fun h => ⟨before, rfl, h⟩, ?_⟩
        rintro ⟨before', h, hattempt⟩
        cases h
        exact hattempt
  rw [perform_found hempty hmissing]
  constructor
  · intro h
    obtain ⟨at_, harrives⟩ := arrives_parent hparent h
    exact ⟨disk, perform_of_arrives (checkPath_parent hparent (arrives_of_attempt h).1) harrives, h⟩
  · rintro ⟨before, hmake, hattempt⟩
    obtain ⟨hcheck, at_, harrives⟩ := arrives_of_perform hmake
    have hgrown : disk.Grown parent before := by
      have := grown_perform disk parent
      rwa [hmake] at this
    rcases locate_parent hparent false (arrives_of_attempt hattempt).1 with ⟨at', hthere⟩ | ⟨e, henter, hlocate⟩
    · rw [perform_of_arrives hcheck hthere] at hmake
      cases hmake
      exact hattempt
    · -- the directory above is missing now, and nothing else is wrong on the way
      rw [Arrives, hgrown.current] at harrives
      rcases Look.enter_or_missing (fun _ _ => hgrown.meets) harrives with hgoes | hgone
      · cases henter.symm.trans hgoes
      · cases henter.symm.trans hgone
        exact absurd (by rw [makeDirectory, hlocate]; rfl) hmissing

end Disk

end CoveragePages
