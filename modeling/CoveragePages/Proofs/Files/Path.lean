/-
Paths and their pieces. A path is its pieces between slashes; the parts of a path are its pieces after
the root, without those at the end that do not count. A path that is made from parts has these parts
again if they are tidy: none has a slash, the first one is not empty unless the path starts at the root,
and the last one counts.
-/
import CoveragePages.Files.Path
import CoveragePages.Proofs.Text.Bytes

namespace CoveragePages

/-! ## Splitting and joining -/

namespace Text

section

variable {α : Type} [DecidableEq α] {c : α}

theorem splitOn_eq (c : α) (cs : List α) : splitOn c cs = cs.splitOn c := by
  induction cs with
  | nil => rfl
  | cons d cs ih =>
    rw [splitOn, ih, List.splitOn_cons_eq_if_modifyHead]
    by_cases h : d = c
    · rw [if_pos h, if_pos (beq_iff_eq.2 h)]
    · rw [if_neg h, if_neg (fun hd => h (beq_iff_eq.1 hd))]
      cases hsplit : cs.splitOn c with
      | nil => exact absurd hsplit (List.splitOn_ne_nil _ _)
      | cons part parts => rfl

theorem splitOn_append (c : α) (a b : List α) : splitOn c (a ++ c :: b) = splitOn c a ++ splitOn c b := by
  rw [splitOn_eq, splitOn_eq, splitOn_eq, List.splitOn_append_cons_self]

theorem splitOn_ne_nil (c : α) (cs : List α) : splitOn c cs ≠ [] := by
  rw [splitOn_eq]
  exact List.splitOn_ne_nil _ _

theorem not_mem_of_mem_splitOn {part : List α} : ∀ {cs : List α}, part ∈ splitOn c cs → c ∉ part
  | [], h => by
    rw [List.mem_singleton.1 h]
    exact List.not_mem_nil
  | d :: cs, h => by
    rw [splitOn] at h
    split at h
    · rcases List.mem_cons.1 h with rfl | h
      · exact List.not_mem_nil
      · exact not_mem_of_mem_splitOn h
    · next hd =>
      have ih : ∀ {part : List α}, part ∈ splitOn c cs → c ∉ part := not_mem_of_mem_splitOn
      cases hsplit : splitOn c cs with
      | nil => exact absurd hsplit (splitOn_ne_nil c cs)
      | cons first rest =>
        rw [hsplit] at h ih
        rcases List.mem_cons.1 h with rfl | h
        · exact List.not_mem_cons_of_ne_of_not_mem (Ne.symm hd) (ih List.mem_cons_self)
        · exact ih (List.mem_cons_of_mem _ h)

end

end Text

namespace Path

/-! ## Pieces -/

theorem plain_of_mem_pieces {p : Path} {part : Part} (h : part ∈ p.pieces) : slash ∉ part :=
  Text.not_mem_of_mem_splitOn h

/-! ## Parts that count -/

theorem trimParts_append (leading : Bool) (parts : List Part) :
    ∃ rest, parts = trimParts leading parts ++ rest ∧ ∀ part ∈ rest, part = [] ∨ part = here := by
  induction parts generalizing leading with
  | nil => exact ⟨[], rfl, fun part h => absurd h List.not_mem_nil⟩
  | cons part parts ih =>
    obtain ⟨rest, hparts, hrest⟩ := ih false
    rw [trimParts]
    cases htrim : trimParts false parts with
    | nil =>
      rw [htrim] at hparts
      obtain rfl : parts = rest := hparts
      by_cases hpart : part = [] ∨ part = here ∧ (!leading) = true
      · refine ⟨part :: parts, by rw [if_pos hpart]; rfl, fun x hx => ?_⟩
        rcases List.mem_cons.1 hx with rfl | hx
        · exact hpart.imp id And.left
        · exact hrest x hx
      · exact ⟨parts, by rw [if_neg hpart]; rfl, hrest⟩
    | cons first others => exact ⟨rest, by rw [List.cons_append, ← htrim, ← hparts], hrest⟩

theorem trimParts_concat (leading : Bool) (parts : List Part) {last : Part} (hempty : last ≠ [])
    (hdot : last ≠ here) :
    trimParts leading (parts ++ [last]) = parts ++ [last] := by
  induction parts generalizing leading with
  | nil =>
    rw [List.nil_append, trimParts, trimParts, if_neg]
    rintro (h | h)
    · exact hempty h
    · exact hdot h.1
  | cons part parts ih =>
    rw [List.cons_append, trimParts, ih]
    cases parts <;> rfl

theorem trimParts_isPrefix (leading : Bool) (parts : List Part) : trimParts leading parts <+: parts := by
  obtain ⟨rest, hparts, -⟩ := trimParts_append leading parts
  exact ⟨rest, hparts.symm⟩

theorem trimParts_trimParts (leading : Bool) (parts : List Part) :
    trimParts leading (trimParts leading parts) = trimParts leading parts := by
  induction parts generalizing leading with
  | nil => rfl
  | cons part parts ih =>
    rw [trimParts]
    cases htrim : trimParts false parts with
    | nil =>
      by_cases hpart : part = [] ∨ part = here ∧ (!leading) = true
      · rw [if_pos hpart]
        rfl
      · rw [if_neg hpart, trimParts, trimParts, if_neg hpart]
    | cons first others =>
      have hothers := ih false
      rw [htrim] at hothers
      rw [trimParts, hothers]

theorem getLast_trimParts_ne_nil {last : Part} (leading : Bool) (parts : List Part)
    (h : (trimParts leading parts).getLast? = some last) : last ≠ [] := by
  induction parts generalizing leading with
  | nil => cases h
  | cons part parts ih =>
    rw [trimParts] at h
    cases htrim : trimParts false parts with
    | nil =>
      rw [htrim] at h
      by_cases hpart : part = [] ∨ part = here ∧ (!leading) = true
      · rw [if_pos hpart] at h
        cases h
      · rw [if_neg hpart] at h
        cases h
        exact fun hempty => hpart (.inl hempty)
    | cons first others =>
      rw [htrim] at h
      exact ih false (by rw [htrim, ← h, List.getLast?_cons_cons])

/-! ## Paths of parts -/

/-- Parts that a path made from them has again. -/
structure Tidy (root : Bool) (parts : List Part) : Prop where
  plain : ∀ part ∈ parts, slash ∉ part
  start : root = false → parts.head? ≠ some []
  trimmed : trimParts (!root) parts = parts

theorem bytes_ofParts (root : Bool) (parts : List Part) :
    (ofParts root parts).bytes = (if root then [slash] else []) ++ [slash].intercalate parts := by
  cases root <;> rfl

section

variable {root : Bool} {parts : List Part}

theorem pieces_ofParts (h : ∀ part ∈ parts, slash ∉ part) (hne : parts ≠ []) :
    (ofParts root parts).pieces = (if root then [[]] else []) ++ parts := by
  rw [pieces, bytes_ofParts]
  have hsplit := List.splitOn_intercalate slash h hne
  cases root with
  | true =>
    show Text.splitOn slash ([] ++ slash :: [slash].intercalate parts) = _
    rw [Text.splitOn_append, Text.splitOn_eq _ ([slash].intercalate parts), hsplit]
    rfl
  | false =>
    rw [Text.splitOn_eq]
    exact hsplit

theorem isAbsolute_ofParts (h : Tidy root parts) : (ofParts root parts).isAbsolute = root := by
  rw [isAbsolute, bytes_ofParts]
  cases root with
  | true => rfl
  | false =>
    cases parts with
    | nil => rfl
    | cons part rest =>
      cases part with
      | nil => exact absurd rfl (h.start rfl)
      | cons c cs =>
        have hc : c ≠ slash := fun hc => h.plain _ List.mem_cons_self (hc ▸ List.mem_cons_self)
        cases rest <;> simpa using hc

theorem parts_ofParts (h : Tidy root parts) : (ofParts root parts).parts = parts := by
  rw [Path.parts, isAbsolute_ofParts h]
  cases hparts : parts with
  | nil => cases root <;> rfl
  | cons part rest =>
    rw [← hparts]
    have hpieces : (ofParts root parts).pieces = (if root then [[]] else []) ++ parts :=
      pieces_ofParts h.plain (by rw [hparts]; exact List.cons_ne_nil _ _)
    have htrimmed := h.trimmed
    cases root with
    | true => rw [hpieces]; exact htrimmed
    | false => rw [hpieces]; exact htrimmed

theorem parent?_ofParts (h : Tidy root parts) (hne : parts ≠ []) :
    (ofParts root parts).parent? = some (ofParts root (trimParts (!root) parts.dropLast)) := by
  rw [parent?, parts_ofParts h, if_neg hne, withParts, isAbsolute_ofParts h]

/-- Tidy parts without the last one are tidy again when they are trimmed. -/
theorem Tidy.init (h : Tidy root parts) : Tidy root (trimParts (!root) parts.dropLast) where
  plain part hpart := h.plain part (( List.dropLast_prefix parts).subset ((trimParts_isPrefix _ _).subset hpart))
  start hroot := by
    have hinit : trimParts (!root) parts.dropLast <+: parts :=
      (trimParts_isPrefix _ _).trans ( List.dropLast_prefix parts)
    obtain ⟨rest, hrest⟩ := hinit
    cases htrim : trimParts (!root) parts.dropLast with
    | nil => simp
    | cons first others =>
      have hstart := h.start hroot
      rw [← hrest, htrim] at hstart
      exact hstart
  trimmed := trimParts_trimParts _ _

end

/-! ## Paths taken from others -/

/-- A part that can be the name of an entry. -/
structure IsName (name : Part) : Prop where
  ne_empty : name ≠ []
  ne_here : name ≠ here
  ne_up : name ≠ up
  plain : slash ∉ name

/-- A part that names an entry, so that a walk has to look what is there. -/
structure Enters (part : Part) : Prop where
  ne_empty : part ≠ []
  ne_here : part ≠ here
  ne_up : part ≠ up

theorem IsName.enters {name : Part} (h : IsName name) : Enters name := ⟨h.ne_empty, h.ne_here, h.ne_up⟩

/-- A part stays, goes up, or enters. -/
theorem part_cases (part : Part) : (part = [] ∨ part = here) ∨ part = up ∨ Enters part := by
  by_cases hempty : part = []
  · exact .inl (.inl hempty)
  · by_cases hhere : part = here
    · exact .inl (.inr hhere)
    · by_cases hup : part = up
      · exact .inr (.inl hup)
      · exact .inr (.inr ⟨hempty, hhere, hup⟩)

/-- The pieces of a path that stand before those of a path that is taken from it. -/
def front (base : Path) : List Part :=
  if base.bytes = [] then []
  else if base.bytes.getLast? = some slash then base.pieces.dropLast
  else base.pieces

/-- The parts of a path that stand before those of a path that is taken from it. -/
def lead (base : Path) : List Part := if base.isAbsolute then base.front.tail else base.front

theorem intercalate_append {a b : List Part} (ha : a ≠ []) (hb : b ≠ []) :
    [slash].intercalate (a ++ b) = [slash].intercalate a ++ slash :: [slash].intercalate b := by
  induction a with
  | nil => exact absurd rfl ha
  | cons part rest ih =>
    cases rest with
    | nil => rw [List.singleton_append, List.intercalate_cons_of_ne_nil hb, List.intercalate_singleton]; simp
    | cons next rest =>
      rw [List.cons_append, List.cons_append, List.intercalate_cons_cons, ← List.cons_append,
        ih (List.cons_ne_nil _ _), List.intercalate_cons_cons]
      simp

theorem intercalate_pieces (p : Path) : [slash].intercalate p.pieces = p.bytes := by
  rw [pieces, Text.splitOn_eq, List.intercalate_splitOn]

theorem pieces_of_isAbsolute {p : Path} (h : p.isAbsolute = true) : ∃ rest, p.pieces = [] :: rest ∧ rest ≠ [] := by
  rw [isAbsolute, beq_iff_eq] at h
  cases hbytes : p.bytes with
  | nil => rw [hbytes] at h; cases h
  | cons c cs =>
    rw [hbytes] at h
    cases h
    exact ⟨Text.splitOn slash cs, by rw [pieces, hbytes, Text.splitOn, if_pos rfl], Text.splitOn_ne_nil _ _⟩

theorem eq_of_bytes {p q : Path} (h : p.bytes = q.bytes) : p = q := by
  cases p
  exact congrArg Path.mk h

/-- Names are tidy after parts that start well. -/
theorem tidy_append {root : Bool} (front : List Part) {names : List Part} (hne : names ≠ [])
    (hnames : ∀ name ∈ names, IsName name) (hplain : ∀ part ∈ front, slash ∉ part)
    (hstart : root = false → front.head? ≠ some []) : Tidy root (front ++ names) where
  plain part hpart := by
    rcases List.mem_append.1 hpart with hpart | hpart
    · exact hplain part hpart
    · exact (hnames part hpart).plain
  start hroot := by
    cases front with
    | nil =>
      cases names with
      | nil => exact absurd rfl hne
      | cons name rest => exact fun h => (hnames name List.mem_cons_self).ne_empty (Option.some.inj h)
    | cons part rest => exact hstart hroot
  trimmed := by
    have hlast := hnames _ (List.getLast_mem hne)
    rw [← List.dropLast_concat_getLast hne, ← List.append_assoc]
    exact trimParts_concat _ _ hlast.ne_empty hlast.ne_here

theorem front_isPrefix (base : Path) : base.front <+: base.pieces := by
  rw [front]
  split
  · exact List.nil_prefix
  · split
    · exact List.dropLast_prefix _
    · exact List.prefix_rfl

/-- The bytes of a path that ends in a slash are those of its pieces but for the last one, with a slash. -/
theorem pieces_of_getLast {p : Path} (h : p.bytes.getLast? = some slash) :
    ∃ before, p.bytes = before ++ [slash] ∧ p.pieces = Text.splitOn slash before ++ [[]] := by
  obtain ⟨before, hbytes⟩ := List.getLast?_eq_some_iff.1 h
  exact ⟨before, hbytes, by rw [pieces, hbytes, Text.splitOn_append]; rfl⟩

theorem front_ne_nil {base : Path} (h : base.bytes ≠ []) : base.front ≠ [] := by
  rw [front, if_neg h]
  split
  · next hlast =>
    obtain ⟨before, -, hpieces⟩ := pieces_of_getLast hlast
    rw [hpieces, List.dropLast_concat]
    exact Text.splitOn_ne_nil _ _
  · exact Text.splitOn_ne_nil _ _

theorem plain_of_mem_lead {base : Path} {part : Part} (h : part ∈ base.lead) : slash ∉ part := by
  apply plain_of_mem_pieces (base.front_isPrefix.subset _)
  rw [lead] at h
  split at h
  · exact List.mem_of_mem_tail h
  · exact h

theorem head_lead {base : Path} (h : base.isAbsolute = false) : base.lead.head? ≠ some [] := by
  rw [lead, h, if_neg Bool.false_ne_true]
  intro hhead
  obtain ⟨rest, hfront⟩ : ∃ rest, base.front = [] :: rest := by
    cases hfront : base.front with
    | nil => rw [hfront] at hhead; cases hhead
    | cons part rest => rw [hfront] at hhead; exact ⟨rest, by rw [Option.some.inj hhead]⟩
  obtain ⟨others, hpieces⟩ := base.front_isPrefix
  rw [hfront, List.cons_append] at hpieces
  have hbytes := intercalate_pieces base
  rw [← hpieces] at hbytes
  cases hrest : rest ++ others with
  | nil =>
    -- an empty path has no pieces before those of another path
    rw [hrest, List.intercalate_singleton] at hbytes
    rw [front, if_pos hbytes.symm] at hfront
    cases hfront
  | cons next more =>
    rw [hrest, List.intercalate_cons_cons, List.nil_append] at hbytes
    rw [isAbsolute, ← hbytes] at h
    cases h

theorem tidy_join (base : Path) {names : List Part} (hne : names ≠ []) (hnames : ∀ name ∈ names, IsName name) :
    Tidy base.isAbsolute (base.lead ++ names) :=
  tidy_append _ hne hnames (fun _ => plain_of_mem_lead) head_lead

theorem bytes_join_ofNames (base : Path) {names : List Part} (hne : names ≠ []) (hnames : ∀ name ∈ names, IsName name) :
    (base.join (.ofNames names)).bytes = [slash].intercalate (base.front ++ names) := by
  have hrelative : (ofNames names).isAbsolute = false :=
    isAbsolute_ofParts (tidy_append [] hne hnames (fun _ h => absurd h List.not_mem_nil) (fun _ h => by cases h))
  have hbytes : (ofNames names).bytes = [slash].intercalate names := rfl
  rw [join, hrelative, if_neg Bool.false_ne_true]
  by_cases hempty : base.bytes = []
  · rw [if_pos hempty, hbytes, front, if_pos hempty, List.nil_append]
  · rw [if_neg hempty, intercalate_append (front_ne_nil hempty) hne, ← hbytes, front, if_neg hempty]
    by_cases hlast : base.bytes.getLast? = some slash
    · obtain ⟨before, hbefore, hpieces⟩ := pieces_of_getLast hlast
      rw [if_pos hlast, if_pos hlast, hpieces, List.dropLast_concat, Text.splitOn_eq, List.intercalate_splitOn,
        hbefore, List.append_assoc]
      rfl
    · rw [if_neg hlast, if_neg hlast, intercalate_pieces]

/-- The parts of a path that is taken from another one. -/
theorem join_ofNames (base : Path) {names : List Part} (hne : names ≠ []) (hnames : ∀ name ∈ names, IsName name) :
    base.join (.ofNames names) = ofParts base.isAbsolute (base.lead ++ names) := by
  apply eq_of_bytes
  rw [bytes_join_ofNames base hne hnames, bytes_ofParts, lead]
  cases hroot : base.isAbsolute with
  | false => rfl
  | true =>
    obtain ⟨rest, hpieces, -⟩ := pieces_of_isAbsolute hroot
    obtain ⟨others, hothers⟩ := base.front_isPrefix
    cases hfront : base.front with
    | nil =>
      refine absurd hfront (front_ne_nil fun hempty => ?_)
      rw [isAbsolute, hempty] at hroot
      cases hroot
    | cons part tail =>
      rw [hfront, hpieces] at hothers
      obtain rfl := (List.cons.inj hothers).1
      rw [List.cons_append, List.intercalate_cons_of_ne_nil fun h => hne (List.append_eq_nil_iff.1 h).2]
      rfl

/-! ## Parts of any path -/

theorem pieces_eq_parts (p : Path) : ∃ still, p.pieces = (if p.isAbsolute then [[]] else []) ++ p.parts ++ still ∧
    ∀ part ∈ still, part = [] ∨ part = here := by
  have hparts : p.parts = if p.isAbsolute then trimParts false p.pieces.tail else trimParts true p.pieces := rfl
  cases hroot : p.isAbsolute with
  | true =>
    obtain ⟨rest, hpieces, -⟩ := pieces_of_isAbsolute hroot
    obtain ⟨still, hrest, hstill⟩ := trimParts_append false rest
    refine ⟨still, ?_, hstill⟩
    rw [hparts, hroot, if_pos rfl, if_pos rfl, hpieces, List.tail_cons, List.append_assoc, ← hrest]
    rfl
  | false =>
    obtain ⟨still, hpieces, hstill⟩ := trimParts_append true p.pieces
    refine ⟨still, ?_, hstill⟩
    rw [hparts, hroot]
    exact hpieces

theorem mem_pieces_of_mem_parts {p : Path} {part : Part} (h : part ∈ p.parts) : part ∈ p.pieces := by
  obtain ⟨still, hpieces, -⟩ := p.pieces_eq_parts
  rw [hpieces]
  exact List.mem_append_left _ (List.mem_append_right _ h)

/-- A text that does not start at the root has an empty first piece only if it is empty. -/
theorem head_parts {p : Path} (h : p.isAbsolute = false) : p.parts.head? ≠ some [] := by
  intro hhead
  obtain ⟨still, hpieces, -⟩ := p.pieces_eq_parts
  rw [h] at hpieces
  have htrim : trimParts true p.pieces = p.parts := by rw [parts, h]; rfl
  cases hparts : p.parts with
  | nil => rw [hparts] at hhead; cases hhead
  | cons first rest =>
    rw [hparts] at hhead hpieces htrim
    obtain rfl := Option.some.inj hhead
    have htext := intercalate_pieces p
    rw [hpieces] at htext htrim
    cases hrest : rest ++ still with
    | nil =>
      obtain ⟨rfl, rfl⟩ := List.append_eq_nil_iff.1 hrest
      cases htrim
    | cons next more =>
      have hall : (if false = true then [[]] else []) ++ [] :: rest ++ still = [] :: next :: more := by
        rw [← hrest]
        rfl
      rw [hall, List.intercalate_cons_cons, List.nil_append] at htext
      rw [isAbsolute, ← htext] at h
      cases h

theorem tidy_parts (p : Path) : Tidy p.isAbsolute p.parts where
  plain part hpart := plain_of_mem_pieces (mem_pieces_of_mem_parts hpart)
  start hroot := head_parts hroot
  trimmed := by
    have hparts : p.parts = if p.isAbsolute then trimParts false p.pieces.tail else trimParts true p.pieces := rfl
    rw [hparts]
    cases p.isAbsolute <;> exact trimParts_trimParts _ _

/-! ## Names -/

/-- A path that has a name, after parts. -/
structure Named (p : Path) (init : List Part) (name : Part) : Prop where
  parts : p.parts = init ++ [name]
  enters : Enters name

theorem fileName?_eq_some {p : Path} {name : Part} : p.fileName? = some name ↔ ∃ init, Named p init name := by
  rw [fileName?]
  constructor
  · intro h
    cases hlast : p.parts.getLast? with
    | none => rw [hlast] at h; cases h
    | some last =>
      rw [hlast] at h
      by_cases hdots : last = here ∨ last = up
      · cases (if_pos hdots).symm.trans h
      · cases (if_neg hdots).symm.trans h
        obtain ⟨init, hparts⟩ := List.getLast?_eq_some_iff.1 hlast
        have hne : name ≠ [] :=
          getLast_trimParts_ne_nil (!p.isAbsolute) p.parts (by rw [p.tidy_parts.trimmed, hlast])
        exact ⟨init, hparts, hne, fun hhere => hdots (.inl hhere), fun hup => hdots (.inr hup)⟩
  · rintro ⟨init, hparts, henters⟩
    rw [hparts, List.getLast?_concat]
    exact if_neg (not_or.2 ⟨henters.ne_here, henters.ne_up⟩)

section

variable {p : Path} {init : List Part} {name last : Part}

theorem Named.plain (h : Named p init name) : slash ∉ name :=
  p.tidy_parts.plain name (by rw [h.parts]; exact List.mem_append_right _ List.mem_cons_self)

/-- The parts of a path with another name in place of its own are tidy. -/
theorem Named.tidy (h : Named p init name) (hplain : slash ∉ last) (hlast : Enters last) :
    Tidy p.isAbsolute (init ++ [last]) where
  plain part hpart := by
    rcases List.mem_append.1 hpart with hpart | hpart
    · exact p.tidy_parts.plain part (by rw [h.parts]; exact List.mem_append_left _ hpart)
    · rw [List.mem_singleton.1 hpart]
      exact hplain
  start hroot := by
    have hhead := head_parts hroot
    rw [h.parts] at hhead
    cases init with
    | nil => exact fun hhead => hlast.ne_empty (Option.some.inj hhead)
    | cons first rest => exact hhead
  trimmed := trimParts_concat _ _ hlast.ne_empty hlast.ne_here

/-- The path with another name in place of its own has this name. -/
theorem Named.withName (h : Named p init name) (hplain : slash ∉ last) (hlast : Enters last) :
    Named (p.withParts (init ++ [last])) init last ∧
      (p.withParts (init ++ [last])).pieces = (if p.isAbsolute then [[]] else []) ++ init ++ [last] ∧
        (p.withParts (init ++ [last])).isAbsolute = p.isAbsolute := by
  have htidy := h.tidy hplain hlast
  refine ⟨⟨parts_ofParts htidy, hlast⟩, ?_, isAbsolute_ofParts htidy⟩
  rw [withParts, pieces_ofParts htidy.plain (by simp), List.append_assoc]

theorem Named.exists_parent (h : Named p init name) : ∃ parent, p.parent? = some parent :=
  ⟨_, by rw [parent?, h.parts, if_neg (by simp)]⟩

end

/-! ## The directories that a path lies in -/

/-- A path, or one of the directories that it lies in. -/
inductive Heads (q : Path) : Path → Prop where
  | self : Heads q q
  | parent {p parent : Path} : p.parent? = some parent → Heads q parent → Heads q p

theorem parent?_eq_some {p parent : Path} : p.parent? = some parent ↔
    p.parts ≠ [] ∧ parent = ofParts p.isAbsolute (trimParts (!p.isAbsolute) p.parts.dropLast) := by
  rw [parent?]
  by_cases hparts : p.parts = []
  · rw [if_pos hparts]
    exact ⟨fun h => (by cases h), fun h => absurd hparts h.1⟩
  · rw [if_neg hparts]
    exact ⟨fun h => ⟨hparts, (Option.some.inj h).symm⟩, fun h => by rw [h.2]; rfl⟩

/-- The directory that a path is in has tidy parts: those of the path, but for the last one and for some
that do not count. -/
theorem parts_parent {p parent : Path} (h : p.parent? = some parent) :
    parent.isAbsolute = p.isAbsolute ∧ parent = ofParts parent.isAbsolute parent.parts ∧
      parent.parts = trimParts (!p.isAbsolute) p.parts.dropLast := by
  obtain ⟨-, rfl⟩ := parent?_eq_some.1 h
  have hroot := isAbsolute_ofParts p.tidy_parts.init
  have hparts := parts_ofParts p.tidy_parts.init
  exact ⟨hroot, by rw [hroot, hparts], hparts⟩

end Path

end CoveragePages
