/-
What the statements of a data script do to the page data, one by one. A statement puts what it supplies
over the page, so statements of different names may come in any order, statements of other names change
nothing, and of two statements of one name the later one counts.
-/
import CoveragePages.Proofs.Page.Encodings

namespace CoveragePages.PageData

open Script (Assignment Statement ScriptText)

/-! ## Pages over pages -/

/-- The items of a page where it has them, and of the page below it elsewhere. -/
def overlay (below page : PageData) : PageData where
  header := page.header.or below.header
  data := page.data.or below.data
  mergedData := page.mergedData.or below.mergedData
  percentLow := page.percentLow.or below.percentLow
  percentHigh := page.percentHigh.or below.percentHigh

/-- Whether a page has an item. -/
def has (page : PageData) : Item → Bool
  | .header => page.header.isSome
  | .data => page.data.isSome
  | .mergedData => page.mergedData.isSome
  | .percentLow => page.percentLow.isSome
  | .percentHigh => page.percentHigh.isSome

/-- What is missing above shows, and what is there hides what is below it. -/
theorem or_or_of_imp {α : Type} {a b : Option α} (c : Option α) (h : a.isSome = true → b.isSome = true) :
    b.or (a.or c) = b.or c := by
  cases a <;> cases b <;> first | rfl | exact absurd (h rfl) nofun

theorem or_or_comm {α : Type} {a b : Option α} (c : Option α) (h : ¬ (a.isSome = true ∧ b.isSome = true)) :
    b.or (a.or c) = a.or (b.or c) := by
  cases a <;> cases b <;> first | rfl | exact absurd ⟨rfl, rfl⟩ h

/-- Pages that have no item in common may be put over a page in either order. -/
theorem overlay_comm {p q : PageData} (h : ∀ item, ¬ (p.has item = true ∧ q.has item = true)) (page : PageData) :
    (page.overlay p).overlay q = (page.overlay q).overlay p := by
  simp only [overlay, or_or_comm _ (h .header), or_or_comm _ (h .data), or_or_comm _ (h .mergedData),
    or_or_comm _ (h .percentLow), or_or_comm _ (h .percentHigh)]

/-- A page hides a page below it that has no other items. -/
theorem overlay_hides {p q : PageData} (h : ∀ item, p.has item = true → q.has item = true) (page : PageData) :
    (page.overlay p).overlay q = page.overlay q := by
  simp only [overlay, or_or_of_imp _ (h .header), or_or_of_imp _ (h .data), or_or_of_imp _ (h .mergedData),
    or_or_of_imp _ (h .percentLow), or_or_of_imp _ (h .percentHigh)]

/-! ## One assignment -/

/-- The names that items are supplied under. -/
def itemNames : List String := [Item.header, .data, .mergedData, .percentLow, .percentHigh].map Item.name

theorem assign_other {a : Assignment} (h : a.1 ∉ itemNames) (page : PageData) : assign page a = .ok page := by
  simp only [itemNames, Item.name, List.map_cons, List.map_nil, List.mem_cons, List.not_mem_nil, or_false, not_or] at h
  obtain ⟨hheader, hdata, hmerged, hlow, hhigh⟩ := h
  obtain ⟨name, value⟩ := a
  simp only [assign, hheader, hdata, hmerged, hlow, hhigh, if_false]

/-- An assignment puts what it supplies over the page, and it supplies the item of its name. -/
theorem assign_eq (page : PageData) (a : Assignment) : assign page a = (assign {} a).map page.overlay := by
  obtain ⟨name, value⟩ := a
  unfold assign
  simp only
  split
  · cases readVariable name Header.reader value <;> rfl
  split
  · cases readVariable name readRecords value <;> rfl
  split
  · cases readVariable name readRecords value <;> rfl
  split
  · cases numberVariable name value <;> rfl
  split
  · cases numberVariable name value <;> rfl
  · rfl

theorem has_of_store {α : Type} {taken : Except Refusal α} {store : α → PageData} {page : PageData} (item : Item)
    (hstore : ∀ x other, (store x).has other = decide (other = item))
    (h : (taken >>= fun x => .ok (store x)) = .ok page)
    (other : Item) : page.has other = true ↔ other.name = item.name := by
  obtain ⟨x, -, hpage⟩ := Json.bind_ok h
  cases hpage
  rw [hstore, decide_eq_true_iff]
  exact ⟨congrArg Item.name, item_name_inj⟩

/-- An assignment that is accepted supplies the item of its name, and nothing else. -/
theorem has_of_assign {a : Assignment} {page : PageData} (h : assign {} a = .ok page) (item : Item) :
    page.has item = true ↔ item.name = a.1 := by
  obtain ⟨name, value⟩ := a
  unfold assign at h
  simp only at h ⊢
  split at h
  · subst name
    exact has_of_store .header (fun _ other => by cases other <;> rfl) h item
  split at h
  · subst name
    exact has_of_store .data (fun _ other => by cases other <;> rfl) h item
  split at h
  · subst name
    exact has_of_store .mergedData (fun _ other => by cases other <;> rfl) h item
  split at h
  · subst name
    exact has_of_store .percentLow (fun _ other => by cases other <;> rfl) h item
  split at h
  · subst name
    exact has_of_store .percentHigh (fun _ other => by cases other <;> rfl) h item
  · cases h
    cases item <;> simp [has, Item.name, *, eq_comm]

/-! ## Scripts as folds -/

variable {statements others : List Statement} {s t : Statement} {text text' : String}

/-- The page data after a statement. -/
def afterStatement (page : PageData) (s : Statement) : Except Refusal PageData := assign page s.assignment

/-- Whether a statement has the name of an item. -/
def suppliesItem (s : Statement) : Bool := s.assignment.1 ∈ itemNames

theorem ofScript_eq (h : ScriptText statements text.toList) : ofScript text = statements.foldlM afterStatement {} := by
  rw [ofScript, Script.parse_of_scriptText h]
  exact List.foldlM_map

/-! ## Order -/

theorem afterStatement_other (h : suppliesItem s = false) (page : PageData) : afterStatement page s = .ok page :=
  assign_other (of_decide_eq_false h) page

/-- Statements of different names may come in either order. -/
theorem afterStatement_comm (h : s.assignment.1 ≠ t.assignment.1) (page : PageData) :
    ((afterStatement page s).toOption.bind fun p => (afterStatement p t).toOption) =
      (afterStatement page t).toOption.bind fun p => (afterStatement p s).toOption := by
  have hsplit : ∀ (page : PageData) (s : Statement),
      (afterStatement page s).toOption = (afterStatement {} s).toOption.map page.overlay := by
    intro page s
    rw [afterStatement, assign_eq, afterStatement]
    cases assign {} s.assignment <;> rfl
  rw [hsplit page s, hsplit page t]
  simp only [Option.bind_map, Function.comp_def, hsplit (page.overlay _)]
  cases hs : afterStatement {} s with
  | error => cases afterStatement {} t <;> rfl
  | ok p =>
    cases ht : afterStatement {} t with
    | error => rfl
    | ok q =>
      have hapart : ∀ item, ¬ (p.has item = true ∧ q.has item = true) := by
        rintro item ⟨hp, hq⟩
        exact h (((has_of_assign hs item).1 hp).symm.trans ((has_of_assign ht item).1 hq))
      exact congrArg some (overlay_comm hapart page)

theorem foldlM_perm (hperm : statements.Perm others)
    (hnames : ((statements.filter suppliesItem).map (·.assignment.1)).Nodup) :
    (statements.foldlM afterStatement {}).toOption = (others.foldlM afterStatement {}).toOption := by
  have hfold := fun l => Json.toOption_foldlM afterStatement l (some {})
  refine (hfold statements).trans (Eq.trans ?_ (hfold others).symm)
  refine hperm.foldl_eq' (fun s hs t ht page => ?_) _
  cases page with
  | none => rfl
  | some page =>
    by_cases hname : s.assignment.1 = t.assignment.1
    · cases hitem : suppliesItem s with
      | true =>
        -- two statements of one item are the same statement
        have hitem' : suppliesItem t = true := by rwa [suppliesItem, ← hname]
        rw [List.inj_on_of_nodup_map hnames (List.mem_filter.2 ⟨hs, hitem⟩) (List.mem_filter.2 ⟨ht, hitem'⟩) hname]
      | false =>
        have hitem' : suppliesItem t = false := by rwa [suppliesItem, ← hname]
        simp only [Option.bind_some, afterStatement_other hitem, afterStatement_other hitem', Except.toOption]
    · exact afterStatement_comm hname page

/-- Statements of other names change nothing. -/
theorem foldlM_filter (statements : List Statement) (page : PageData) :
    (statements.filter suppliesItem).foldlM afterStatement page = statements.foldlM afterStatement page := by
  induction statements generalizing page with
  | nil => rfl
  | cons s statements ih =>
    cases hitem : suppliesItem s with
    | true =>
      rw [List.filter_cons_of_pos hitem, List.foldlM_cons, List.foldlM_cons]
      exact congrArg (afterStatement page s >>= ·) (funext ih)
    | false =>
      rw [List.filter_cons_of_neg (by simp [hitem]), ih, List.foldlM_cons, afterStatement_other hitem]
      rfl

/-! ## Overwritten statements -/

/-- Whether a statement is accepted on its own. -/
def Accepted (s : Statement) : Prop := ∃ text page, ScriptText [s] text.toList ∧ ofScript text = .ok page

/-- What a statement supplies, if it is accepted. -/
def supplied (s : Statement) : PageData := (afterStatement {} s).toOption.getD {}

/-- What statements that are accepted put over a page, one after the other. -/
def placed (page : PageData) (statements : List Statement) : PageData :=
  statements.foldl (fun page s => page.overlay (supplied s)) page

/-- The last statement of each item, in order. -/
def lasting : List Statement → List Statement
  | [] => []
  | s :: rest =>
    if suppliesItem s = true ∧ ∀ t ∈ rest, t.assignment.1 ≠ s.assignment.1 then s :: lasting rest else lasting rest

/-- An entry is accepted on its own if its assignment is. -/
theorem Entry.accepted {e : Entry} {page : PageData} (h : assign {} e.assignment = .ok page) :
    Accepted e.statement := by
  have htext : ScriptOf [e] (String.ofList (e.statementText ++ [])).toList := by
    rw [String.toList_ofList, ← List.nil_append (e.statementText ++ [])]
    exact .statement .nil (.done .nil)
  refine ⟨_, page, htext.scriptText, ?_⟩
  rw [ofScript, htext.parse]
  show (assign {} e.assignment >>= fun page => .ok page) = .ok page
  rw [h]
  rfl

theorem Accepted.supplied (h : Accepted s) : afterStatement {} s = .ok (supplied s) := by
  obtain ⟨text, page, htext, hpage⟩ := h
  rw [ofScript_eq htext, List.foldlM_cons] at hpage
  obtain ⟨page', hs, -⟩ := Json.bind_ok hpage
  rw [PageData.supplied, hs]
  rfl

theorem Accepted.afterStatement (h : Accepted s) (page : PageData) :
    afterStatement page s = .ok (page.overlay (PageData.supplied s)) := by
  rw [PageData.afterStatement, assign_eq]
  exact congrArg (Except.map page.overlay) h.supplied

theorem Accepted.has_iff (h : Accepted s) (item : Item) :
    (PageData.supplied s).has item = true ↔ item.name = s.assignment.1 := has_of_assign h.supplied item

theorem foldlM_accepted (h : ∀ s ∈ statements, Accepted s) (page : PageData) :
    statements.foldlM afterStatement page = .ok (placed page statements) := by
  induction statements generalizing page with
  | nil => rfl
  | cons s statements ih =>
    obtain ⟨hs, hrest⟩ := List.forall_mem_cons.1 h
    rw [List.foldlM_cons, hs.afterStatement]
    exact ih hrest _

/-- What a later statement of the same name supplies hides what an earlier one did. -/
theorem placed_hidden (hs : Accepted s) (h : ∀ t ∈ statements, Accepted t)
    (hlater : ∃ t ∈ statements, t.assignment.1 = s.assignment.1) (page : PageData) :
    placed (page.overlay (supplied s)) statements = placed page statements := by
  induction statements generalizing page with
  | nil =>
    obtain ⟨t, ht, -⟩ := hlater
    cases ht
  | cons t statements ih =>
    obtain ⟨ht, hrest⟩ := List.forall_mem_cons.1 h
    show placed ((page.overlay (supplied s)).overlay (supplied t)) statements =
        placed (page.overlay (supplied t)) statements
    by_cases hname : t.assignment.1 = s.assignment.1
    · have hcovers : ∀ item, (supplied s).has item = true → (supplied t).has item = true := by
        intro item hitem
        rw [ht.has_iff, hname]
        exact (hs.has_iff item).1 hitem
      rw [overlay_hides hcovers]
    · have hapart : ∀ item, ¬ ((supplied s).has item = true ∧ (supplied t).has item = true) := by
        rintro item ⟨hitem, hitem'⟩
        exact hname (((ht.has_iff item).1 hitem').symm.trans ((hs.has_iff item).1 hitem))
      have hmore : ∃ t ∈ statements, t.assignment.1 = s.assignment.1 := by
        obtain ⟨u, hu, huname⟩ := hlater
        rcases List.mem_cons.1 hu with rfl | hu
        · exact absurd huname hname
        · exact ⟨u, hu, huname⟩
      rw [overlay_comm hapart]
      exact ih hrest hmore _

theorem placed_lasting (h : ∀ s ∈ statements, Accepted s) (page : PageData) :
    placed page (lasting statements) = placed page statements := by
  induction statements generalizing page with
  | nil => rfl
  | cons s statements ih =>
    obtain ⟨hs, hrest⟩ := List.forall_mem_cons.1 h
    have ih := ih hrest
    unfold lasting
    split
    · exact ih _
    · rename_i hnot
      rw [ih]
      show placed page statements = placed (page.overlay (supplied s)) statements
      cases hitem : suppliesItem s with
      | true =>
        have hlater : ∃ t ∈ statements, t.assignment.1 = s.assignment.1 := by
          by_contra! hlast
          exact hnot ⟨hitem, hlast⟩
        exact (placed_hidden hs hrest hlater page).symm
      | false =>
        have hnothing : page = page.overlay (supplied s) :=
          Except.ok.inj ((afterStatement_other hitem page).symm.trans (hs.afterStatement page))
        rw [← hnothing]

theorem mem_of_mem_lasting (h : s ∈ lasting statements) : s ∈ statements := by
  induction statements with
  | nil => cases h
  | cons t statements ih =>
    unfold lasting at h
    split at h
    · rcases List.mem_cons.1 h with rfl | h
      · exact List.mem_cons_self
      · exact List.mem_cons_of_mem _ (ih h)
    · exact List.mem_cons_of_mem _ (ih h)

/-! ## Scripts -/

/-- What a script is read as does not depend on the order of its statements, if no two of them supply the same
item, nor on statements of other names. Where every statement is accepted on its own, a script is accepted, and
read as the last statements of the items alone. -/
theorem statements_independent (h : ScriptText statements text.toList) (h' : ScriptText others text'.toList) :
    (statements.Perm others → ((statements.filter suppliesItem).map (·.assignment.1)).Nodup →
      (ofScript text).toOption = (ofScript text').toOption) ∧
    (statements.filter suppliesItem = others.filter suppliesItem → ofScript text = ofScript text') ∧
    ((∀ s ∈ statements, Accepted s) → others = lasting statements →
      ∃ page, ofScript text = .ok page ∧ ofScript text' = .ok page) := by
  rw [ofScript_eq h, ofScript_eq h']
  refine ⟨foldlM_perm, ?_, ?_⟩
  · intro hsame
    rw [← foldlM_filter statements, hsame, foldlM_filter]
  · rintro haccepted rfl
    refine ⟨placed {} statements, foldlM_accepted haccepted {}, ?_⟩
    rw [foldlM_accepted fun s hs => haccepted s (mem_of_mem_lasting hs), placed_lasting haccepted]

/-- The number 50 as `percent_high`. -/
def sampleHalf : Entry where
  item := .percentHigh
  text := "50"
  value := .integer 50
  parse_text := rfl
  not_null := nofun
  shallow := by decide
  header_keys := nofun

theorem statements_independent_sample :
    (ofScript "var data = [\x7b\x7d];var percent_high = 75;").toOption =
        (ofScript "var percent_high = 75;var data = [\x7b\x7d];").toOption ∧
      ofScript "var data = [\x7b\x7d];var percent_high = 75;" =
        ofScript "const\t$a//\n=\n[[1, ],];var data = [\x7b\x7d];var percent_high = 75;" ∧
      ∃ page, ofScript "var percent_high = 50;var data = [\x7b\x7d];var percent_high = 75;" = .ok page ∧
        ofScript "var data = [\x7b\x7d];var percent_high = 75;" = .ok page := by
  have hboth : ScriptText [sampleData.statement, samplePercent.statement]
      "var data = [\x7b\x7d];var percent_high = 75;".toList :=
    (ScriptOf.statement .nil (.statement .nil (.done .nil))).scriptText
  have hswapped : ScriptText [samplePercent.statement, sampleData.statement]
      "var percent_high = 75;var data = [\x7b\x7d];".toList :=
    (ScriptOf.statement .nil (.statement .nil (.done .nil))).scriptText
  have hother : ScriptText [Script.sampleArrays, sampleData.statement, samplePercent.statement]
      "const\t$a//\n=\n[[1, ],];var data = [\x7b\x7d];var percent_high = 75;".toList := .statement .nil hboth
  have htwice : ScriptText [sampleHalf.statement, sampleData.statement, samplePercent.statement]
      "var percent_high = 50;var data = [\x7b\x7d];var percent_high = 75;".toList :=
    (ScriptOf.statement .nil (.statement .nil (.statement .nil (.done .nil)))).scriptText
  have haccepted : ∀ s ∈ [sampleHalf.statement, sampleData.statement, samplePercent.statement], Accepted s := by
    intro s hs
    simp only [List.mem_cons, List.not_mem_nil, or_false] at hs
    rcases hs with rfl | rfl | rfl
    · exact Entry.accepted rfl
    · exact Entry.accepted rfl
    · exact Entry.accepted rfl
  exact ⟨(statements_independent hboth hswapped).1 (.swap ..) (by decide),
    (statements_independent hboth hother).2.1 (by rfl), (statements_independent htwice hboth).2.2 haccepted (by rfl)⟩

end CoveragePages.PageData
