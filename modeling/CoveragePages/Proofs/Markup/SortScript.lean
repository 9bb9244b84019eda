/-
The sort options as they stand in a page. A backslash is put before the slash of every end tag opener;
openers stand in strings only, where an escaped slash is a slash, so the options spell the same JSON
value as before, and give back the sort they were made from, to every reader that knows the options.
-/
import CoveragePages.Markup.Page
import CoveragePages.Proofs.Json.Printing
import CoveragePages.Proofs.Json.Shape

namespace CoveragePages

open Json HtmlPage

/-! ## Guarding -/

theorem guardClosers_cons {c : Char} (hc : c ≠ '<') (cs : List Char) :
    guardClosers (c :: cs) = c :: guardClosers cs := by
  rw [guardClosers]
  intros
  exact absurd ‹c = '<'› hc

theorem guardClosers_append (a : List Char) {b : List Char} (hb : b.head? ≠ some '/') :
    guardClosers (a ++ b) = guardClosers a ++ guardClosers b := by
  fun_induction guardClosers a with
  | case1 rest ih => simp [guardClosers, ih]
  | case2 c rest hne ih =>
    rw [List.cons_append, guardClosers, ih, List.cons_append]
    rintro rest' rfl heq
    cases rest with
    | nil => exact hb (by rw [show b = '/' :: rest' from heq]; rfl)
    | cons d rest =>
      cases heq
      exact hne rest rfl rfl
  | case3 => rfl

/-- Characters other than openers stay, whatever follows them. -/
theorem guardClosers_of_not_mem {a : List Char} (ha : '<' ∉ a) (b : List Char) :
    guardClosers (a ++ b) = a ++ guardClosers b := by
  induction a with
  | nil => rfl
  | cons c cs ih =>
    obtain ⟨hc, hcs⟩ := not_or.1 (mt List.mem_cons.2 ha)
    rw [List.cons_append, guardClosers_cons (Ne.symm hc), ih hcs, List.cons_append]

theorem guardClosers_spaces {s : List Char} (hs : Spaces s) (cs : List Char) :
    guardClosers (s ++ cs) = s ++ guardClosers cs :=
  guardClosers_of_not_mem (fun h => nomatch hs '<' h) cs

/-- What follows a token in JSON, after space, is no slash. -/
theorem head?_spaces {s : List Char} (hs : Spaces s) {c : Char} (hc : c ≠ '/') (cs : List Char) :
    (s ++ c :: cs).head? ≠ some '/' := by
  cases s with
  | nil => simpa using hc
  | cons d s =>
    intro h
    cases h
    cases hs '/' List.mem_cons_self

theorem head?_guardClosers (cs : List Char) : (guardClosers cs).head? = cs.head? := by
  unfold guardClosers
  split <;> rfl

/-- No end tag opens in a guarded text. -/
theorem no_closer_guarded (cs : List Char) : ¬ ['<', '/'] <:+: guardClosers cs := by
  fun_induction guardClosers cs with
  | case1 rest ih => simpa [List.infix_cons_iff, List.cons_prefix_cons] using ih
  | case2 c rest hne ih =>
    rw [List.infix_cons_iff, not_or]
    refine ⟨fun hprefix => ?_, ih⟩
    -- the guarded rest starts as the rest does
    obtain ⟨rfl, hslash⟩ := List.cons_prefix_cons.1 hprefix
    obtain ⟨tail, htail⟩ := hslash
    have hhead : rest.head? = some '/' := by rw [← head?_guardClosers, ← htail]; rfl
    obtain ⟨rest', rfl⟩ := List.head?_eq_some_iff.1 hhead
    exact hne rest' rfl rfl
  | case3 => simp

/-- The inside of a string has the same parts when it is guarded. -/
theorem quoted_guarded {body : List Char} {ps : List Piece} (h : Quoted body ps) : Quoted (guardClosers body) ps := by
  induction h with
  | nil => exact .nil
  | @plain c cs ps h1 h2 h3 h ih =>
    by_cases hopener : c = '<' ∧ cs.head? = some '/'
    · -- the slash becomes an escape for itself
      obtain ⟨rfl, hhead⟩ := hopener
      obtain ⟨rest, rfl⟩ := List.head?_eq_some_iff.1 hhead
      rw [guardClosers_cons (by decide)] at ih
      cases ih with
      | plain _ _ _ hrest => exact .plain h1 h2 h3 (.letter rfl hrest)
    · have heq : guardClosers (c :: cs) = c :: guardClosers cs := by
        rw [guardClosers]
        rintro rest rfl rfl
        exact hopener ⟨rfl, rfl⟩
      rw [heq]
      exact .plain h1 h2 h3 ih
  | @letter e c cs ps he h ih =>
    have hne : e ≠ '<' := by rintro rfl; cases he
    rw [guardClosers_cons (by decide), guardClosers_cons hne]
    exact .letter he ih
  | @unit a b c d code cs ps hcode h ih =>
    have hne : '<' ∉ ['\\', 'u', a, b, c, d] := by
      intro hmem
      simp only [List.mem_cons, List.not_mem_nil, or_false, Char.reduceEq, false_or] at hmem
      have hx := isSome_hexValue hcode '<' (by simpa using hmem)
      cases hx
    have heq := guardClosers_of_not_mem hne cs
    simp only [List.cons_append, List.nil_append] at heq
    rw [heq]
    exact .unit hcode ih

/-! ## Guarded JSON -/

theorem scalar_guarded {t : Tree} {cs : List Char} (h : Scalar t cs) : Scalar t (guardClosers cs) := by
  cases h with
  | null => exact .null
  | true_ => exact .true_
  | false_ => exact .false_
  | string hbody =>
    rw [guardClosers_cons (by decide), guardClosers_append _ (by simp)]
    exact .string (quoted_guarded hbody)
  | @number n cs hn =>
    have hmem : '<' ∉ cs := by
      intro h
      rcases hn.inNumber '<' h with h | h
      · cases h
      · revert h
        decide
    have heq := guardClosers_of_not_mem hmem []
    rw [List.append_nil, guardClosers, List.append_nil] at heq
    rw [heq]
    exact .number hn

/-- Guarded JSON spells what it spelled before. -/
theorem spelled_guarded {p : Part} {cs : List Char} (h : Spelled p cs) : Spelled p (guardClosers cs) := by
  induction h with
  | scalar h => exact .scalar (scalar_guarded h)
  | emptyArray hs =>
    rw [guardClosers_cons (by decide), guardClosers_spaces hs]
    exact .emptyArray hs
  | array ha _ hz ih =>
    rw [guardClosers_cons (by decide), guardClosers_spaces ha, guardClosers_append _ (head?_spaces hz (by decide) []),
      guardClosers_spaces hz]
    exact .array ha ih hz
  | emptyObject hs =>
    rw [guardClosers_cons (by decide), guardClosers_spaces hs]
    exact .emptyObject hs
  | object ha _ hz ih =>
    rw [guardClosers_cons (by decide), guardClosers_spaces ha, guardClosers_append _ (head?_spaces hz (by decide) []),
      guardClosers_spaces hz]
    exact .object ha ih hz
  | item _ ih => exact .item ih
  | moreItems _ ha hb _ ihv ih =>
    rw [guardClosers_append _ (head?_spaces ha (by decide) _), guardClosers_spaces ha, guardClosers_cons (by decide),
      guardClosers_spaces hb]
    exact .moreItems ihv ha hb ih
  | member hbody ha hb _ ih =>
    rw [guardClosers_cons (by decide), guardClosers_append _ (by simp), guardClosers_cons (by decide),
      guardClosers_spaces ha, guardClosers_cons (by decide), guardClosers_spaces hb]
    exact .member (quoted_guarded hbody) ha hb ih
  | oneMember _ ih => exact .oneMember ih
  | moreMembers _ ha hb _ ihm ih =>
    rw [guardClosers_append _ (head?_spaces ha (by decide) _), guardClosers_spaces ha, guardClosers_cons (by decide),
      guardClosers_spaces hb]
    exact .moreMembers ihm ha hb ih

/-! ## The options of the sorter -/

theorem isCounting_key (key : SortKey) : isCounting key.toJson = true := by
  have hcolumn : key.column.toNat < 18446744073709551616 := key.column.toNat_lt_size
  have hdirection : key.direction.code < 2 := by cases key.direction <;> decide
  simp [SortKey.toJson, Json.ofNat, isCounting, areCounting]
  omega

theorem areCounting_map {α : Type} {encode : α → Json} (h : ∀ a, isCounting (encode a) = true) (items : List α) :
    areCounting (items.map encode) = true := by
  induction items with
  | nil => rfl
  | cons a items ih => simp [areCounting, h, ih]

theorem isCounting_intent (intent : SortIntent) : isCounting intent.toJson = true := by
  simp [SortIntent.toJson, Json.ofStrings, isCounting, haveCounting, areCounting_map isCounting_key,
    areCounting_map (fun s => show isCounting (.string s) = true from rfl)]

theorem toList_embeddedOptions (intent : SortIntent) :
    (embeddedOptions intent).toList = guardClosers (compactChars intent.toJson) := by
  rw [embeddedOptions, SortIntent.optionsText, Json.compact, String.toList_ofList, String.toList_ofList]

theorem spelled_options (intent : SortIntent) :
    Spelled (.value (Tree.ofJson intent.toJson)) (embeddedOptions intent).toList := by
  rw [toList_embeddedOptions]
  exact spelled_guarded (spelled_compactChars intent.toJson (isCounting_intent intent))

theorem toJson_inj {a b : SortIntent} (h : a.toJson = b.toJson) : a = b := by
  obtain ⟨theme, keys, infoBlock, widgets⟩ := a
  obtain ⟨theme', keys', infoBlock', widgets'⟩ := b
  have hkey : Function.Injective SortKey.toJson := by
    rintro ⟨column, direction⟩ ⟨column', direction'⟩ h
    simp only [SortKey.toJson, Json.ofNat, Json.array.injEq, List.cons.injEq, Json.integer.injEq, Int.ofNat_inj,
      and_true] at h
    obtain ⟨hcolumn, hdirection⟩ := h
    rw [UInt64.toNat_inj.1 hcolumn]
    cases direction <;> cases direction' <;> first | rfl | cases hdirection
  have hstring : Function.Injective Json.string := fun _ _ h => Json.string.inj h
  simp only [SortIntent.toJson, Json.ofStrings, Json.object.injEq, List.cons.injEq, Prod.mk.injEq, Json.string.injEq,
    Json.array.injEq, true_and, and_true, List.map_inj_right hkey, List.map_inj_right hstring] at h
  obtain ⟨rfl, rfl, rfl, rfl⟩ := h
  rfl

/-- The options give back the sort. -/
theorem embeddedOptions_inj {a b : SortIntent} (h : embeddedOptions a = embeddedOptions b) : a = b := by
  have ha := spelled_options a
  rw [h] at ha
  exact toJson_inj (ofJson_inj (spelled_unique ha (spelled_options b)))

/-! ## Reading the options -/

theorem readDirection {o : Origin} (direction : SortDirection) :
    SortDirection.reader o (Tree.ofJson (.ofNat direction.code)) = .ok direction := by
  unfold SortDirection.reader
  rw [readNat_ofNat (by cases direction <;> decide)]
  cases direction <;> rfl

theorem readsBack_key : ReadsBack SortKey.reader SortKey.toJson 1 := by
  intro o key ho
  obtain ⟨o', ho', -⟩ := ho.enter
  have hcolumn := readNat_ofNat (o := o') key.column.toNat_lt_size "usize"
  have hcomplete : SortKey.shape.complete ⟨some key.column.toNat, some key.direction⟩ = .ok key := by
    show Except.ok (SortKey.mk (.ofNat key.column.toNat) key.direction) = _
    rw [UInt64.ofNat_toNat]
  simp only [SortKey.reader, SortKey.toJson, Tree.ofJson, Tree.ofItems, Shape.read, ho', bind, Except.bind]
  unfold SortKey.shape
  rw [Shape.readFields_cons (Field.read_of hcolumn "0" _ _),
    Shape.readFields_cons (Field.read_of (readDirection _) "1" _ _)]
  exact hcomplete

theorem readsBack_intent : ReadsBack SortIntent.reader SortIntent.toJson 3 := by
  intro o intent ho
  obtain ⟨o', ho', hallow⟩ := ho.enter
  have htheme := readsBack_string intent.theme (hallow.mono (Nat.zero_le 2))
  have hkeys := readsBack_list readsBack_key intent.keys hallow
  have hinfo := readsBack_string intent.infoBlock (hallow.mono (Nat.zero_le 2))
  have hwidgets := readsBack_list readsBack_string intent.widgets (hallow.mono (Nat.le_succ 1))
  have hmembers : SortIntent.shape.readMembers o'
      (List.map asMember
        [("theme", Tree.ofJson (.string intent.theme)),
          ("sortList", Tree.ofJson (.array (intent.keys.map SortKey.toJson))),
          ("cssInfoBlock", Tree.ofJson (.string intent.infoBlock)),
          ("widgets", Tree.ofJson (.array (intent.widgets.map .string)))])
      [] SortIntent.shape.empty =
        .ok ⟨some intent.theme, some intent.keys, some intent.infoBlock, some intent.widgets⟩ := by
    refine (Shape.readMembers_cons rfl List.not_mem_nil (Field.read_of htheme "theme" _ _) _).trans ?_
    refine (Shape.readMembers_cons rfl (by decide) (Field.read_of hkeys "sortList" _ _) _).trans ?_
    refine (Shape.readMembers_cons rfl (by decide) (Field.read_of hinfo "cssInfoBlock" _ _) _).trans ?_
    exact (Shape.readMembers_cons rfl (by decide) (Field.read_of hwidgets "widgets" _ _) _).trans rfl
  rw [SortIntent.reader]
  exact Shape.read_object rfl ho' hmembers

theorem spelledText_options (intent : SortIntent) :
    SpelledText (Tree.ofJson intent.toJson) (embeddedOptions intent).toList :=
  ⟨[], _, [], spaces_nil, spelled_options intent, spaces_nil, by simp⟩

theorem no_closer_options (intent : SortIntent) : ¬ ['<', '/'] <:+: (embeddedOptions intent).toList := by
  rw [toList_embeddedOptions]
  exact no_closer_guarded _

/-- The options open no end tag, and they are still a JSON text of the sort, which every sort is read back from. -/
theorem embedded_options_read_back (intent : SortIntent) :
    ¬ ['<', '/'] <:+: (embeddedOptions intent).toList ∧
      SpelledText (Tree.ofJson intent.toJson) (embeddedOptions intent).toList ∧
      readText SortIntent.reader (embeddedOptions intent) = .ok intent :=
  ⟨no_closer_options intent, spelledText_options intent,
    readText_spelled readsBack_intent (by decide) (spelledText_options intent)⟩

/-! ## The script -/

/-- The script that sorts the table of an index page. -/
def sortScriptOf (intent : SortIntent) : String :=
  (HtmlPage.mk .index [] [] (some (Target.indexTable, intent))).sortScript

theorem sortScript_eq {page : HtmlPage} {intent : SortIntent} (h : page.sort = some (Target.indexTable, intent)) :
    page.sortScript = sortScriptOf intent := by
  unfold sortScriptOf HtmlPage.sortScript
  rw [h]

/-- The script up to the options. -/
def sortStart : String :=
  String.join (sortScripts.map fun src => "\n    <script type=\"text/javascript\" src=\"" ++ src ++ "\"></script>") ++
    "\n    <script type=\"text/javascript\">\n    $(function() \x7b $(\"#" ++ Markup.escape Target.indexTable ++
    "\").tablesorter("

/-- The script after the options. -/
def sortEnd : String := "); \x7d);\n    </script>"

theorem toList_sortScriptOf (intent : SortIntent) :
    (sortScriptOf intent).toList = sortStart.toList ++ ((embeddedOptions intent).toList ++ sortEnd.toList) := by
  unfold sortScriptOf HtmlPage.sortScript sortStart sortEnd
  simp only [String.toList_append, List.append_assoc]

theorem sortScriptOf_inj {a b : SortIntent} (h : (sortScriptOf a).toList = (sortScriptOf b).toList) : a = b := by
  rw [toList_sortScriptOf, toList_sortScriptOf, List.append_cancel_left_eq, List.append_cancel_right_eq] at h
  exact embeddedOptions_inj (String.toList_inj.1 h)

end CoveragePages
