/-
The two encodings of page data agree: a script and a JSON document that supply the same items, in any
orders, are read as the same page data or are both refused, and each is told from the other by how it
starts.
-/
import CoveragePages.Page
import CoveragePages.Proofs.Json.Shape
import CoveragePages.Proofs.Script.Written

namespace CoveragePages

open Json (Origin Tree Reader ReadsAlike Spaces Spelled SpelledText asMember)
open Script (Gaps Statement)

/-! ## Headers and records -/

theorem Header.shape_alike : Header.shape.Alike := by
  intro f hf
  simp only [Header.shape, List.mem_cons, List.not_mem_nil, or_false] at hf
  rcases hf with rfl | rfl | rfl | rfl
  · exact Json.Field.alike_of Json.readsAlike_string _ _
  · exact Json.Field.alike_of Json.readsAlike_string _ _
  · exact Json.Field.alike_of (Json.readsAlike_nat _ _) _ _
  · exact Json.Field.alike_of (Json.readsAlike_nat _ _) _ _

theorem Header.shape_loose : Header.shape.Loose where
  lax := rfl
  apart := by
    intro f hf g hg hne
    simp only [Header.shape, List.mem_cons, List.not_mem_nil, or_false] at hf hg
    rcases hf with rfl | rfl | rfl | rfl <;> rcases hg with rfl | rfl | rfl | rfl <;>
      first
      | exact absurd rfl hne
      | exact Json.Field.apart_of (fun _ _ _ => rfl) _ _

theorem Record.readsAlike : ReadsAlike Record.reader := by
  intro o t v ho hv
  simp only [Record.reader, Json.toOption_bind, Json.readsAlike_object ho hv]

namespace PageData

theorem readsAlike_records : ReadsAlike readRecords := Json.readsAlike_list Record.readsAlike

/-! ## The fields of a document -/

theorem readOption_toOption {α : Type} (read : Reader α) (o : Origin) {t : Tree} (ht : t ≠ .null) :
    (Json.readOption read o t).toOption = (read o t).toOption.map some := by
  have hbind : Json.readOption read o t = (read o t >>= fun a => .ok (some a)) := by
    cases t with
    | null => exact absurd rfl ht
    | bool | number | string | array | object | broken => rfl
  rw [hbind]
  cases read o t <;> rfl

theorem shape_loose : shape.Loose where
  lax := rfl
  apart := by
    intro f hf g hg hne
    simp only [shape, List.mem_cons, List.not_mem_nil, or_false] at hf hg
    rcases hf with rfl | rfl | rfl | rfl | rfl <;> rcases hg with rfl | rfl | rfl | rfl | rfl <;>
      first
      | exact absurd rfl hne
      | exact Json.Field.apart_of (fun _ _ _ => rfl) _ _

/-! ## Entries -/

/-- An item that is supplied, with the JSON text it is supplied as and the value of the text. -/
structure Entry where
  item : Item
  text : String
  value : Json
  parse_text : Json.parse text = .ok value
  not_null : value ≠ .null
  /-- A document nests its items one level deeper than they are. -/
  shallow : (Json.outline text.toList).root.levels ≤ 126
  /-- A header has each of its keys once; the values of its keys may be anything. -/
  header_keys : item = .header → (Json.outline text.toList).root.keys.Nodup

namespace Entry

/-- The outline of the text. -/
def tree (e : Entry) : Tree := (Json.outline e.text.toList).root

/-- What a script assigns. -/
def assignment (e : Entry) : Script.Assignment := (e.item.name, e.value)

/-- The member that a document has. -/
def member (e : Entry) : String × Tree := (e.item.name, e.tree)

/-- The statement `var NAME = TEXT;`. -/
def statementText (e : Entry) : List Char :=
  "var ".toList ++ (e.item.name.toList ++ (" = ".toList ++ (e.text.toList ++ [';'])))

/-- The member `"NAME": TEXT`. -/
def memberText (e : Entry) : List Char := '"' :: (e.item.name.toList ++ ("\": ".toList ++ e.text.toList))

theorem spelled_reads (e : Entry) : SpelledText e.tree e.text.toList ∧ Json.readAny .value e.tree = .ok e.value := by
  obtain ⟨t, ht, hv⟩ := Json.parse_eq_ok_iff.1 e.parse_text
  have htree : e.tree = t := by rw [tree, Json.outline_of_spelled ht]
  have hdepth : (Origin.text Json.maxDepth).Allows t.levels := by
    rw [← htree]
    exact Nat.le_succ_of_le e.shallow
  rw [htree]
  exact ⟨ht, (Json.readAny_origin hdepth (show Origin.value.Allows t.levels from trivial)).symm.trans hv⟩

end Entry

/-! ## Scripts -/

/-- The text of a script that supplies some entries, one statement each, with white space and comments
around them. -/
inductive ScriptOf : List Entry → List Char → Prop
  | done {gaps : List Char} : Gaps gaps → ScriptOf [] gaps
  | statement {gaps cs : List Char} {e : Entry} {rest : List Entry} : Gaps gaps → ScriptOf rest cs →
      ScriptOf (e :: rest) (gaps ++ (e.statementText ++ cs))

theorem name_item (item : Item) : Script.Name item.name.toList := by
  cases item with
  | header => exact ⟨'h', "eader".toList, rfl, rfl, Json.forall_of_all rfl⟩
  | data => exact ⟨'d', "ata".toList, rfl, rfl, Json.forall_of_all rfl⟩
  | mergedData => exact ⟨'m', "erged_data".toList, rfl, rfl, Json.forall_of_all rfl⟩
  | percentLow => exact ⟨'p', "ercent_low".toList, rfl, rfl, Json.forall_of_all rfl⟩
  | percentHigh => exact ⟨'p', "ercent_high".toList, rfl, rfl, Json.forall_of_all rfl⟩

/-- The statement of an entry, in the form that producers write. -/
def Entry.statement (e : Entry) : Statement where
  keyword := "var"
  keyword_mem := by decide
  afterKeyword := [' ']
  afterKeyword_gaps := .cons (.space rfl) .nil
  afterKeyword_ne_nil := by decide
  name := e.item.name.toList
  isName := name_item e.item
  afterName := [' ']
  afterName_gaps := .cons (.space rfl) .nil
  beforeValue := [' ']
  beforeValue_spaces := by decide
  json := e.text
  value := e.value
  parse_json := e.parse_text
  written := e.text.toList
  isWritten := ⟨_, .refl _ _⟩
  afterValue := []
  afterValue_spaces := Json.spaces_nil

theorem Entry.statementText_eq (e : Entry) : e.statementText = e.statement.text ++ [';'] := by
  simp only [statementText, Statement.text, statement, List.append_assoc, List.cons_append, List.nil_append]
  rfl

theorem filler_of_gaps {gaps : List Char} (h : Gaps gaps) : Script.Filler gaps := by
  induction h with
  | nil => exact .nil
  | cons hgap _ ih => exact .gap hgap ih

theorem ScriptOf.scriptText {chosen : List Entry} {cs : List Char} (h : ScriptOf chosen cs) :
    Script.ScriptText (chosen.map Entry.statement) cs := by
  induction h with
  | done hgaps => exact .done (filler_of_gaps hgaps)
  | @statement gaps cs e rest hgaps _ ih =>
    rw [List.map_cons, e.statementText_eq, List.append_assoc, List.singleton_append]
    exact .statement (filler_of_gaps hgaps) ih

theorem ScriptOf.parse {chosen : List Entry} {script : String} (h : ScriptOf chosen script.toList) :
    Script.parse script = .ok (chosen.map Entry.assignment) := by
  rw [Script.parse_of_scriptText h.scriptText, List.map_map]
  refine congrArg Except.ok (List.map_congr_left fun e _ => ?_)
  show (String.ofList e.item.name.toList, e.value) = (e.item.name, e.value)
  rw [String.ofList_toList]

/-! ## Documents -/

/-- The text of the members of a document that supplies some entries. -/
inductive MembersOf : List Entry → List Char → Prop
  | last {e : Entry} : MembersOf [e] e.memberText
  | more {a b cs : List Char} {e : Entry} {rest : List Entry} : Spaces a → Spaces b → MembersOf rest cs →
      MembersOf (e :: rest) (e.memberText ++ (a ++ ',' :: (b ++ cs)))

/-- The text of a document that supplies some entries, one member each. -/
inductive DocumentOf : List Entry → List Char → Prop
  | empty {a s z : List Char} : Spaces a → Spaces s → Spaces z →
      DocumentOf [] (a ++ '\x7b' :: (s ++ '\x7d' :: z))
  | members {a b c z cs : List Char} {chosen : List Entry} : Spaces a → Spaces b → Spaces c → Spaces z →
      MembersOf chosen cs → DocumentOf chosen (a ++ '\x7b' :: (b ++ (cs ++ (c ++ '\x7d' :: z))))

theorem plain_item (item : Item) : ∀ c ∈ item.name.toList, Json.Plain c := by
  cases item <;> exact Json.forall_of_all rfl

/-- The space after an item's text belongs to what follows the member. -/
theorem Entry.memberText_spelled (e : Entry) : ∃ cs z, e.memberText = cs ++ z ∧ Spaces z ∧
    Spelled (.member (asMember e.member)) cs := by
  obtain ⟨⟨s, text, z, hs, htext, hz, heq⟩, -⟩ := e.spelled_reads
  have hspace : Spaces (' ' :: s) := List.forall_mem_cons.2 ⟨rfl, hs⟩
  have hmember := Spelled.member (Json.quoted_plain (plain_item e.item)) Json.spaces_nil hspace htext
  rw [Json.joinPieces_plain, Except.map, String.ofList_toList] at hmember
  refine ⟨_, z, ?_, hz, hmember⟩
  simp only [memberText, heq, List.cons_append, List.append_assoc, List.nil_append]
  rfl

theorem MembersOf.spelled {chosen : List Entry} {cs : List Char} (h : MembersOf chosen cs) :
    ∃ ms z, cs = ms ++ z ∧ Spaces z ∧ Spelled (.members ((chosen.map Entry.member).map asMember)) ms := by
  induction h with
  | @last e =>
    obtain ⟨cs, z, heq, hz, hcs⟩ := e.memberText_spelled
    exact ⟨cs, z, heq, hz, .oneMember hcs⟩
  | @more a b cs e rest ha hb _ ih =>
    obtain ⟨ms, z, rfl, hz, hms⟩ := ih
    -- the space at the end of the item's text goes before the comma
    obtain ⟨text, y, heq, hy, htext⟩ := e.memberText_spelled
    refine ⟨_, z, ?_, hz, .moreMembers htext (hy.append ha) hb hms⟩
    simp only [heq, List.append_assoc, List.cons_append]

theorem DocumentOf.spelled {chosen : List Entry} {cs : List Char} (h : DocumentOf chosen cs) :
    SpelledText (.object ((chosen.map Entry.member).map asMember) .closed) cs := by
  cases h with
  | @empty a s z ha hs hz =>
    refine ⟨a, _, z, ha, .emptyObject hs, hz, ?_⟩
    simp only [List.append_assoc, List.cons_append, List.nil_append]
  | @members a b c z cs _ ha hb hc hz hcs =>
    obtain ⟨ms, y, rfl, hy, hms⟩ := hcs.spelled
    refine ⟨a, _, z, ha, .object hb hms (hy.append hc), hz, ?_⟩
    simp only [List.append_assoc, List.cons_append, List.nil_append]

/-! ## One item -/

section

variable {α : Type} {read : Reader α} {page : PageData} {e : Entry}

theorem Entry.tree_ne_null (e : Entry) : e.tree ≠ .null := by
  intro h
  have hv := e.spelled_reads.2
  rw [h] at hv
  exact e.not_null (Except.ok.inj hv).symm

/-- What a field of a document takes from an entry. -/
theorem field_read (name : String) (store : PageData → Option α → PageData) (o : Origin) :
    ((Json.Field.of name (Json.readOption read) store).read o e.tree page).toOption =
      (read o e.tree).toOption.map fun a => store page (some a) := by
  have hread := readOption_toOption read o e.tree_ne_null
  simp only [Json.Field.of, Json.toOption_bind, hread, Option.bind_map]
  cases (read o e.tree).toOption <;> rfl

theorem readVariable_toOption (name : String) (value : Json) :
    (readVariable name read value).toOption = (read .value (Tree.ofJson value)).toOption := by
  unfold readVariable Json.readValue
  cases read .value (Tree.ofJson value) <;> rfl

theorem numberVariable_toOption (name : String) (value : Json) :
    (numberVariable name value).toOption = value.toNumber? := by
  unfold numberVariable
  cases value.toNumber? <;> rfl

/-- A field and an assignment that take alike from an entry do the same to the page data. -/
theorem Entry.step_of (e : Entry) (page : PageData) (name : String) (read : Reader α)
    (store : PageData → Option α → PageData) (taken : Except Refusal α)
    (hstep : shape.step (.text 126) (some page) e.member =
      ((Json.Field.of name (Json.readOption read) store).read (.text 126) e.tree page).toOption)
    (hassign : assign page e.assignment = (taken >>= fun a => .ok (store page (some a))))
    (htaken : (read (.text 126) e.tree).toOption = taken.toOption) :
    shape.step (.text 126) (some page) e.member = (assign page e.assignment).toOption := by
  rw [hstep, field_read, hassign, Json.toOption_bind, htaken]
  cases taken <;> rfl

end

/-- An entry does to the page data in a document what it does in a script. -/
theorem Entry.step_eq (e : Entry) (page : PageData) :
    shape.step (.text 126) (some page) e.member = (assign page e.assignment).toOption := by
  obtain ⟨-, hv⟩ := e.spelled_reads
  have hdepth : (Origin.text 126).Allows e.tree.levels := e.shallow
  have hrecords : (readRecords (.text 126) e.tree).toOption = (readRecords .value (Tree.ofJson e.value)).toOption :=
    readsAlike_records hdepth hv
  cases hitem : e.item with
  | header =>
    refine e.step_of page "header" Header.reader (fun p x => { p with header := x })
      (readVariable "header" Header.reader e.value) ?_ ?_ ?_
    · rw [Entry.member, hitem]; rfl
    · rw [Entry.assignment, hitem]; rfl
    · rw [readVariable_toOption]
      exact Header.shape_loose.read_alike Header.shape_alike hdepth hv (e.header_keys hitem)
  | data =>
    refine e.step_of page "data" readRecords (fun p x => { p with data := x })
      (readVariable "data" readRecords e.value) ?_ ?_ ?_
    · rw [Entry.member, hitem]; rfl
    · rw [Entry.assignment, hitem]; rfl
    · rw [readVariable_toOption, hrecords]
  | mergedData =>
    refine e.step_of page "merged_data" readRecords (fun p x => { p with mergedData := x })
      (readVariable "merged_data" readRecords e.value) ?_ ?_ ?_
    · rw [Entry.member, hitem]; rfl
    · rw [Entry.assignment, hitem]; rfl
    · rw [readVariable_toOption, hrecords]
  | percentLow =>
    refine e.step_of page "percent_low" Json.readFloat (fun p x => { p with percentLow := x })
      (numberVariable "percent_low" e.value) ?_ ?_ ?_
    · rw [Entry.member, hitem]; rfl
    · rw [Entry.assignment, hitem]; rfl
    · rw [numberVariable_toOption, Json.readFloat_toNumber? hv]
  | percentHigh =>
    refine e.step_of page "percent_high" Json.readFloat (fun p x => { p with percentHigh := x })
      (numberVariable "percent_high" e.value) ?_ ?_ ?_
    · rw [Entry.member, hitem]; rfl
    · rw [Entry.assignment, hitem]; rfl
    · rw [numberVariable_toOption, Json.readFloat_toNumber? hv]

/-! ## Whole texts -/

theorem ofScript_toOption {chosen : List Entry} {script : String} (h : ScriptOf chosen script.toList) :
    (ofScript script).toOption = (chosen.map Entry.member).foldl (shape.step (.text 126)) (some {}) := by
  have hassign := Json.toOption_foldlM assign (chosen.map Entry.assignment) (some ({} : PageData))
  rw [ofScript, h.parse]
  refine hassign.trans ?_
  rw [List.foldl_map, List.foldl_map]
  refine congrArg (fun f => chosen.foldl f (some ({} : PageData))) (funext fun page => funext fun e => ?_)
  cases page with
  | none => rfl
  | some page => exact (e.step_eq page).symm

theorem ofDocument_toOption {chosen : List Entry} {document : String} (h : DocumentOf chosen document.toList)
    (hitems : ((chosen.map Entry.member).map (·.1)).Nodup) :
    (ofDocument document).toOption = (chosen.map Entry.member).foldl (shape.step (.text 126)) (some {}) := by
  have hskip : ∀ m ∈ chosen.map Entry.member, m.2.skip = .ok () := by
    intro m hm
    obtain ⟨e, -, rfl⟩ := List.mem_map.1 hm
    exact Json.skip_of_readAny e.spelled_reads.2
  have henter : (Origin.text Json.maxDepth).enter = .ok (.text 126) := rfl
  have hread := Json.Shape.read_named shape_loose rfl henter hskip hitems
  have htext : (Json.readText reader document).toOption =
      (reader (.text Json.maxDepth) (.object ((chosen.map Entry.member).map asMember) .closed)).toOption := by
    simp only [Json.readText, Json.outline_of_spelled h.spelled, Json.toOption_bind]
    exact Option.bind_fun_some _
  have hdocument : (ofDocument document).toOption = (Json.readText reader document).toOption := by
    unfold ofDocument
    cases Json.readText reader document <;> rfl
  rw [hdocument, htext]
  exact hread.trans (Option.bind_fun_some _)

theorem item_name_inj {item item' : Item} (h : item.name = item'.name) : item = item' := by
  cases item <;> cases item' <;> first | rfl | exact absurd h (by decide)

/-! ## Agreement -/

theorem gaps_of_spaces {s : List Char} (hs : Spaces s) : Gaps s := by
  induction s with
  | nil => exact .nil
  | cons c s ih =>
    obtain ⟨hc, hs⟩ := List.forall_mem_cons.1 hs
    exact .cons (.space hc) (ih hs)

theorem ScriptOf.looksLikeScript {chosen : List Entry} {script : String} (h : ScriptOf chosen script.toList)
    (hne : chosen ≠ []) : Script.looksLikeScript script = true := by
  generalize hcs : script.toList = cs at h
  cases h with
  | done => exact absurd rfl hne
  | @statement gaps cs e rest hgaps _ =>
    have hpast : Script.pastTrivia script.toList = e.statementText ++ cs := by
      rw [hcs, hgaps.pastTrivia]
      exact Script.pastTrivia_stop rfl (by decide) _
    rw [Script.looksLikeScript, Script.afterTrivia?_eq, hpast]
    rfl

theorem DocumentOf.not_looksLikeScript {chosen : List Entry} {document : String}
    (h : DocumentOf chosen document.toList) : Script.looksLikeScript document = false := by
  obtain ⟨a, rest, ha, heq⟩ : ∃ a rest, Spaces a ∧ document.toList = a ++ '\x7b' :: rest := by
    generalize document.toList = cs at h
    cases h with
    | empty ha => exact ⟨_, _, ha, rfl⟩
    | members ha => exact ⟨_, _, ha, rfl⟩
  have hpast : Script.pastTrivia document.toList = '\x7b' :: rest := by
    rw [heq, (gaps_of_spaces ha).pastTrivia]
    exact Script.pastTrivia_stop rfl (by decide) _
  rw [Script.looksLikeScript, Script.afterTrivia?_eq, hpast]
  rfl

/-- A script and a document that supply the same items, in any orders, are read as the same page data or
are both refused, and each is read as what it is when its encoding is not given. -/
theorem encodings_agree {chosen chosen' : List Entry} {script document : String} (hperm : chosen.Perm chosen')
    (hitems : (chosen.map Entry.item).Nodup) (hscript : ScriptOf chosen script.toList)
    (hdocument : DocumentOf chosen' document.toList) :
    (ofScript script).toOption = (ofDocument document).toOption ∧
      (chosen ≠ [] → parse script = ofScript script ∧ parse document = ofDocument document) := by
  -- items of different names are different members
  have hkeys : ((chosen.map Entry.member).map (·.1)).Nodup := by
    have hnames : ((chosen.map Entry.item).map Item.name).Nodup := hitems.map fun _ _ h => item_name_inj h
    rw [List.map_map] at hnames ⊢
    exact hnames
  have hmembers : (chosen.map Entry.member).Perm (chosen'.map Entry.member) := hperm.map _
  constructor
  · rw [ofScript_toOption hscript, ofDocument_toOption hdocument ((hmembers.map _).nodup_iff.1 hkeys)]
    exact Json.Shape.foldl_step_perm shape_loose _ hmembers hkeys _
  · intro hne
    rw [parse, parse, hscript.looksLikeScript hne, hdocument.not_looksLikeScript]
    exact ⟨rfl, rfl⟩

/-- One record without fields as `data`. -/
def sampleData : Entry where
  item := .data
  text := "[\x7b\x7d]"
  value := .array [.object []]
  parse_text := rfl
  not_null := nofun
  shallow := by decide
  header_keys := nofun

/-- The number 75 as `percent_high`. -/
def samplePercent : Entry where
  item := .percentHigh
  text := "75"
  value := .integer 75
  parse_text := rfl
  not_null := nofun
  shallow := by decide
  header_keys := nofun

theorem encodings_agree_sample :
    ScriptOf [sampleData, samplePercent] "var data = [\x7b\x7d];\nvar percent_high = 75;".toList ∧
      DocumentOf [samplePercent, sampleData] "\x7b\"percent_high\": 75, \"data\": [\x7b\x7d]\x7d".toList ∧
      (ofScript "var data = [\x7b\x7d];\nvar percent_high = 75;").toOption =
        (ofDocument "\x7b\"percent_high\": 75, \"data\": [\x7b\x7d]\x7d").toOption ∧
      (ofScript "var data = [\x7b\x7d];\nvar percent_high = 75;").toOption =
        some { data := some [⟨[]⟩], percentHigh := some (Binary64.ofInt 75) } := by
  have hscript : ScriptOf [sampleData, samplePercent] "var data = [\x7b\x7d];\nvar percent_high = 75;".toList :=
    .statement .nil (.statement (.cons (.space (c := '\n') rfl) .nil) (.done .nil))
  have hdocument : DocumentOf [samplePercent, sampleData]
      "\x7b\"percent_high\": 75, \"data\": [\x7b\x7d]\x7d".toList :=
    .members (a := []) (b := []) (c := []) (z := []) Json.spaces_nil Json.spaces_nil Json.spaces_nil Json.spaces_nil
      (.more (a := []) (b := [' ']) Json.spaces_nil (by decide) .last)
  have hagree := encodings_agree (.swap _ _ _) (by decide) hscript hdocument
  exact ⟨hscript, hdocument, hagree.1, (ofScript_toOption hscript).trans rfl⟩

end PageData

end CoveragePages
