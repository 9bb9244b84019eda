/-
Where the script of a page ends. The script is escaped by the comments that the options of the sorter
open, and a script tag inside of such a comment nests another script. The script ends at its end tag
unless the options nest a script; then that tag ends the nested script only, and the element is not
ended in the document at all.
-/
import CoveragePages.Proofs.Markup.Document
import CoveragePages.Proofs.Markup.ScriptData

namespace CoveragePages

namespace ScriptData

/-! ## Comments and scripts in a text -/

/-- A text that closes no comment in which it stands. The dashes of `<!--` may be those of `-->`. -/
def StaysInside (cs : List Char) : Prop := ¬ ['-', '-', '>'] <:+: ['-', '-'] ++ cs

/-- The text ends inside a comment. -/
def OpensComment (cs : List Char) : Prop :=
  ∃ before inside, cs = before ++ (['<', '!', '-', '-'] ++ inside) ∧ StaysInside inside

/-- The text ends with the start of a script tag, up to the character that ends the name. -/
def EndsInScriptTag (cs : List Char) : Prop :=
  ∃ before name c, cs = before ++ ('<' :: name ++ [c]) ∧ name.map Char.toLower = scriptName ∧ endsName c = true

/-- The text ends inside a comment, in which a script tag stands. -/
def NestsScript (cs : List Char) : Prop :=
  ∃ before start rest, cs = before ++ (['<', '!', '-', '-'] ++ (start ++ rest)) ∧ EndsInScriptTag start ∧
    StaysInside (start ++ rest)

theorem NestsScript.opensComment {cs : List Char} (h : NestsScript cs) : OpensComment cs := by
  obtain ⟨before, start, rest, rfl, -, hinside⟩ := h
  exact ⟨before, start ++ rest, rfl, hinside⟩

section

variable {cs inside : List Char} {c : Char}

theorem staysInside_nil : StaysInside [] := by
  unfold StaysInside
  decide

theorem suffix_concat_concat {s t : List Char} {d : Char} : s ++ [c] <:+ t ++ [d] ↔ s <:+ t ∧ c = d := by
  rw [← List.reverse_prefix, ← List.reverse_prefix]
  simp [List.cons_prefix_cons, and_comm]

theorem staysInside_concat (before : List Char) : StaysInside (inside ++ [c]) ↔
    StaysInside inside ∧ ¬ ['-', '-', '>'] <:+ before ++ (['<', '!', '-', '-'] ++ inside) ++ [c] := by
  have hsuffix : ['-', '-', '>'] <:+ before ++ (['<', '!', '-', '-'] ++ inside) ++ [c] ↔
      ['-', '-', '>'] <:+ ['-', '-'] ++ inside ++ [c] := by
    have hend : ['-', '-'] ++ inside ++ [c] <:+ before ++ (['<', '!', '-', '-'] ++ inside) ++ [c] :=
      ⟨before ++ ['<', '!'], by simp⟩
    exact ⟨fun h => List.suffix_of_suffix_length_le h hend (by simp), fun h => h.trans hend⟩
  rw [StaysInside, StaysInside, ← List.append_assoc, List.infix_concat_iff, hsuffix, not_or, and_comm]

theorem opensComment_concat : OpensComment (cs ++ [c]) ↔
    (OpensComment cs ∧ ¬ ['-', '-', '>'] <:+ cs ++ [c]) ∨ ['<', '!', '-', '-'] <:+ cs ++ [c] := by
  constructor
  · rintro ⟨before, inside, heq, hinside⟩
    rcases List.eq_nil_or_concat' inside with rfl | ⟨inside, d, rfl⟩
    · exact .inr ⟨before, by simpa using heq.symm⟩
    · rw [← List.append_assoc, ← List.append_assoc] at heq
      obtain ⟨rfl, hlast⟩ := List.append_inj' heq rfl
      cases hlast
      rw [List.append_assoc before]
      obtain ⟨hinside, hclose⟩ := (staysInside_concat before).1 hinside
      exact .inl ⟨⟨before, inside, rfl, hinside⟩, hclose⟩
  · rintro (⟨⟨before, inside, rfl, hinside⟩, hclose⟩ | ⟨before, heq⟩)
    · exact ⟨before, inside ++ [c], by simp, (staysInside_concat before).2 ⟨hinside, hclose⟩⟩
    · exact ⟨before, [], by simpa using heq.symm, staysInside_nil⟩

/-- What ends a text and does not have a character ends what is after that character. -/
theorem suffix_of_not_mem {t before after : List Char} (h : t <:+ before ++ c :: after) (hc : c ∉ t) : t <:+ after := by
  rcases List.suffix_or_suffix_of_suffix h (List.suffix_append before (c :: after)) with h | h
  · rcases List.suffix_cons_iff.1 h with rfl | h
    · exact absurd List.mem_cons_self hc
    · exact h
  · exact absurd (h.subset List.mem_cons_self) hc

theorem isAlpha_of_toLower (h : c.toLower ∈ scriptName) : c.isAlpha = true := by
  have hscript : ∀ d ∈ scriptName, d.isAlpha = true := by simp [scriptName]
  unfold Char.toLower at h
  split at h
  · rename_i hupper
    have hisUpper : c.isUpper = true := decide_eq_true hupper
    exact (Bool.or_eq_true c.isUpper c.isLower).mpr (.inl hisUpper)
  · exact hscript c h

theorem isAlpha_of_mem {name : List Char} (h : name.map Char.toLower = scriptName) (hc : c ∈ name) : c.isAlpha = true :=
  isAlpha_of_toLower (h ▸ List.mem_map_of_mem hc)

theorem dash_not_mem {name : List Char} (h : name.map Char.toLower = scriptName) : '-' ∉ '<' :: name := by
  intro hdash
  rcases List.mem_cons.1 hdash with hdash | hdash
  · cases hdash
  · cases isAlpha_of_mem h hdash

/-- The end of a script tag closes no comment, as there is no dash before it. -/
theorem EndsInScriptTag.not_closes (h : EndsInScriptTag cs) : ¬ ['-', '-', '>'] <:+ cs := by
  obtain ⟨before, name, c, rfl, hname, -⟩ := h
  intro hclose
  rw [← List.append_assoc] at hclose
  have hdashes : ['-', '-'] <:+ before ++ '<' :: name := (suffix_concat_concat.1 hclose).1
  rcases List.suffix_or_suffix_of_suffix hdashes (List.suffix_append before ('<' :: name)) with h | h
  · exact dash_not_mem hname (h.subset List.mem_cons_self)
  · exact absurd (h.subset List.mem_cons_self) (by decide)

theorem nestsScript_concat : NestsScript (cs ++ [c]) ↔
    (NestsScript cs ∧ ¬ ['-', '-', '>'] <:+ cs ++ [c]) ∨ (OpensComment cs ∧ EndsInScriptTag (cs ++ [c])) := by
  constructor
  · rintro ⟨before, start, rest, heq, hstart, hinside⟩
    rcases List.eq_nil_or_concat' rest with rfl | ⟨rest, d, rfl⟩
    · obtain ⟨start, name, d, rfl, hname, hd⟩ := hstart
      rw [List.append_nil] at hinside heq
      simp only [← List.append_assoc] at heq hinside
      obtain ⟨rfl, hlast⟩ := List.append_inj' heq rfl
      cases hlast
      obtain ⟨hinside, hclose⟩ := (staysInside_concat before).1 hinside
      refine .inr ⟨⟨before, start ++ '<' :: name, by simp, hinside⟩, ?_⟩
      exact ⟨before ++ (['<', '!', '-', '-'] ++ start), name, c, by simp, hname, hd⟩
    · simp only [← List.append_assoc] at heq hinside
      obtain ⟨rfl, hlast⟩ := List.append_inj' heq rfl
      cases hlast
      obtain ⟨hinside, hclose⟩ := (staysInside_concat before).1 hinside
      exact .inl ⟨⟨before, start, rest, by simp, hstart, hinside⟩, by simpa using hclose⟩
  · rintro (⟨⟨before, start, rest, rfl, hstart, hinside⟩, hclose⟩ | ⟨⟨before, inside, rfl, hinside⟩, htag⟩)
    · refine ⟨before, start, rest ++ [c], by simp, hstart, ?_⟩
      rw [← List.append_assoc]
      exact (staysInside_concat before).2 ⟨hinside, hclose⟩
    · have hclose := htag.not_closes
      obtain ⟨front, name, d, heq, hname, hd⟩ := htag
      -- the tag cannot start before the end of `<!--`, which has a dash
      rw [← List.append_assoc front] at heq
      obtain ⟨hcs, hlast⟩ := List.append_inj' heq rfl
      cases hlast
      have hsuffix : '<' :: name <:+ before ++ ['<', '!', '-'] ++ '-' :: inside := ⟨front, by simpa using hcs.symm⟩
      obtain ⟨start, rfl⟩ := suffix_of_not_mem hsuffix (dash_not_mem hname)
      refine ⟨before, start ++ '<' :: name ++ [c], [], by simp, ⟨start, name, c, by simp, hname, hd⟩, ?_⟩
      rw [List.append_nil]
      exact (staysInside_concat before).2 ⟨hinside, hclose⟩

end

/-! ## The level of a text -/

namespace Level

/-- The name that is open at the end of a text. -/
theorem tagName?_reverse_iff {cs name : List Char} : tagName? cs.reverse = some name ↔
    ∃ before tag, cs = before ++ '<' :: tag ∧ (∀ c ∈ tag, c.isAlpha = true) ∧ name = tag.map Char.toLower := by
  induction cs using List.reverseRecOn generalizing name with
  | nil => simp [tagName?]
  | append_singleton cs c ih =>
    rw [List.reverse_append, List.reverse_singleton, List.singleton_append, tagName?]
    constructor
    · intro h
      split at h
      · rename_i hc
        cases h
        exact ⟨cs, [], by rw [hc], List.forall_mem_nil _, rfl⟩
      · split at h
        · rename_i hc
          obtain ⟨start, hstart, rfl⟩ := Option.map_eq_some_iff.1 h
          obtain ⟨before, tag, rfl, htag, rfl⟩ := ih.1 hstart
          exact ⟨before, tag ++ [c], by simp, by simpa [or_imp, forall_and] using ⟨htag, hc⟩, by simp⟩
        · cases h
    · rintro ⟨before, tag, heq, htag, rfl⟩
      rcases List.eq_nil_or_concat' tag with rfl | ⟨tag, d, rfl⟩
      · obtain ⟨rfl, hlast⟩ := List.append_inj' heq rfl
        cases hlast
        rfl
      · rw [← List.cons_append, ← List.append_assoc] at heq
        obtain ⟨rfl, hlast⟩ := List.append_inj' heq rfl
        cases hlast
        have hc : c.isAlpha = true := htag c (by simp)
        have hless : c ≠ '<' := by rintro rfl; cases hc
        have hstart := ih.2 ⟨before, tag, rfl, fun d hd => htag d (List.mem_append_left [c] hd), rfl⟩
        rw [if_neg hless, if_pos hc, hstart]
        simp

theorem opensScript_reverse_iff {cs : List Char} : opensScript cs.reverse = true ↔ EndsInScriptTag cs := by
  rcases List.eq_nil_or_concat' cs with rfl | ⟨cs, c, rfl⟩
  · simp [opensScript, EndsInScriptTag]
  · rw [List.reverse_append, List.reverse_singleton, List.singleton_append, opensScript, decide_eq_true_eq,
      tagName?_reverse_iff]
    constructor
    · rintro ⟨hc, before, tag, rfl, htag, hname⟩
      exact ⟨before, tag, c, by simp, hname.symm, hc⟩
    · rintro ⟨before, tag, d, heq, hname, hd⟩
      rw [← List.append_assoc] at heq
      obtain ⟨rfl, hlast⟩ := List.append_inj' heq rfl
      cases hlast
      exact ⟨hd, before, tag, rfl, fun c hc => isAlpha_of_mem hname hc, hname.symm⟩

/-- The level of a text is that of the comment and the script which it opens. -/
theorem after_iff (cs : List Char) :
    (after cs.reverse = plain ↔ ¬ OpensComment cs) ∧ (after cs.reverse = nested ↔ NestsScript cs) := by
  induction cs using List.reverseRecOn with
  | nil =>
    have hopens : ¬ OpensComment [] := by
      rintro ⟨before, inside, heq, -⟩
      simp at heq
    have hnests : ¬ NestsScript [] := mt NestsScript.opensComment hopens
    simp [after, hopens, hnests]
  | append_singleton cs c ih =>
    have hclose : ['>', '-', '-'] <+: c :: cs.reverse ↔ ['-', '-', '>'] <:+ cs ++ [c] := by
      rw [← List.reverse_prefix]; simp
    have hopen : ['-', '-', '!', '<'] <+: c :: cs.reverse ↔ ['<', '!', '-', '-'] <:+ cs ++ [c] := by
      rw [← List.reverse_prefix]; simp
    have hscript : opensScript (c :: cs.reverse) = true ↔ EndsInScriptTag (cs ++ [c]) := by
      rw [← opensScript_reverse_iff]; simp
    have htag : EndsInScriptTag (cs ++ [c]) → ¬ ['-', '-', '>'] <:+ cs ++ [c] := EndsInScriptTag.not_closes
    have hapart : ['-', '-', '>'] <:+ cs ++ [c] → ¬ ['<', '!', '-', '-'] <:+ cs ++ [c] := by
      rw [← hclose, ← hopen, List.cons_prefix_cons, List.cons_prefix_cons]
      rintro ⟨rfl, -⟩ ⟨h, -⟩
      cases h
    have hnests : NestsScript cs → OpensComment cs := NestsScript.opensComment
    obtain ⟨hplain, hnested⟩ := ih
    rw [List.reverse_append, List.reverse_singleton, List.singleton_append, after, opensComment_concat,
      nestsScript_concat]
    cases hlevel : after cs.reverse with
    | plain =>
      have hcs : ¬ OpensComment cs := hplain.1 hlevel
      have hno : ¬ NestsScript cs := mt hnests hcs
      simp only [next, hopen]
      split_ifs with h <;> simp [hcs, hno, h]
    | commented =>
      have hcs : OpensComment cs := by simpa [hlevel] using hplain
      have hno : ¬ NestsScript cs := by simpa [hlevel] using hnested
      simp only [next, hclose]
      split_ifs with h h'
      · simp [hcs, hno, h, hapart h, mt htag (not_not.2 h)]
      · simp [hcs, h, hscript.1 h']
      · simp [hcs, hno, h, mt hscript.2 h']
    | nested =>
      have hcs : NestsScript cs := hnested.1 hlevel
      simp only [next, hclose]
      split_ifs with h
      · simp [hcs, hnests hcs, h, hapart h, mt htag (not_not.2 h)]
      · simp [hcs, hnests hcs, h]

end Level

end ScriptData

open HtmlPage ScriptData

/-! ## The script of a page -/

/-- The start tag of the script in a page. -/
def scriptTag : String := "<script type=\"text/javascript\">"

/-- The script up to the options of the sorter. -/
def scriptStart (table : String) : String :=
  "\n    $(function() \x7b $(\"#" ++ Markup.escape table ++ "\").tablesorter("

/-- The script after the options of the sorter. -/
def scriptRest : String := "); \x7d);\n    "

/-- The script in a page, which sorts a table. -/
def inlineScript (table : String) (intent : SortIntent) : String :=
  scriptStart table ++ embeddedOptions intent ++ scriptRest

/-- The end tag of the script. -/
def scriptEndTag : String := "</script>"

/-- The document after the script. -/
def documentEnd : String := "\n</body>\n</html>"

theorem exists_join (separator : String) (texts : List String) {last : List String} (h : last ≠ []) :
    ∃ front, Text.join separator (texts ++ last) = front ++ Text.join separator last := by
  induction texts with
  | nil => exact ⟨"", by simp⟩
  | cons s texts ih =>
    obtain ⟨front, hfront⟩ := ih
    obtain ⟨t, rest, hrest⟩ := List.exists_cons_of_ne_nil (show texts ++ last ≠ [] by simp [h])
    refine ⟨s ++ separator ++ front, ?_⟩
    rw [List.cons_append, hrest, Text.join, ← hrest, hfront, ← String.append_assoc]
    exact List.cons_ne_nil t rest

/-- The document of a page that sorts its table. -/
theorem document_of_sort {page : HtmlPage} {table : String} {intent : SortIntent}
    (h : page.sort = some (table, intent)) :
    ∃ front, page.document = front ++ scriptTag ++ (inlineScript table intent ++ scriptEndTag ++ documentEnd) := by
  have hlines : ∃ texts, page.document =
      Text.join "\n" (texts ++ ["    </div>" ++ page.sortScript, "</body>", "</html>"]) :=
    ⟨[_, _, _, _, _, _, _, _, _, _, _, _, _], rfl⟩
  obtain ⟨texts, htexts⟩ := hlines
  obtain ⟨front, hfront⟩ := exists_join "\n" texts
    (List.cons_ne_nil ("    </div>" ++ page.sortScript) ["</body>", "</html>"])
  obtain ⟨scripts, hscripts⟩ : ∃ scripts,
      page.sortScript = scripts ++ scriptTag ++ (inlineScript table intent ++ scriptEndTag) := by
    have hstart : "\n    <script type=\"text/javascript\">\n    $(function() \x7b $(\"#" =
        "\n    " ++ scriptTag ++ "\n    $(function() \x7b $(\"#" := rfl
    have hend : "); \x7d);\n    </script>" = scriptRest ++ scriptEndTag := rfl
    refine ⟨String.join (sortScripts.map fun src =>
      "\n    <script type=\"text/javascript\" src=\"" ++ src ++ "\"></script>") ++ "\n    ", ?_⟩
    unfold HtmlPage.sortScript inlineScript scriptStart
    rw [h]
    dsimp only
    rw [hstart, hend]
    simp only [String.append_assoc]
  have hlast : "\n" ++ ("</body>" ++ ("\n" ++ "</html>")) = documentEnd := rfl
  refine ⟨front ++ "    </div>" ++ scripts, ?_⟩
  rw [htexts, hfront, hscripts]
  simp only [Text.join, String.append_assoc, hlast]

/-! ## The end of the script -/

theorem spelled_object_end {members : List (Json.Tree × Json.Tree)} {ending : Json.Ending} {cs : List Char}
    (h : Json.Spelled (.value (.object members ending)) cs) : ∃ body, cs = body ++ ['\x7d'] := by
  cases h with
  | scalar h => cases h
  | @emptyObject s _ => exact ⟨'\x7b' :: s, rfl⟩
  | @object _ a cs z => exact ⟨'\x7b' :: (a ++ (cs ++ z)), by simp⟩

/-- The options leave the tokenizer in the text of their level. -/
theorem run_options (intent : SortIntent) :
    run .data (embeddedOptions intent).toList = (Level.after (embeddedOptions intent).toList.reverse).text := by
  rw [run_state (no_closer_options intent)]
  obtain ⟨cs, hcs⟩ := spelled_object_end (spelled_options intent)
  rw [hcs, List.reverse_append, List.reverse_singleton, List.singleton_append]
  exact Level.state_eq_text _ (by decide) rfl

theorem not_mem_escape (s : String) : '<' ∉ (Markup.escape s).toList := by
  rw [toList_escape]
  intro h
  have hdelimiter := Markup.not_isDelimiter_of_mem h
  cases hdelimiter

theorem not_mem_scriptStart (table : String) : '<' ∉ (scriptStart table).toList := by
  have hopening : '<' ∉ "\n    $(function() \x7b $(\"#".toList := by decide
  have hcall : '<' ∉ "\").tablesorter(".toList := by decide
  unfold scriptStart
  simp only [String.toList_append, List.mem_append, not_or]
  exact ⟨⟨hopening, not_mem_escape table⟩, hcall⟩

/-- The rest of the document, from the text of each level. -/
theorem closing?_text (level : Level) :
    closing? level.text (scriptRest.toList ++ scriptEndTag.toList ++ documentEnd.toList) =
    if level = .nested then none else some (scriptRest.toList ++ scriptEndTag.toList, documentEnd.toList) := by
  cases level <;> rfl

/-- The script ends at its end tag if the options do not nest a script, and else not at all. -/
theorem closing?_inlineScript (table : String) (intent : SortIntent) :
    closing? .data (inlineScript table intent ++ scriptEndTag ++ documentEnd).toList =
      if Level.after (embeddedOptions intent).toList.reverse = .nested then none
      else some ((inlineScript table intent ++ scriptEndTag).toList, documentEnd.toList) := by
  have hrun := run_options intent
  rw [← run_data (not_mem_scriptStart table), ← run_append] at hrun
  have hne : ∀ level : Level, level.text ≠ .ended := fun level => by cases level <;> nofun
  have hclosing := closing?_append (hrun.trans_ne (hne _))
    (scriptRest.toList ++ scriptEndTag.toList ++ documentEnd.toList)
  rw [hrun, closing?_text] at hclosing
  unfold inlineScript
  simp only [String.toList_append, List.append_assoc] at hclosing ⊢
  rw [hclosing]
  split
  · rfl
  · simp only [Option.map_some]

/-- Every sort can be activated on an untouched index page. -/
theorem exists_sorted (intent : SortIntent) : ∃ page page' : HtmlPage, HtmlPage.ofKind .index = .ok page ∧
    DisplaySurface.activateSort Target.indexTable intent page = (page', .ok ()) ∧
      page'.sort = some (Target.indexTable, intent) := by
  obtain ⟨page, hpage, -, helements, -, -⟩ := exists_ofKind .index
  have helement : page.elements.get? Target.indexTable = some {} := by
    rw [helements, if_pos (by decide)]
  refine ⟨page, { page with sort := some (Target.indexTable, intent) }, hpage, ?_, rfl⟩
  simp only [DisplaySurface.activateSort, helement]

theorem ScriptData.NestsScript.mem {cs : List Char} (h : NestsScript cs) : '<' ∈ cs := by
  obtain ⟨before, start, rest, rfl, -, -⟩ := h
  simp

/-- The script of a page ends at its end tag and not before, unless the options of the sorter nest a script in it:
then nothing in the document ends it. -/
theorem script_ends_unless_nested {page : HtmlPage} {table : String} {intent : SortIntent}
    (h : page.sort = some (table, intent)) :
    ∃ front, page.document = front ++ scriptTag ++ (inlineScript table intent ++ scriptEndTag ++ documentEnd) ∧
      (¬ NestsScript (embeddedOptions intent).toList →
        closing? .data (inlineScript table intent ++ scriptEndTag ++ documentEnd).toList =
          some ((inlineScript table intent ++ scriptEndTag).toList, documentEnd.toList)) ∧
      (NestsScript (embeddedOptions intent).toList →
        closing? .data (inlineScript table intent ++ scriptEndTag ++ documentEnd).toList = none) := by
  obtain ⟨front, hfront⟩ := document_of_sort h
  have hlevel := (Level.after_iff (embeddedOptions intent).toList).2
  rw [← hlevel]
  refine ⟨front, hfront, fun hnested => ?_, fun hnested => ?_⟩
  · rw [closing?_inlineScript, if_neg hnested]
  · rw [closing?_inlineScript, if_pos hnested]

theorem script_ends_unless_nested_standard : ∃ page page' : HtmlPage, HtmlPage.ofKind .index = .ok page ∧
    DisplaySurface.activateSort Target.indexTable SortIntent.standard page = (page', .ok ()) ∧
    ∃ front, page'.document =
        front ++ scriptTag ++ (inlineScript Target.indexTable SortIntent.standard ++ scriptEndTag ++ documentEnd) ∧
      closing? .data (inlineScript Target.indexTable SortIntent.standard ++ scriptEndTag ++ documentEnd).toList =
        some ((inlineScript Target.indexTable SortIntent.standard ++ scriptEndTag).toList, documentEnd.toList) := by
  obtain ⟨page, page', hpage, hactivate, hsort⟩ := exists_sorted SortIntent.standard
  obtain ⟨front, hfront, hends, -⟩ := script_ends_unless_nested hsort
  have hplain : '<' ∉ (embeddedOptions SortIntent.standard).toList := by
    rw [toList_embeddedOptions]
    decide
  exact ⟨page, page', hpage, hactivate, front, hfront, hends (mt NestsScript.mem hplain)⟩

/-- A theme that opens a comment and a script in it leaves the script of the page without an end. -/
theorem nested_script_has_no_end : ∃ page page' : HtmlPage, HtmlPage.ofKind .index = .ok page ∧
    DisplaySurface.activateSort Target.indexTable (SortIntent.standard.withTheme "<!--<script>") page =
      (page', .ok ()) ∧
    ∃ front, page'.document = front ++ scriptTag ++
        (inlineScript Target.indexTable (SortIntent.standard.withTheme "<!--<script>") ++ scriptEndTag ++ documentEnd) ∧
      closing? .data (inlineScript Target.indexTable (SortIntent.standard.withTheme "<!--<script>") ++ scriptEndTag ++
        documentEnd).toList = none := by
  obtain ⟨page, page', hpage, hactivate, hsort⟩ := exists_sorted (SortIntent.standard.withTheme "<!--<script>")
  obtain ⟨front, hfront⟩ := document_of_sort hsort
  have htext : (embeddedOptions (SortIntent.standard.withTheme "<!--<script>")).toList =
      "\x7b\"theme\":\"".toList ++ (['<', '!', '-', '-'] ++ ("<script>".toList ++
        "\",\"sortList\":[[1,0]],\"cssInfoBlock\":\"tablesorter-no-sort\",\"widgets\":[\"saveSort\"]\x7d".toList)) := by
    rw [toList_embeddedOptions]
    rfl
  have hnested : NestsScript (embeddedOptions (SortIntent.standard.withTheme "<!--<script>")).toList := by
    refine ⟨_, _, _, htext, ⟨[], scriptName, '>', rfl, by decide, by decide⟩, ?_⟩
    unfold StaysInside
    set_option maxRecDepth 2000 in decide
  refine ⟨page, page', hpage, hactivate, front, hfront, ?_⟩
  rw [closing?_inlineScript, if_pos ((Level.after_iff _).2.2 hnested)]

end CoveragePages
