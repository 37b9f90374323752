import Std.Data.String.ToNat
import CodeClones.Proofs.Report.Markup

/-! Reports as XML documents can be read back: nothing in a path or a fragment ends the place where it stands. -/

namespace CodeClones.Report.Xml

variable {text front : List Char} {brackets : ℕ}

/-! ### Sections of literal text -/

/-- The sections that a text is written in, where the first one holds some text already, with so many closing brackets
at its end. -/
def sectionsFrom (front : List Char) (brackets : ℕ) : List Char → List (List Char)
  | [] => [front]
  | c :: text =>
      if c = '>' ∧ 2 ≤ brackets then front :: sectionsFrom [c] 0 text
      else sectionsFrom (front ++ [c]) (if c = ']' then brackets + 1 else 0) text

lemma flatten_sectionsFrom (front : List Char) (brackets : ℕ) (text : List Char) :
    (sectionsFrom front brackets text).flatten = front ++ text := by
  induction text generalizing front brackets with
  | nil => simp [sectionsFrom]
  | cons c text ih =>
    rw [sectionsFrom]
    split
    · rw [List.flatten_cons, ih, List.singleton_append]
    · rw [ih, List.append_assoc, List.singleton_append]

lemma literalOnto_eq (written : List Char) (brackets : ℕ) (text : List Char) :
    literalOnto written brackets text = written.reverse ++ literalOnto [] brackets text := by
  induction text generalizing written brackets with
  | nil => simp [literalOnto]
  | cons c text ih =>
    rw [literalOnto, literalOnto, ih, ih (c :: _)]
    split <;> simp

lemma sections_literalOnto (front : List Char) (brackets : ℕ) (text : List Char) :
    (sectionsFrom front brackets text).flatMap (fun s => (Part.verbatim s).write) =
      '<' :: '!' :: sectionStart ++ front ++ literalOnto [] brackets text ++ sectionEnd := by
  induction text generalizing front brackets with
  | nil => simp [sectionsFrom, Part.write, literalOnto]
  | cons c text ih =>
    rw [sectionsFrom, literalOnto]
    split
    · next h =>
      have hc : (if c = ']' then brackets + 1 else 0) = 0 := by
        rw [h.1]
        rfl
      have hbreak : sectionBreak = sectionEnd ++ '<' :: '!' :: sectionStart := rfl
      rw [List.flatMap_cons, ih, hc, literalOnto_eq (c :: _), hbreak]
      simp [Part.write]
    · rw [ih, literalOnto_eq [c]]
      simp

lemma not_infix_concat {c : Char} (hfront : ¬ sectionEnd <:+: front)
    (hbrackets : ¬ List.replicate (brackets + 1) ']' <:+ front) (hc : ¬ (c = '>' ∧ 2 ≤ brackets)) :
    ¬ sectionEnd <:+: front ++ [c] := by
  rw [List.infix_concat_iff, not_or]
  refine ⟨?_, hfront⟩
  intro h
  obtain hnil | ⟨two, htwo, hsuffix⟩ := List.suffix_concat_iff.mp h
  · exact List.cons_ne_nil _ _ hnil
  · have hsplit : [']', ']'] ++ ['>'] = two ++ [c] := htwo
    obtain ⟨rfl, hgreater⟩ := List.append_inj' hsplit rfl
    have hfew : brackets + 1 ≤ 2 := by
      have := not_and.mp hc (List.singleton_inj.mp hgreater).symm
      omega
    have hsome : List.replicate (brackets + 1) ']' <:+ List.replicate 2 ']' := by
      apply List.suffix_replicate_iff.mpr
      simpa using hfew
    exact hbrackets (hsome.trans hsuffix)

lemma not_suffix_concat {c : Char} (hbrackets : ¬ List.replicate (brackets + 1) ']' <:+ front) :
    ¬ List.replicate ((if c = ']' then brackets + 1 else 0) + 1) ']' <:+ front ++ [c] := by
  intro h
  obtain hnil | ⟨before, hbefore, hsuffix⟩ := List.suffix_concat_iff.mp h
  · exact List.cons_ne_nil _ _ hnil
  · rw [List.replicate_succ'] at hbefore
    obtain ⟨rfl, hc⟩ := List.append_inj' hbefore rfl
    rw [if_pos (List.singleton_inj.mp hc).symm] at hsuffix
    exact hbrackets hsuffix

lemma not_infix_of_mem_sectionsFrom {s : List Char} (hfront : ¬ sectionEnd <:+: front)
    (hbrackets : ¬ List.replicate (brackets + 1) ']' <:+ front) (h : s ∈ sectionsFrom front brackets text) :
    ¬ sectionEnd <:+: s := by
  -- The section that is open never ends in more closing brackets than are counted.
  induction text generalizing front brackets with
  | nil =>
    obtain rfl := List.mem_singleton.mp h
    exact hfront
  | cons c text ih =>
    rw [sectionsFrom] at h
    split at h
    · next hc =>
      rcases List.mem_cons.mp h with rfl | h
      · exact hfront
      · apply ih _ _ h
        · rw [hc.1]
          decide
        · rw [hc.1]
          decide
    · next hc => exact ih (not_infix_concat hfront hbrackets hc) (not_suffix_concat hbrackets) h

def sections (text : List Char) : List (List Char) := sectionsFrom [] 0 text

lemma flatten_sections (text : List Char) : (sections text).flatten = text := flatten_sectionsFrom [] 0 text

lemma sections_ne_nil (text : List Char) : sections text ≠ [] := by
  intro h
  have hwritten := sections_literalOnto [] 0 text
  rw [← sections, h] at hwritten
  exact List.cons_ne_nil _ _ hwritten.symm

lemma not_infix_of_mem_sections {s : List Char} (h : s ∈ sections text) : ¬ sectionEnd <:+: s := by
  apply not_infix_of_mem_sectionsFrom _ _ h <;> decide

lemma literal_eq (text : List Char) : literal text = (sections text).flatMap fun s => (Part.verbatim s).write := by
  have hwritten : literal text = '<' :: '!' :: sectionStart ++ [] ++ literalOnto [] 0 text ++ sectionEnd := rfl
  rw [hwritten, sections, sections_literalOnto]

/-! ### Reports as trees -/

def chars (s : String) : List Node := s.toList.map .char

def siteTag (o : Occurrence) : Tag where
  name := "file"
  attributes := [("line", digits o.first.line), ("endline", digits o.last.line), ("column", digits o.first.column),
    ("endcolumn", digits o.last.column), ("path", o.path.toList)]

def entryTag (d : Duplication) : Tag where
  name := "duplication"
  attributes := [("lines", digits d.lines), ("tokens", digits d.tokens)]

def fragmentNode (d : Duplication) : Node :=
  .element ⟨"codefragment", []⟩ ((sections d.fragment.toList).map .verbatim)

def siteNodes (o : Occurrence) : List Node := chars "      " ++ .element (siteTag o) [] :: chars "\n"

def entryContent (d : Duplication) : List Node :=
  chars "\n" ++ d.occurrences.flatMap siteNodes ++ chars "      " ++ fragmentNode d :: chars "\n   "

def entryNodes (d : Duplication) : List Node :=
  chars "   " ++ .element (entryTag d) (entryContent d) :: chars "\n"

def reportContent (r : Report) : List Node := chars "\n" ++ r.duplications.flatMap entryNodes

def reportTag : Tag := ⟨"pmd-cpd", []⟩

/-! ### What is written for a tree -/

lemma write_chars (s : String) : (chars s).flatMap Node.write = s.toList := by
  rw [chars, List.flatMap_map]
  exact List.flatMap_singleton' s.toList

lemma write_verbatims (texts : List (List Char)) :
    (texts.map Node.verbatim).flatMap Node.write = texts.flatMap fun s => (Part.verbatim s).write := by
  rw [List.flatMap_map]
  apply List.flatMap_congr
  intro s _
  exact List.append_nil _

lemma write_empty (t : Tag) : (Node.element t []).write = '<' :: t.write ++ ['/', '>'] := List.append_nil _

lemma write_element {content : List Node} (h : content ≠ []) (t : Tag) : (Node.element t content).write =
    '<' :: t.write ++ '>' :: (content.flatMap Node.write ++ '<' :: '/' :: t.name.toList ++ ['>']) := by
  rw [Node.write, parts_element h, List.flatMap_cons, List.flatMap_append, List.flatMap_assoc]
  simp only [Part.write, List.flatMap_singleton, List.cons_append,
    List.append_assoc, List.nil_append]
  rfl

lemma write_fragmentNode (d : Duplication) : (fragmentNode d).write =
    "<codefragment>".toList ++ literal d.fragment.toList ++ "</codefragment>".toList := by
  have hsections : (sections d.fragment.toList).map Node.verbatim ≠ [] := by
    simpa using sections_ne_nil d.fragment.toList
  rw [fragmentNode, write_element hsections, write_verbatims, ← literal_eq]
  simp [Tag.write]

lemma write_siteNodes (o : Occurrence) : (siteNodes o).flatMap Node.write = occurrence o := by
  rw [siteNodes, List.flatMap_append, List.flatMap_cons, write_chars, write_chars, write_empty]
  unfold occurrence
  simp [Tag.write, siteTag]

lemma write_entryNodes (d : Duplication) : (entryNodes d).flatMap Node.write = duplication d := by
  have hcontent : entryContent d ≠ [] := List.append_ne_nil_of_right_ne_nil _ (List.cons_ne_nil _ _)
  rw [entryNodes, List.flatMap_append, List.flatMap_cons, write_chars, write_chars, write_element hcontent]
  unfold duplication
  simp [entryContent, Tag.write, entryTag, write_chars, write_fragmentNode, List.flatMap_assoc, write_siteNodes]

lemma document_eq (r : Report) :
    document r = declaration ++ '\n' :: ((Node.element reportTag (reportContent r)).write ++ ['\n']) := by
  have hcontent : reportContent r ≠ [] := List.append_ne_nil_of_left_ne_nil (List.cons_ne_nil _ _) _
  rw [write_element hcontent]
  unfold document declaration
  simp [reportContent, reportTag, Tag.write, write_chars, write_entryNodes, List.flatMap_assoc]

/-! ### Every part of it is regular -/

lemma isRegular_chars {s : String} (h : s.toList.all isSpace = true) : ∀ n ∈ chars s, n.IsRegular := by
  intro n hn p hp
  obtain ⟨c, hc, rfl⟩ := List.mem_map.mp hn
  obtain rfl := List.mem_singleton.mp hp
  have hspace := List.all_eq_true.mp h c hc
  refine ⟨?_, ?_, ?_⟩ <;> rintro rfl <;> exact absurd hspace (by decide)

lemma isRegular_siteTag (o : Occurrence) : (siteTag o).IsRegular where
  name := (by decide : IsName "file")
  names := (by decide : ∀ n ∈ ["line", "endline", "column", "endcolumn", "path"], IsName n)
  nodup := (by decide : ["line", "endline", "column", "endcolumn", "path"].Nodup)

lemma isRegular_entryTag (d : Duplication) : (entryTag d).IsRegular where
  name := (by decide : IsName "duplication")
  names := (by decide : ∀ n ∈ ["lines", "tokens"], IsName n)
  nodup := (by decide : ["lines", "tokens"].Nodup)

lemma isRegular_plainTag {n : String} (h : IsName n) : (⟨n, []⟩ : Tag).IsRegular where
  name := h
  names := List.forall_mem_nil _
  nodup := List.nodup_nil

lemma isRegular_siteNodes (o : Occurrence) : ∀ n ∈ siteNodes o, n.IsRegular := by
  rw [siteNodes]
  simp only [List.forall_mem_append, List.forall_mem_cons]
  refine ⟨isRegular_chars (by decide), ?_, isRegular_chars (by decide)⟩
  exact isRegular_element (isRegular_siteTag o) (List.forall_mem_nil _)

lemma isRegular_fragmentNode (d : Duplication) : (fragmentNode d).IsRegular := by
  apply isRegular_element (isRegular_plainTag (by decide))
  intro n hn p hp
  obtain ⟨s, hs, rfl⟩ := List.mem_map.mp hn
  obtain rfl := List.mem_singleton.mp hp
  exact not_infix_of_mem_sections hs

lemma isRegular_entryNodes (d : Duplication) : ∀ n ∈ entryNodes d, n.IsRegular := by
  have hcontent : ∀ n ∈ entryContent d, n.IsRegular := by
    rw [entryContent]
    simp only [List.forall_mem_append, List.forall_mem_cons, List.forall_mem_flatMap]
    refine ⟨⟨⟨isRegular_chars (by decide), ?_⟩, isRegular_chars (by decide)⟩, isRegular_fragmentNode d,
      isRegular_chars (by decide)⟩
    exact fun o _ => isRegular_siteNodes o
  rw [entryNodes]
  simp only [List.forall_mem_append, List.forall_mem_cons]
  exact ⟨isRegular_chars (by decide), isRegular_element (isRegular_entryTag d) hcontent, isRegular_chars (by decide)⟩

lemma isRegular_report (r : Report) : (Node.element reportTag (reportContent r)).IsRegular := by
  apply isRegular_element (isRegular_plainTag (by decide))
  rw [reportContent]
  simp only [List.forall_mem_append, List.forall_mem_flatMap]
  exact ⟨isRegular_chars (by decide), fun d _ => isRegular_entryNodes d⟩

lemma readDocument_render (r : Report) : readDocument (render r) = some (reportTag, reportContent r) := by
  rw [render, document_eq]
  exact readDocument_write (isRegular_report r)

/-! ### Reports are read back -/

structure Site where
  path : String
  first : Position
  last : Position
deriving DecidableEq

structure Entry where
  lines : ℕ
  tokens : ℕ
  sites : List Site
  fragment : String
deriving DecidableEq

def elements (name : String) (nodes : List Node) : List (Tag × List Node) :=
  nodes.filterMap fun
    | .element t content => if t.name = name then some (t, content) else none
    | _ => none

def textOf (nodes : List Node) : List Char :=
  nodes.flatMap fun
    | .char c => [c]
    | .verbatim s => s
    | .element _ _ => []

def Tag.value? (t : Tag) (name : String) : Option String := (t.attributes.lookup name).map String.ofList

def Tag.number? (t : Tag) (name : String) : Option ℕ := (t.value? name).bind String.toNat?

def readSite (t : Tag) : Option Site := do
  let path ← t.value? "path"
  let first : Position := ⟨← t.number? "line", ← t.number? "column"⟩
  let last : Position := ⟨← t.number? "endline", ← t.number? "endcolumn"⟩
  return ⟨path, first, last⟩

def readEntry (t : Tag) (content : List Node) : Option Entry := do
  let lines ← t.number? "lines"
  let tokens ← t.number? "tokens"
  let sites ← (elements "file" content).mapM fun e => readSite e.1
  match elements "codefragment" content with
  | [(_, fragment)] => return ⟨lines, tokens, sites, String.ofList (textOf fragment)⟩
  | _ => none

def readReport (text : String) : Option (List Entry) := do
  let (t, content) ← readDocument text
  guard (t.name = reportTag.name)
  (elements "duplication" content).mapM fun e => readEntry e.1 e.2

lemma elements_chars (name s : String) : elements name (chars s) = [] := by
  apply List.filterMap_eq_nil_iff.mpr
  intro n hn
  obtain ⟨c, -, rfl⟩ := List.mem_map.mp hn
  rfl

lemma elements_append (name : String) (nodes more : List Node) :
    elements name (nodes ++ more) = elements name nodes ++ elements name more := List.filterMap_append

lemma elements_flatMap {α : Type} (name : String) (items : List α) (nodes : α → List Node) :
    elements name (items.flatMap nodes) = items.flatMap fun a => elements name (nodes a) := List.filterMap_flatMap

lemma elements_sites (d : Duplication) :
    elements "file" (entryContent d) = d.occurrences.map fun o => (siteTag o, []) := by
  have hsite : ∀ o, elements "file" (siteNodes o) = [(siteTag o, [])] := fun _ => rfl
  have hbehind : elements "file" (fragmentNode d :: chars "\n   ") = [] := rfl
  simp only [entryContent, elements_append, elements_chars, elements_flatMap, hsite, hbehind, ← List.map_eq_flatMap,
    List.append_nil, List.nil_append]

lemma elements_fragment (d : Duplication) : elements "codefragment" (entryContent d) =
    [(⟨"codefragment", []⟩, (sections d.fragment.toList).map .verbatim)] := by
  have hsite : ∀ o, elements "codefragment" (siteNodes o) = [] := fun _ => rfl
  have hbehind : elements "codefragment" (fragmentNode d :: chars "\n   ") =
      [(⟨"codefragment", []⟩, (sections d.fragment.toList).map .verbatim)] := rfl
  have hsites : d.occurrences.flatMap (fun o => elements "codefragment" (siteNodes o)) = [] :=
    List.flatMap_eq_nil_iff.mpr fun o _ => hsite o
  simp only [entryContent, elements_append, elements_chars, elements_flatMap, hsites, hbehind, List.nil_append]

lemma elements_entries (r : Report) :
    elements "duplication" (reportContent r) = r.duplications.map fun d => (entryTag d, entryContent d) := by
  have hentry : ∀ d, elements "duplication" (entryNodes d) = [(entryTag d, entryContent d)] := fun _ => rfl
  simp only [reportContent, elements_append, elements_chars, elements_flatMap, hentry, ← List.map_eq_flatMap,
    List.nil_append]

lemma textOf_verbatims (texts : List (List Char)) : textOf (texts.map .verbatim) = texts.flatten := by
  rw [textOf, List.flatMap_map]
  exact List.flatMap_id'

lemma number?_digits {t : Tag} {name : String} {n : ℕ} (h : t.value? name = some (String.ofList (digits n))) :
    t.number? name = some n := by
  rw [Tag.number?, h, ofList_digits]
  exact Nat.toNat?_repr n

lemma readSite_siteTag (o : Occurrence) : readSite (siteTag o) = some ⟨o.path, o.first, o.last⟩ := by
  have hpath : (siteTag o).value? "path" = some o.path := congrArg some String.ofList_toList
  have hline : (siteTag o).number? "line" = some o.first.line := number?_digits rfl
  have hendline : (siteTag o).number? "endline" = some o.last.line := number?_digits rfl
  have hcolumn : (siteTag o).number? "column" = some o.first.column := number?_digits rfl
  have hendcolumn : (siteTag o).number? "endcolumn" = some o.last.column := number?_digits rfl
  rw [readSite, hpath, hline, hcolumn, hendline, hendcolumn]
  rfl

lemma readEntry_entryTag (d : Duplication) : readEntry (entryTag d) (entryContent d) =
    some ⟨d.lines, d.tokens, d.occurrences.map fun o => ⟨o.path, o.first, o.last⟩, d.fragment⟩ := by
  have hlines : (entryTag d).number? "lines" = some d.lines := number?_digits rfl
  have htokens : (entryTag d).number? "tokens" = some d.tokens := number?_digits rfl
  have hsites : (elements "file" (entryContent d)).mapM (fun e => readSite e.1) =
      some (d.occurrences.map fun o => ⟨o.path, o.first, o.last⟩) := by
    simp only [elements_sites, List.mapM_map, Function.comp_def, readSite_siteTag]
    exact List.mapM_pure
  rw [readEntry, hlines, htokens, hsites, elements_fragment]
  simp [textOf_verbatims, flatten_sections]

theorem readReport_render (r : Report) : readReport (render r) = some (r.duplications.map fun d =>
    ⟨d.lines, d.tokens, d.occurrences.map fun o => ⟨o.path, o.first, o.last⟩, d.fragment⟩) := by
  have hentries : (elements "duplication" (reportContent r)).mapM (fun e => readEntry e.1 e.2) =
      some (r.duplications.map fun d =>
        ⟨d.lines, d.tokens, d.occurrences.map fun o => ⟨o.path, o.first, o.last⟩, d.fragment⟩) := by
    simp only [elements_entries, List.mapM_map, Function.comp_def, readEntry_entryTag]
    exact List.mapM_pure
  rw [readReport, readDocument_render]
  exact hentries

end CodeClones.Report.Xml
