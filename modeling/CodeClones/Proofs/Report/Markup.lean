import Mathlib.Data.List.Infix
import CodeClones.Proofs.Report.Readers
import CodeClones.Report.Xml

/-! Documents as trees of elements. The reader knows the part of XML 1.0 that has elements, attributes, references to
the predefined entities and sections of literal text, and refuses everything else. It takes characters as they are:
none is normalized, and none is forbidden. -/

namespace CodeClones.Report.Xml

open Reader

structure Tag where
  name : String
  attributes : List (String × List Char) := []
deriving DecidableEq

def Tag.names (t : Tag) : List String := t.attributes.map Prod.fst

inductive Part
  | char (c : Char)
  | verbatim (s : List Char)
  | opening (t : Tag)
  | closing (name : String)
  | empty (t : Tag)
deriving DecidableEq

inductive Node
  | char (c : Char)
  | verbatim (s : List Char)
  | element (t : Tag) (content : List Node)

/-! ### From texts to parts -/

def isSpace (c : Char) : Bool := c = ' ' || c = '\t' || c = '\n' || c = '\r'

def opensName (c : Char) : Bool := c.isAlpha || c = '_' || c = ':'

def continuesName (c : Char) : Bool := opensName c || c.isDigit || c = '-' || c = '.'

def readName : Reader String := fun text =>
  if text.head?.any opensName then some (String.ofList (text.takeWhile continuesName), text.dropWhile continuesName)
  else none

def skipSpaces : Reader Unit := fun text => some ((), text.dropWhile isSpace)

def readSpace : Reader Unit := fun text => if text.head?.any isSpace then skipSpaces text else none

def unescape : List Char → Option (List Char)
  | '&' :: 'a' :: 'm' :: 'p' :: ';' :: text => (unescape text).map ('&' :: ·)
  | '&' :: 'l' :: 't' :: ';' :: text => (unescape text).map ('<' :: ·)
  | '&' :: 'g' :: 't' :: ';' :: text => (unescape text).map ('>' :: ·)
  | '&' :: 'q' :: 'u' :: 'o' :: 't' :: ';' :: text => (unescape text).map ('"' :: ·)
  | '&' :: 'a' :: 'p' :: 'o' :: 's' :: ';' :: text => (unescape text).map ('\'' :: ·)
  | c :: text => if c = '&' ∨ c = '<' then none else (unescape text).map (c :: ·)
  | [] => some []

def readAttribute : Reader (String × List Char) := do
  readSpace
  let n ← readName
  exactly ['=', '"']
  let v ← upTo ['"']
  return (n, ← unescape v)

def readTag : Reader Tag := do
  let n ← readName
  let t : Tag := ⟨n, ← many readAttribute⟩
  guard t.names.Nodup
  return t

def readTagEnd : Reader Bool
  | '/' :: '>' :: text => some (true, text)
  | '>' :: text => some (false, text)
  | _ => none

def sectionStart : List Char := ['[', 'C', 'D', 'A', 'T', 'A', '[']

def sectionEnd : List Char := [']', ']', '>']

def readVerbatim : Reader Part := do
  exactly sectionStart
  return .verbatim (← upTo sectionEnd)

def readClosing : Reader Part := do
  let n ← readName
  skipSpaces
  exactly ['>']
  return .closing n

def readOpening : Reader Part := do
  let t ← readTag
  skipSpaces
  return if ← readTagEnd then .empty t else .opening t

def readMarkup : Reader Part
  | '!' :: text => readVerbatim text
  | '/' :: text => readClosing text
  | text => readOpening text

def readPart : Reader Part
  | '<' :: text => readMarkup text
  | c :: text => if c = '&' ∨ c = '>' then none else some (.char c, text)
  | [] => none

/-! ### From parts to trees -/

structure Assembly where
  /-- The tags of the elements that are not closed, from the innermost on, each with what stands in front of it. -/
  unclosed : List (Tag × List Node) := []
  nodes : List Node := []

def Assembly.add (a : Assembly) : Part → Option Assembly
  | .char c =>
      if !a.unclosed.isEmpty then some { a with nodes := .char c :: a.nodes }
      else if isSpace c then some a else none
  | .verbatim s => if !a.unclosed.isEmpty then some { a with nodes := .verbatim s :: a.nodes } else none
  | .empty t => some { a with nodes := .element t [] :: a.nodes }
  | .opening t => some ⟨(t, a.nodes) :: a.unclosed, []⟩
  | .closing n =>
      match a.unclosed with
      | (t, before) :: outer => if t.name = n then some ⟨outer, .element t a.nodes.reverse :: before⟩ else none
      | [] => none

def declaration : List Char := "<?xml version=\"1.0\" encoding=\"UTF-8\"?>".toList

def assemble (parts : List Part) : Option (Tag × List Node) :=
  match parts.foldlM Assembly.add {} with
  | some ⟨[], [.element t content]⟩ => some (t, content)
  | _ => none

def readDocument (text : String) : Option (Tag × List Node) :=
  match (do exactly declaration; many readPart) text.toList with
  | some (parts, []) => assemble parts
  | _ => none

/-! ### What is written is read -/

def IsName (n : String) : Prop := n.toList.head?.any opensName = true ∧ n.toList.all continuesName = true

instance (n : String) : Decidable (IsName n) := inferInstanceAs (Decidable (_ ∧ _))

structure Tag.IsRegular (t : Tag) : Prop where
  name : IsName t.name
  names : ∀ n ∈ t.names, IsName n
  nodup : t.names.Nodup

def Tag.write (t : Tag) : List Char := t.name.toList ++ t.attributes.flatMap fun a => writeAttribute a.1 a.2

namespace Part

def IsRegular : Part → Prop
  | char c => c ≠ '<' ∧ c ≠ '&' ∧ c ≠ '>'
  | verbatim s => ¬ sectionEnd <:+: s
  | opening t => t.IsRegular
  | closing n => IsName n
  | empty t => t.IsRegular

def write : Part → List Char
  | char c => [c]
  | verbatim s => '<' :: '!' :: sectionStart ++ s ++ sectionEnd
  | opening t => '<' :: t.write ++ ['>']
  | closing n => '<' :: '/' :: n.toList ++ ['>']
  | empty t => '<' :: t.write ++ ['/', '>']

end Part

def EndsName (text : List Char) : Prop := ∃ c following, text = c :: following ∧ continuesName c = false

variable {n : String} {t : Tag} {c : Char} {rest : List Char}

lemma IsName.exists_cons (h : IsName n) : ∃ c s, n.toList = c :: s ∧ opensName c = true := by
  obtain ⟨c, hc, ho⟩ := (Option.any_eq_true _ _).mp h.1
  obtain ⟨s, hs⟩ := List.head?_eq_some_iff.mp hc
  exact ⟨c, s, hs, ho⟩

lemma readName_append (h : IsName n) (rest : List Char) (hrest : EndsName rest) :
    readName (n.toList ++ rest) = some (n, rest) := by
  obtain ⟨c, s, hs, hc⟩ := h.exists_cons
  obtain ⟨d, following, rfl, hd⟩ := hrest
  have hopens : (n.toList ++ d :: following).head?.any opensName = true := by
    rw [hs]
    exact hc
  have hcontinues := List.all_eq_true.mp h.2
  rw [readName, if_pos hopens, List.takeWhile_append_of_pos hcontinues, List.dropWhile_append_of_pos hcontinues]
  simp [hd]

lemma unescape_escape (value : List Char) : unescape (value.flatMap escape) = some value := by
  induction value with
  | nil => rfl
  | cons c value ih =>
    rw [List.flatMap_cons, escape]
    split_ifs with h1 h2 h3 h4 h5
    · subst h1
      simp [unescape, ih]
    · subst h2
      simp [unescape, ih]
    · subst h3
      simp [unescape, ih]
    · subst h4
      simp [unescape, ih]
    · subst h5
      simp [unescape, ih]
    · simp [unescape, ih, h1, h2]

lemma quote_not_mem_escape (value : List Char) : '"' ∉ value.flatMap escape := by
  intro h
  obtain ⟨c, -, hc⟩ := List.mem_flatMap.mp h
  rw [escape] at hc
  split_ifs at hc with h1 h2 h3 h4 h5
  · exact absurd hc (by decide)
  · exact absurd hc (by decide)
  · exact absurd hc (by decide)
  · exact absurd hc (by decide)
  · exact absurd hc (by decide)
  · exact h4 (List.mem_singleton.mp hc).symm

lemma readSpace_name (h : IsName n) (rest : List Char) :
    readSpace (' ' :: (n.toList ++ rest)) = some ((), n.toList ++ rest) := by
  obtain ⟨c, s, hs, hc⟩ := h.exists_cons
  have hdark : isSpace c = false := by
    by_contra hspace
    rw [Bool.not_eq_false, isSpace] at hspace
    simp only [Bool.or_eq_true, decide_eq_true_eq] at hspace
    rcases hspace with ((rfl | rfl) | rfl) | rfl <;> exact absurd hc (by decide)
  have hblank : isSpace ' ' = true := rfl
  rw [hs, List.cons_append, readSpace, List.head?_cons, Option.any_some, if_pos hblank, skipSpaces,
    List.dropWhile_cons_of_pos hblank, List.dropWhile_cons_of_neg (by simp [hdark])]

lemma readAttribute_writeAttribute (h : IsName n) (value rest : List Char) :
    readAttribute (writeAttribute n value ++ rest) = some ((n, value), rest) := by
  have hwritten : writeAttribute n value ++ rest =
      ' ' :: (n.toList ++ (['=', '"'] ++ (value.flatMap escape ++ (['"'] ++ rest)))) := by
    simp [writeAttribute]
  have hvalue : upTo ['"'] (value.flatMap escape ++ (['"'] ++ rest)) = some (value.flatMap escape, rest) := by
    apply upTo_append
    intro hquote
    apply quote_not_mem_escape value
    simpa using hquote.subset (List.mem_singleton_self '"')
  have hname := readName_append h (['=', '"'] ++ (value.flatMap escape ++ (['"'] ++ rest))) ⟨'=', _, rfl, rfl⟩
  rw [hwritten, readAttribute, bind_eq (readSpace_name h _), bind_eq hname,
    bind_eq (exactly_append _ _), bind_eq hvalue, lift_bind_eq (unescape_escape value)]
  rfl

lemma readTag_write (h : t.IsRegular) (hc : c = '>' ∨ c = '/') (rest : List Char) :
    readTag (t.write ++ c :: rest) = some (t, c :: rest) := by
  have hattributes : many readAttribute (t.attributes.flatMap (fun a => writeAttribute a.1 a.2) ++ c :: rest) =
      some (t.attributes, c :: rest) := by
    apply many_flatMap (fun _ => True)
    · exact fun a ha rest _ => readAttribute_writeAttribute (h.names a.1 (List.mem_map_of_mem ha)) a.2 rest
    · intro a _
      simp [writeAttribute]
    · exact fun _ _ _ => trivial
    · trivial
    · apply many_of_eq_none
      rcases hc with rfl | rfl <;> rfl
  have hends : EndsName (t.attributes.flatMap (fun a => writeAttribute a.1 a.2) ++ c :: rest) := by
    cases t.attributes with
    | nil =>
      refine ⟨c, rest, rfl, ?_⟩
      rcases hc with rfl | rfl <;> rfl
    | cons a others => exact ⟨' ', _, rfl, rfl⟩
  rw [Tag.write, List.append_assoc, readTag, bind_eq (readName_append h.name _ hends), bind_eq hattributes,
    guard, if_pos h.nodup]
  rfl

lemma readPart_char (h : c ≠ '<' ∧ c ≠ '&' ∧ c ≠ '>') (rest : List Char) :
    readPart (c :: rest) = some (.char c, rest) := by
  obtain ⟨hless, hamp, hgreater⟩ := h
  have hn : ¬ (c = '&' ∨ c = '>') := by
    simp [hamp, hgreater]
  unfold readPart
  split
  · next text he =>
    obtain ⟨rfl, -⟩ := List.cons.inj he
    exact absurd rfl hless
  · next c text _ he =>
    obtain ⟨rfl, rfl⟩ := List.cons.inj he
    rw [if_neg hn]
  · next he => exact absurd he (List.cons_ne_nil _ _)

lemma infix_concat_bracket {s : List Char} : sectionEnd <:+: s ++ [']'] ↔ sectionEnd <:+: s := by
  rw [List.infix_concat_iff, or_iff_right]
  intro h
  have hlast := h.getLast (List.cons_ne_nil _ _)
  rw [List.getLast_concat] at hlast
  exact absurd hlast (by decide)

lemma readVerbatim_append {s : List Char} (h : ¬ sectionEnd <:+: s) (rest : List Char) :
    readVerbatim (sectionStart ++ (s ++ (sectionEnd ++ rest))) = some (.verbatim s, rest) := by
  have hbrackets : ¬ sectionEnd <:+: s ++ sectionEnd.dropLast := by
    have hsplit : s ++ sectionEnd.dropLast = s ++ [']'] ++ [']'] := by
      rw [List.append_assoc]
      rfl
    rwa [hsplit, infix_concat_bracket, infix_concat_bracket]
  rw [readVerbatim, bind_eq (exactly_append _ _), bind_eq (upTo_append hbrackets rest)]
  rfl

lemma readClosing_append (h : IsName n) (rest : List Char) :
    readClosing (n.toList ++ '>' :: rest) = some (.closing n, rest) := by
  have hname := readName_append h ('>' :: rest) ⟨'>', rest, rfl, rfl⟩
  have hspaces : skipSpaces ('>' :: rest) = some ((), '>' :: rest) := rfl
  have hend : exactly ['>'] ('>' :: rest) = some ((), rest) := rfl
  rw [readClosing, bind_eq hname, bind_eq hspaces, bind_eq hend]
  rfl

lemma readOpening_opening (h : t.IsRegular) (rest : List Char) :
    readOpening (t.write ++ '>' :: rest) = some (.opening t, rest) := by
  have hspaces : skipSpaces ('>' :: rest) = some ((), '>' :: rest) := rfl
  have hend : readTagEnd ('>' :: rest) = some (false, rest) := rfl
  rw [readOpening, bind_eq (readTag_write h (Or.inl rfl) rest), bind_eq hspaces, bind_eq hend]
  rfl

lemma readOpening_empty (h : t.IsRegular) (rest : List Char) :
    readOpening (t.write ++ '/' :: '>' :: rest) = some (.empty t, rest) := by
  have hspaces : skipSpaces ('/' :: '>' :: rest) = some ((), '/' :: '>' :: rest) := rfl
  have hend : readTagEnd ('/' :: '>' :: rest) = some (true, rest) := rfl
  rw [readOpening, bind_eq (readTag_write h (Or.inr rfl) _), bind_eq hspaces, bind_eq hend]
  rfl

lemma readMarkup_write (h : t.IsRegular) (rest : List Char) :
    readMarkup (t.write ++ rest) = readOpening (t.write ++ rest) := by
  obtain ⟨c, s, hs, hc⟩ := h.name.exists_cons
  rw [Tag.write, hs, List.cons_append, List.cons_append]
  unfold readMarkup
  -- The first character of a name is neither an exclamation mark nor a slash.
  split
  · next he =>
    obtain ⟨rfl, -⟩ := List.cons.inj he
    exact absurd hc (by decide)
  · next he =>
    obtain ⟨rfl, -⟩ := List.cons.inj he
    exact absurd hc (by decide)
  · rfl

lemma readPart_write {p : Part} (h : p.IsRegular) (rest : List Char) : readPart (p.write ++ rest) = some (p, rest) := by
  cases p with
  | char c => exact readPart_char h rest
  | verbatim s =>
    rw [Part.write, List.append_assoc, List.append_assoc]
    exact readVerbatim_append h rest
  | opening t =>
    rw [Part.write, List.append_assoc]
    exact (readMarkup_write h _).trans (readOpening_opening h rest)
  | closing n =>
    rw [Part.write, List.append_assoc]
    exact readClosing_append h rest
  | empty t =>
    rw [Part.write, List.append_assoc]
    exact (readMarkup_write h _).trans (readOpening_empty h rest)

/-! ### Trees in parts -/

mutual

def Node.parts : Node → List Part
  | .char c => [.char c]
  | .verbatim s => [.verbatim s]
  | .element t [] => [.empty t]
  | .element t (n :: content) => .opening t :: (n.parts ++ partsOf content) ++ [.closing t.name]

def partsOf : List Node → List Part
  | [] => []
  | n :: nodes => n.parts ++ partsOf nodes

end

lemma partsOf_eq_flatMap (nodes : List Node) : partsOf nodes = nodes.flatMap Node.parts := by
  induction nodes with
  | nil => rfl
  | cons n nodes ih => rw [partsOf, ih, List.flatMap_cons]

lemma parts_element {content : List Node} (h : content ≠ []) (t : Tag) :
    (Node.element t content).parts = .opening t :: (content.flatMap Node.parts ++ [.closing t.name]) := by
  obtain ⟨n, others, rfl⟩ := List.exists_cons_of_ne_nil h
  rw [Node.parts, partsOf_eq_flatMap, List.flatMap_cons, List.cons_append]

lemma add_content {content : List Node}
    (h : ∀ a : Assembly, a.unclosed ≠ [] → (partsOf content).foldlM Assembly.add a =
      some { a with nodes := content.reverse ++ a.nodes }) (t : Tag) (a : Assembly) :
    (Node.element t content).parts.foldlM Assembly.add a = some { a with nodes := .element t content :: a.nodes } := by
  cases content with
  | nil => rfl
  | cons n content =>
    have hopen : a.add (.opening t) = some ⟨(t, a.nodes) :: a.unclosed, []⟩ := rfl
    rw [parts_element (List.cons_ne_nil n content), ← partsOf_eq_flatMap, List.foldlM_cons, hopen]
    simp [List.foldlM_append, h, Assembly.add]

mutual

lemma add_parts : (n : Node) → (a : Assembly) → a.unclosed ≠ [] →
    n.parts.foldlM Assembly.add a = some { a with nodes := n :: a.nodes }
  | .char c, a, h => by simp [Node.parts, Assembly.add, h]
  | .verbatim s, a, h => by simp [Node.parts, Assembly.add, h]
  | .element t content, a, _ => add_content (add_partsOf content) t a

lemma add_partsOf : (nodes : List Node) → (a : Assembly) → a.unclosed ≠ [] →
    (partsOf nodes).foldlM Assembly.add a = some { a with nodes := nodes.reverse ++ a.nodes }
  | [], a, _ => rfl
  | n :: nodes, a, h => by
    rw [partsOf, List.foldlM_append, add_parts n a h]
    apply (add_partsOf nodes ⟨a.unclosed, n :: a.nodes⟩ h).trans
    simp

end

def Node.write (n : Node) : List Char := n.parts.flatMap Part.write

def Node.IsRegular (n : Node) : Prop := ∀ p ∈ n.parts, p.IsRegular

lemma isRegular_element {content : List Node} (ht : t.IsRegular) (h : ∀ n ∈ content, n.IsRegular) :
    (Node.element t content).IsRegular := by
  cases content with
  | nil =>
    intro p hp
    obtain rfl := List.mem_singleton.mp hp
    exact ht
  | cons n others =>
    rw [Node.IsRegular, parts_element (List.cons_ne_nil n others)]
    simp only [List.forall_mem_cons, List.forall_mem_append, List.mem_singleton, forall_eq, List.forall_mem_flatMap]
    exact ⟨ht, List.forall_mem_cons.mp h, ht.name⟩

lemma many_readPart {parts : List Part} (h : ∀ p ∈ parts, p.IsRegular) :
    many readPart (parts.flatMap Part.write) = some (parts, []) := by
  rw [← List.append_nil (parts.flatMap Part.write)]
  apply many_flatMap fun _ => True
  · exact fun p hp rest _ => readPart_write (h p hp) rest
  · intro p _
    cases p <;> simp [Part.write]
  · exact fun _ _ _ => trivial
  · trivial
  · exact many_nil readPart

lemma assemble_parts (t : Tag) (content : List Node) :
    assemble (.char '\n' :: ((Node.element t content).parts ++ [.char '\n'])) = some (t, content) := by
  have hfeed : ∀ nodes, Assembly.add ⟨[], nodes⟩ (.char '\n') = some ⟨[], nodes⟩ := fun nodes => rfl
  have helement : (Node.element t content).parts.foldlM Assembly.add ⟨[], []⟩ = some ⟨[], [.element t content]⟩ :=
    add_content (add_partsOf content) t ⟨[], []⟩
  have hfold : (.char '\n' :: ((Node.element t content).parts ++ [.char '\n'])).foldlM Assembly.add ⟨[], []⟩ =
      some ⟨[], [.element t content]⟩ := by
    simp [hfeed, helement]
  rw [assemble, hfold]

lemma readDocument_write {content : List Node} (h : (Node.element t content).IsRegular) :
    readDocument (String.ofList (declaration ++ '\n' :: ((Node.element t content).write ++ ['\n']))) =
      some (t, content) := by
  have hwritten : '\n' :: ((Node.element t content).write ++ ['\n']) =
      (.char '\n' :: ((Node.element t content).parts ++ [.char '\n'])).flatMap Part.write := by
    simp [Node.write, Part.write]
  have hregular : ∀ p ∈ Part.char '\n' :: ((Node.element t content).parts ++ [.char '\n']), p.IsRegular := by
    have hfeed : (Part.char '\n').IsRegular := by
      simp [Part.IsRegular]
    simp only [List.forall_mem_cons, List.forall_mem_append, List.mem_singleton, forall_eq]
    exact ⟨hfeed, h, hfeed⟩
  rw [readDocument, String.toList_ofList, hwritten, bind_eq (exactly_append _ _), many_readPart hregular]
  exact assemble_parts t content

end CodeClones.Report.Xml
