import CodeClones.Report

/-! Reports as XML documents. -/

namespace CodeClones.Report.Xml

def escape (c : Char) : List Char :=
  if c = '&' then "&amp;".toList
  else if c = '<' then "&lt;".toList
  else if c = '>' then "&gt;".toList
  else if c = '"' then "&quot;".toList
  else if c = '\'' then "&apos;".toList
  else [c]

def writeAttribute (name : String) (value : List Char) : List Char :=
  ' ' :: name.toList ++ ['=', '"'] ++ value.flatMap escape ++ ['"']

def sectionBreak : List Char := "]]><![CDATA[".toList

/-- Copies a literal text behind what is written already, from last to first, and `brackets` closing brackets.
A section break keeps two closing brackets apart from a greater-than sign. -/
def literalOnto (written : List Char) (brackets : Nat) : List Char → List Char
  | [] => written.reverse
  | c :: following =>
      let written := if c = '>' ∧ 2 ≤ brackets then sectionBreak.reverse ++ written else written
      literalOnto (c :: written) (if c = ']' then brackets + 1 else 0) following

def literal (text : List Char) : List Char :=
  "<![CDATA[".toList ++ literalOnto [] 0 text ++ "]]>".toList

def occurrence (o : Occurrence) : List Char :=
  "      <file".toList ++ writeAttribute "line" (digits o.first.line) ++
    writeAttribute "endline" (digits o.last.line) ++ writeAttribute "column" (digits o.first.column) ++
    writeAttribute "endcolumn" (digits o.last.column) ++ writeAttribute "path" o.path.toList ++ "/>\n".toList

def duplication (d : Duplication) : List Char :=
  "   <duplication".toList ++ writeAttribute "lines" (digits d.lines) ++ writeAttribute "tokens" (digits d.tokens) ++
    ">\n".toList ++ d.occurrences.flatMap occurrence ++
    "      <codefragment>".toList ++ literal d.fragment.toList ++ "</codefragment>\n".toList ++
    "   </duplication>\n".toList

def document (r : Report) : List Char :=
  "<?xml version=\"1.0\" encoding=\"UTF-8\"?>\n<pmd-cpd>\n".toList ++
    r.duplications.flatMap duplication ++ "</pmd-cpd>\n".toList

def render (r : Report) : String := String.ofList (document r)

end CodeClones.Report.Xml
