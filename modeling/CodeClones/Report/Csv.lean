import CodeClones.Report

/-! Reports as tables: fields between commas, rows on lines of their own. A row has a line number and a path
for each occurrence. -/

namespace CodeClones.Report.Csv

def needsQuotes (field : List Char) : Bool :=
  field.any fun c => c = ',' || c = '"' || c = '\n' || c = '\r'

def writeField (field : List Char) : List Char :=
  if needsQuotes field then
    '"' :: field.flatMap (fun c => if c = '"' then ['"', '"'] else [c]) ++ ['"']
  else field

def writeRow (fields : List (List Char)) : List Char :=
  [','].intercalate (fields.map writeField) ++ ['\n']

def header : List (List Char) := ["lines".toList, "tokens".toList, "occurrences".toList]

def fields (d : Duplication) : List (List Char) :=
  [digits d.lines, digits d.tokens, digits d.occurrences.length] ++
    d.occurrences.flatMap fun o => [digits o.first.line, o.path.toList]

def rows (r : Report) : List (List (List Char)) := header :: r.duplications.map fields

def render (r : Report) : String := String.ofList ((rows r).flatMap writeRow)

end CodeClones.Report.Csv
