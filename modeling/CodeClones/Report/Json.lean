import CodeClones.Report
import CodeClones.Text.Quoted

/-! Reports as JSON documents. -/

namespace CodeClones.Report.Json

inductive Value
  | number (n : Nat)
  | text (s : String)
  | list (items : List Value)
  | object (members : List (String × Value))

def escape (c : Char) : List Char :=
  if c = '"' ∨ c = '\\' then ['\\', c]
  else if c = '\x08' then ['\\', 'b']
  else if c = '\x0c' then ['\\', 'f']
  else if c = '\n' then ['\\', 'n']
  else if c = '\r' then ['\\', 'r']
  else if c = '\t' then ['\\', 't']
  else if c.toNat < 32 then ['\\', 'u', '0', '0', Nat.digitChar (c.toNat / 16), Nat.digitChar (c.toNat % 16)]
  else [c]

def quoted (s : String) : List Char := '"' :: s.toList.flatMap escape ++ ['"']

def block (opening closing : Char) (indent : Nat) (items : List (List Char)) : List Char :=
  match items with
  | [] => [opening, closing]
  | items =>
      let lines := items.map fun item => '\n' :: List.replicate (2 * indent + 2) ' ' ++ item
      opening :: [','].intercalate lines ++ '\n' :: List.replicate (2 * indent) ' ' ++ [closing]

mutual

def print (indent : Nat) : Value → List Char
  | .number n => digits n
  | .text s => quoted s
  | .list items => block '[' ']' indent (printItems (indent + 1) items)
  | .object members => block '\x7b' '\x7d' indent (printMembers (indent + 1) members)

def printItems (indent : Nat) : List Value → List (List Char)
  | [] => []
  | v :: following => print indent v :: printItems indent following

def printMembers (indent : Nat) : List (String × Value) → List (List Char)
  | [] => []
  | (name, v) :: following => (quoted name ++ [':', ' '] ++ print indent v) :: printMembers indent following

end

def occurrence (o : Occurrence) : Value := .object
  [("fileId", .number o.file), ("path", .text o.path),
    ("startLine", .number o.first.line), ("startColumn", .number o.first.column),
    ("endLine", .number o.last.line), ("endColumn", .number o.last.column),
    ("startToken", .number o.startToken)]

def hash (h : UInt64) : String :=
  let text := Text.hexDigits h.toNat
  String.ofList (List.replicate (16 - text.length) '0' ++ text)

def duplication (d : Duplication) : Value := .object
  [("hash", .text (hash d.hash)), ("tokens", .number d.tokens), ("lines", .number d.lines),
    ("occurrences", .list (d.occurrences.map occurrence)), ("codeFragment", .text d.fragment)]

def scanStatistics (s : Files.ScanStatistics) : Value := .object
  [("candidateFiles", .number s.candidateFiles), ("scannedFiles", .number s.scannedFiles),
    ("scannedBytes", .number s.scannedBytes), ("skippedNotFound", .number s.notFound),
    ("skippedPermissionDenied", .number s.permissionDenied), ("skippedTooLarge", .number s.tooLarge),
    ("skippedBinary", .number s.binary), ("skippedExcluded", .number s.excluded),
    ("skippedWalkErrors", .number s.walkErrors)]

def detectionStatistics (s : DetectionStatistics) : Value := .object
  [("inputFiles", .number s.inputFiles), ("tokenizedFiles", .number s.tokenizedFiles),
    ("skippedTokenizationErrors", .number s.skippedFiles), ("totalTokens", .number s.totalTokens),
    ("candidateClusters", .number s.repeats), ("suppressedSelfOverlap", .number s.overlapping),
    ("suppressedContained", .number s.contained), ("duplications", .number s.duplications)]

def statistics (s : RunStatistics) : Value := .object
  [("scan", scanStatistics s.scan), ("detect", detectionStatistics s.detection)]

def document (r : Report) : Value := .object <|
  ("duplications", .list (r.duplications.map duplication)) ::
    r.statistics.toList.map fun s => ("stats", statistics s)

def render (r : Report) : String := String.ofList (print 0 (document r) ++ ['\n'])

end CodeClones.Report.Json
