import CodeClones.Report

/-! Reports to be read. -/

namespace CodeClones.Report.PlainText

def separator : String := String.ofList (List.replicate 69 '=') ++ "\n"

def occurrence (o : Occurrence) : String :=
  "Starting at line " ++ toString o.first.line ++ " of " ++ o.path ++ "\n"

def duplication (d : Duplication) : String :=
  "Found a " ++ toString d.lines ++ " line (" ++ toString d.tokens ++
    " tokens) duplication in the following files: \n" ++
    String.join (d.occurrences.map occurrence) ++ "\n" ++ d.fragment ++ "\n"

def render (r : Report) : String := separator.intercalate (r.duplications.map duplication)

/-! ### Statistics -/

def entry (name : String) (n : Nat) : String := name ++ "=" ++ toString n

def entries (named : List (String × Nat)) : String := " ".intercalate (named.map fun (k, n) => entry k n)

def skipped (s : RunStatistics) : List (String × Nat) :=
  [("not_found", s.scan.notFound), ("permission_denied", s.scan.permissionDenied),
    ("too_large", s.scan.tooLarge), ("binary", s.scan.binary), ("excluded", s.scan.excluded),
    ("walk_errors", s.scan.walkErrors), ("tokenization_errors", s.detection.skippedFiles)]

def skippedLines (s : RunStatistics) : List String :=
  match (skipped s).filter (0 < ·.2) with
  | [] => []
  | occurred => "skipped:" :: occurred.map fun (k, n) => "- " ++ entry k n

def statisticsLines (s : RunStatistics) : List String :=
  ["== scan stats ==",
    entries [("candidates", s.scan.candidateFiles), ("scanned", s.scan.scannedFiles),
      ("bytes", s.scan.scannedBytes)]] ++
  skippedLines s ++
  ["== detect stats ==",
    entries [("files", s.detection.tokenizedFiles), ("tokens", s.detection.totalTokens),
      ("candidates", s.detection.repeats), ("duplications", s.detection.duplications)],
    "suppressed: " ++
      entries [("self_overlap", s.detection.overlapping), ("contained", s.detection.contained)]]

def renderStatistics (s : RunStatistics) : String :=
  String.join ((statisticsLines s).map (· ++ "\n"))

end CodeClones.Report.PlainText
