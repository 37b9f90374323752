import CodeClones.CommandLine.Arguments
import CodeClones.Report.Render

/-! A run of the program in a file system. -/

namespace CodeClones.CommandLine

inductive RunFailure
  | scan (cause : Files.ScanError)
  | detection (cause : RunError)
deriving DecidableEq, Repr

def RunFailure.message : RunFailure → String
  | scan cause => "failed to collect source files: " ++ cause.message
  | detection (.tokenization cause) => cause.message ++ ": " ++ cause.cause.message
  | detection cause => cause.message

structure RunResult where
  exitCode : UInt8
  output : String
  errors : String
deriving DecidableEq, Repr

def detect (fs : Files.FileSystem) (a : Arguments) :
    Except RunFailure (Detection × Files.ScanStatistics) := do
  let detector : Detector := {}
  (a.options.validate detector.registry).mapError fun e => .detection (.configuration e)
  let (files, scanned) ← (Files.scan fs a.roots a.scanOptions detector.registry).mapError .scan
  let detection ← (detector.detect files a.options).mapError .detection
  return (detection, scanned)

def exitCode (a : Arguments) (duplications : List Duplication) : UInt8 :=
  if duplications ≠ [] ∧ a.exitsOnViolation then 4 else 0

def run (fs : Files.FileSystem) (a : Arguments) : RunResult :=
  match detect fs a with
  | .error failure => ⟨1, "", "Error: " ++ failure.message ++ "\n"⟩
  | .ok (detection, scanned) =>
      let statistics : RunStatistics := ⟨scanned, detection.statistics⟩
      let wanted := a.has .statistics
      let report : Report := ⟨detection.duplications, if wanted then some statistics else none⟩
      { exitCode := exitCode a detection.duplications
        output := report.render a.reportFormat
        errors := if wanted && !a.reportFormat.showsStatistics
          then Report.PlainText.renderStatistics statistics else "" }

end CodeClones.CommandLine
