import CodeClones.Detector
import CodeClones.Files.Scan

/-! What a report is about. -/

namespace CodeClones

structure RunStatistics where
  scan : Files.ScanStatistics
  detection : DetectionStatistics
deriving DecidableEq, Repr

structure Report where
  duplications : List Duplication
  statistics : Option RunStatistics
deriving DecidableEq, Repr

namespace Report

inductive Format
  | text
  | json
  | csv
  | xml
deriving DecidableEq, Repr

namespace Format

def name : Format → String
  | text => "text"
  | json => "json"
  | csv => "csv"
  | xml => "xml"

def all : List Format := [text, json, csv, xml]

def ofName? (name : String) : Option Format := all.find? (·.name = name)

def showsStatistics (f : Format) : Bool := f = json

theorem ofName?_name (f : Format) : ofName? f.name = some f := by
  cases f <;> decide

end Format

def digits (n : Nat) : List Char := Nat.toDigits 10 n

end Report

end CodeClones
