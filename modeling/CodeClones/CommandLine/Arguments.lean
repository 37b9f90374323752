import CodeClones.Report

/-! The arguments of the command line. -/

namespace CodeClones.CommandLine

inductive Switch
  | ignoreIdentifiers
  | ignoreLiterals
  | ignoreMetadata
  | ignoreDirectives
  | skipLexicalErrors
  | failOnLexicalErrors
  | noIgnoreFiles
  | followLinks
  | failOnViolation
  | noFailOnViolation
  | statistics
  | verbose
  | debug
deriving DecidableEq, Repr

inductive Setting
  | files
  | exclude
  | minimumTokens
  | language
  | maxTokens
  | maxFileSize
  | ignoreDirectory
  | format
deriving DecidableEq, Repr

inductive Meaning
  | switch (s : Switch)
  | setting (s : Setting)
  | help
  | version
deriving DecidableEq, Repr

def longOptions : List (String × Meaning) :=
  [("files", .setting .files), ("exclude", .setting .exclude),
    ("minimum-tokens", .setting .minimumTokens), ("language", .setting .language),
    ("ignore-identifiers", .switch .ignoreIdentifiers), ("ignore-literals", .switch .ignoreLiterals),
    ("ignore-annotations", .switch .ignoreMetadata), ("ignore-directives", .switch .ignoreDirectives),
    ("skip-lexical-errors", .switch .skipLexicalErrors),
    ("fail-on-lexical-errors", .switch .failOnLexicalErrors), ("max-tokens", .setting .maxTokens),
    ("no-gitignore", .switch .noIgnoreFiles), ("max-file-size", .setting .maxFileSize),
    ("ignore-dir", .setting .ignoreDirectory), ("follow-symlinks", .switch .followLinks),
    ("format", .setting .format), ("fail-on-violation", .switch .failOnViolation),
    ("no-fail-on-violation", .switch .noFailOnViolation), ("stats", .switch .statistics),
    ("verbose", .switch .verbose), ("debug", .switch .debug), ("help", .help), ("version", .version)]

def shortOptions : List (Char × Meaning) :=
  [('v', .switch .verbose), ('h', .help), ('V', .version)]

def Switch.opposite? : Switch → Option Switch
  | skipLexicalErrors => some failOnLexicalErrors
  | failOnLexicalErrors => some skipLexicalErrors
  | failOnViolation => some noFailOnViolation
  | noFailOnViolation => some failOnViolation
  | _ => none

inductive UsageError
  | invalidValue
  | valueValidation
  | unknownArgument
  | argumentConflict
  | tooManyValues
deriving DecidableEq, Repr

inductive Interruption
  | usage (cause : UsageError)
  | help
  | version
deriving DecidableEq, Repr

structure Arguments where
  paths : List String := []
  files : List String := []
  excludes : List String := []
  minimumTokens : Option Nat := none
  language : Option String := none
  maxTokens : Option Nat := none
  maxFileSize : Option Nat := none
  ignoredDirectories : List String := []
  format : Option Report.Format := none
  switches : List Switch := []
deriving DecidableEq, Repr

/-! ### Reading values -/

def maxNumber : Nat := 18446744073709551615

/-- Reads decimal digits, with or without a plus sign. -/
def number? (text : String) : Option Nat :=
  let digits := if text.toList.head? = some '+' then text.toList.tail else text.toList
  if digits ≠ [] ∧ digits.all Char.isDigit then
    let n := digits.foldl (fun n c => n * 10 + (c.toNat - '0'.toNat)) 0
    if n ≤ maxNumber then some n else none
  else none

def readPath (text : String) : Except UsageError String :=
  if text = "" then .error .invalidValue else .ok text

def once {α : Type} (given : Option α) (read : Except UsageError α) : Except UsageError (Option α) :=
  match given with
  | some _ => .error .argumentConflict
  | none => read.map some

def readNumber (text : String) : Except UsageError Nat := (number? text).elim (.error .valueValidation) .ok

def readFormat (text : String) : Except UsageError Report.Format :=
  (Report.Format.ofName? text).elim (.error .invalidValue) .ok

namespace Arguments

def set (a : Arguments) (s : Setting) (text : String) : Except UsageError Arguments :=
  match s with
  | .files => (readPath text).map fun p => { a with files := a.files ++ [p] }
  | .exclude => (readPath text).map fun p => { a with excludes := a.excludes ++ [p] }
  | .minimumTokens => (once a.minimumTokens (readNumber text)).map ({ a with minimumTokens := · })
  | .language => (once a.language (.ok text)).map ({ a with language := · })
  | .maxTokens => (once a.maxTokens (readNumber text)).map ({ a with maxTokens := · })
  | .maxFileSize => (once a.maxFileSize (readNumber text)).map ({ a with maxFileSize := · })
  | .ignoreDirectory => .ok { a with ignoredDirectories := a.ignoredDirectories ++ [text] }
  | .format => (once a.format (readFormat text)).map ({ a with format := · })

def turnOn (a : Arguments) (s : Switch) : Except UsageError Arguments :=
  if a.switches.contains s then .error .argumentConflict
  else .ok { a with switches := s :: a.switches.filter fun t => s.opposite? ≠ some t }

def addPaths (a : Arguments) (paths : List String) : Except UsageError Arguments :=
  (paths.mapM readPath).map fun ps => { a with paths := a.paths ++ ps }

end Arguments

/-! ### Reading arguments -/

inductive Pending
  | nothing
  | setting (s : Setting) (value : Option String)
  /-- Paths, from last to first. -/
  | paths (reversed : List String)
deriving DecidableEq, Repr

structure Reader where
  taken : Arguments := {}
  pending : Pending := .nothing
  onlyPaths : Bool := false
deriving DecidableEq, Repr

namespace Reader

def settle (r : Reader) : Except UsageError Arguments :=
  match r.pending with
  | .nothing => .ok r.taken
  | .setting _ none => .error .invalidValue
  | .setting s (some value) => r.taken.set s value
  | .paths reversed => r.taken.addPaths reversed.reverse

def option (r : Reader) (m : Meaning) (value : Option String) : Except Interruption Reader :=
  match m, value with
  | .setting s, some value =>
      ((r.settle.bind (·.set s value)).mapError .usage).map ({ taken := · })
  | .setting s, none => (r.settle.mapError .usage).map ({ taken := ·, pending := .setting s none })
  | _, some _ => .error (.usage .tooManyValues)
  | .switch s, none => ((r.settle.bind (·.turnOn s)).mapError .usage).map ({ taken := · })
  | .help, none => (r.settle.mapError .usage).bind fun _ => .error .help
  | .version, none => (r.settle.mapError .usage).bind fun _ => .error .version

def path (r : Reader) (text : String) : Except Interruption Reader :=
  match r.pending with
  | .paths reversed => .ok { r with pending := .paths (text :: reversed) }
  | _ => (r.settle.mapError .usage).map ({ r with taken := ·, pending := .paths [text] })

def plain (r : Reader) (text : String) : Except Interruption Reader :=
  match r.pending with
  | .setting s none => .ok { r with pending := .setting s (some text) }
  | _ => r.path text

def long (r : Reader) (text : List Char) : Except Interruption Reader :=
  let name := text.takeWhile (· ≠ '=')
  let value := match text.drop name.length with
    | [] => none
    | _ :: value => some (String.ofList value)
  match longOptions.lookup (String.ofList name) with
  | none => .error (.usage .unknownArgument)
  | some m => r.option m value

def short (r : Reader) (text : List Char) : Except Interruption Reader :=
  text.foldlM (fun r c =>
    match shortOptions.lookup c with
    | none => .error (.usage .unknownArgument)
    | some m => r.option m none) r

def argument (r : Reader) (text : String) : Except Interruption Reader :=
  if r.onlyPaths then r.path text
  else match text.toList with
    | ['-', '-'] => .ok { r with onlyPaths := true }
    | '-' :: '-' :: name => r.long name
    | '-' :: c :: more => r.short (c :: more)
    | _ => r.plain text

end Reader

def parse (arguments : List String) : Except Interruption Arguments :=
  (arguments.foldlM Reader.argument {}).bind fun r => r.settle.mapError .usage

/-! ### What the arguments ask for -/

namespace Arguments

variable (a : Arguments)

def has (s : Switch) : Bool := a.switches.contains s

def roots : List String :=
  match a.paths ++ a.files with
  | [] => ["."]
  | roots => roots

def options : Options where
  minimumTokens := a.minimumTokens.getD 100
  language := a.language.getD "java"
  normalization := {
    ignoreIdentifiers := a.has .ignoreIdentifiers
    ignoreLiterals := a.has .ignoreLiterals
    ignoreMetadata := a.has .ignoreMetadata
    ignoreDirectives := a.has .ignoreDirectives }
  failOnTokenizationError := a.has .failOnLexicalErrors
  maxTokens := a.maxTokens

def scanOptions : Files.ScanOptions where
  ignoredDirectories := Files.defaultIgnoredDirectories ++ a.ignoredDirectories
  language := some (a.language.getD "java")
  excludes := a.excludes
  maxFileSize := some (a.maxFileSize.getD 10485760)
  respectIgnoreFiles := !a.has .noIgnoreFiles
  followLinks := a.has .followLinks

def reportFormat : Report.Format := a.format.getD .text

def exitsOnViolation : Bool := !a.has .noFailOnViolation

def logLevel? : Option String :=
  if a.has .debug then some "debug" else if a.has .verbose then some "info" else none

end Arguments

end CodeClones.CommandLine
