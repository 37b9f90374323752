import Std.Data.TreeSet
import CodeClones.Files.Walk
import CodeClones.Options

/-! Collecting the source files below given paths. -/

namespace CodeClones.Files

def defaultIgnoredDirectories : List String :=
  [".git", ".hg", ".svn", "node_modules", "target", "dist", "build", "out", ".next", ".turbo", ".cache"]

structure ScanOptions where
  ignoredDirectories : List String := defaultIgnoredDirectories
  /-- The language whose files are collected. Without it, the files of all languages are, and each declares
  its own. -/
  language : Option String := none
  excludes : List String := []
  maxFileSize : Option Nat := some 10485760
  respectIgnoreFiles : Bool := true
  followLinks : Bool := false
deriving DecidableEq, Repr

structure ScanStatistics where
  candidateFiles : Nat := 0
  scannedFiles : Nat := 0
  scannedBytes : Nat := 0
  notFound : Nat := 0
  permissionDenied : Nat := 0
  tooLarge : Nat := 0
  binary : Nat := 0
  excluded : Nat := 0
  walkErrors : Nat := 0
deriving DecidableEq, Repr

inductive ScanErrorOf (δ : Type)
  | noPaths
  | inaccessible (path : String) (cause : AccessErrorOf δ)
  | unknownLanguage (language : String)
deriving DecidableEq, Repr

abbrev ScanError := ScanErrorOf Empty

variable {δ : Type}

def ScanErrorOf.message : ScanErrorOf δ → String
  | noPaths => "no input paths given"
  | inaccessible path cause => "path " ++ path ++ ": " ++ cause.message
  | unknownLanguage language => "unknown language " ++ Text.quoted language

inductive SkipReason
  | notFound
  | permissionDenied
  | tooLarge
  | binary
  | excluded
  | walkError
deriving DecidableEq, Repr

def SkipReason.ofAccess : AccessErrorOf δ → SkipReason
  | .notFound => notFound
  | .denied _ => permissionDenied
  | _ => walkError

def ScanStatistics.skip (s : ScanStatistics) : SkipReason → ScanStatistics
  | .notFound => { s with notFound := s.notFound + 1 }
  | .permissionDenied => { s with permissionDenied := s.permissionDenied + 1 }
  | .tooLarge => { s with tooLarge := s.tooLarge + 1 }
  | .binary => { s with binary := s.binary + 1 }
  | .excluded => { s with excluded := s.excluded + 1 }
  | .walkError => { s with walkErrors := s.walkErrors + 1 }

structure Selection where
  registry : Registry
  only : Option Tokenizer

namespace Selection

def ofOptions (o : ScanOptions) (r : Registry) : Except (ScanErrorOf δ) Selection :=
  match o.language with
  | none => .ok ⟨r, none⟩
  | some language =>
      match r.get? language with
      | some t => .ok ⟨r, some t⟩
      | none => .error (.unknownLanguage language)

def accepts (s : Selection) (path : String) : Bool :=
  (extension? (components path)).any fun extension =>
    match s.only with
    | some t => t.claims extension
    | none => (s.registry.languageFor? extension).isSome

def languageOf? (s : Selection) (path : String) : Option String :=
  match s.only with
  | some _ => none
  | none => (extension? (components path)).bind s.registry.languageFor?

def sourceFile (s : Selection) (path : String) (content : ByteArray) : SourceFile :=
  { SourceFile.ofBytes (display (components path)) content.data.toList with language := s.languageOf? path }

end Selection

structure Excludes where
  lexical : List (List Component)
  canonical : List (List String)
deriving DecidableEq, Repr

namespace Excludes

def ofPaths (fs : FileSystemOf δ) (paths : List String) : Excludes :=
  ⟨paths.map fun p => Files.lexical (components p), paths.filterMap fs.canonical?⟩

def contains (fs : FileSystemOf δ) (e : Excludes) (path : String) : Bool :=
  e.lexical.any (·.isPrefixOf (Files.lexical (components path))) ||
    (fs.canonical? path).any fun names => e.canonical.any (·.isPrefixOf names)

end Excludes

/-- Reads a file that is to be taken, or says why it is left out. The size is looked at before it is opened. -/
def readSource (fs : FileSystemOf δ) (maxSize : Option Nat) (path : String) : Except SkipReason ByteArray :=
  match fs.resolve path with
  | .error cause => .error (.ofAccess cause)
  | .ok t =>
      if (fs.nodeAt t).size?.any fun size => maxSize.any (· < size) then .error .tooLarge
      else match fs.nodeAt t with
        | .file content => if content.data.contains 0 then .error .binary else .ok content
        | .lockedFile _ _ => .error .permissionDenied
        | .lockedDirectory _ => .error .permissionDenied
        | _ => .error .walkError

abbrev FileSet := Std.TreeSet (List String)

structure ScanState where
  files : List SourceFile := []
  met : FileSet := ∅
  statistics : ScanStatistics := {}

namespace ScanState

def skip (s : ScanState) (reason : SkipReason) : ScanState :=
  { s with statistics := s.statistics.skip reason }

def take (s : ScanState) (file : SourceFile) (size : Nat) : ScanState :=
  { s with
    files := file :: s.files
    statistics := { s.statistics with
      scannedFiles := s.statistics.scannedFiles + 1
      scannedBytes := s.statistics.scannedBytes + size } }

def meet (s : ScanState) (file : List String) : ScanState := { s with met := s.met.insert file }

def add (fs : FileSystemOf δ) (o : ScanOptions) (selection : Selection) (e : Excludes) (s : ScanState) (path : String) :
    ScanState :=
  if e.contains fs path then s.skip .excluded
  else if s.met.contains (fs.identity path) then s
  else
    match readSource fs o.maxFileSize path with
    | .error reason => (s.meet (fs.identity path)).skip reason
    | .ok content => (s.meet (fs.identity path)).take (selection.sourceFile path content) content.size

end ScanState

def ScanOptions.keeps (o : ScanOptions) (e : Entry) : Bool :=
  e.depth = 0 ||
    (o.followLinks || !e.isLink) && !(e.kind = some .directory && o.ignoredDirectories.contains e.name)

def ScanOptions.walkOptions (o : ScanOptions) (fs : FileSystemOf δ) (path : String) : WalkOptions where
  keeps := o.keeps
  respectIgnoreFiles := o.respectIgnoreFiles
  respectExcludeFiles := o.respectIgnoreFiles && (fs.resolve (String.ofList (enter path.toList ".git"))).isOk
  followLinks := o.followLinks

def Entry.filePath? (e : Entry) : Option String :=
  if 0 < e.depth ∧ e.kind = some .file then some e.path else none

def SkipReason.ofFailure (cause : Option (AccessErrorOf δ)) : SkipReason := cause.elim walkError ofAccess

def walkFiles (walk : Walker δ) (fs : FileSystemOf δ) (o : ScanOptions) (path : String) :
    List String × List SkipReason :=
  let results := walk (o.walkOptions fs path) path
  (results.filterMap fun result => result.toOption.bind (·.filePath?), results.filterMap fun
    | .ok _ => none
    | .error cause => some (.ofFailure cause))

def candidates (walk : Walker δ) (fs : FileSystemOf δ) (o : ScanOptions) (selection : Selection) (path : String) :
    List String × List SkipReason :=
  if fs.isFile path then ([path], [])
  else
    let (files, failures) := walkFiles walk fs o path
    let accepted := files.filter selection.accepts
    (accepted.mergeSort fun p q => !decide (texts (components q) < texts (components p)), failures)

def ScanState.addPath (walk : Walker δ) (fs : FileSystemOf δ) (o : ScanOptions) (selection : Selection) (e : Excludes)
    (s : ScanState) (path : String) : ScanState :=
  let (found, failures) := candidates walk fs o selection path
  let statistics := failures.foldl ScanStatistics.skip s.statistics
  let statistics := { statistics with candidateFiles := statistics.candidateFiles + found.length }
  found.foldl (ScanState.add fs o selection e) { s with statistics }

def checkPaths (fs : FileSystemOf δ) (paths : List String) : Except (ScanErrorOf δ) Unit :=
  if paths = [] then .error .noPaths
  else paths.forM fun path => (fs.resolve path).map (fun _ => ()) |>.mapError (.inaccessible path)

def scanWith (walk : Walker δ) (fs : FileSystemOf δ) (paths : List String) (o : ScanOptions) (r : Registry) :
    Except (ScanErrorOf δ) (List SourceFile × ScanStatistics) := do
  checkPaths fs paths
  let selection ← Selection.ofOptions o r
  let s := paths.foldl (ScanState.addPath walk fs o selection (.ofPaths fs o.excludes)) {}
  return (s.files.reverse, s.statistics)

def scan (fs : FileSystem) : List String → ScanOptions → Registry →
    Except ScanError (List SourceFile × ScanStatistics) :=
  scanWith fs.walk fs

end CodeClones.Files
