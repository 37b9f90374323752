import CodeClones.Files.Path
import CodeClones.Text.Blank

/-! Rules that keep files and directories from being visited, as files of such rules list them. -/

namespace CodeClones.Files

structure IgnoreRule where
  /-- Whether the rule is about one place only, as seen from its file's directory, and not about all depths. -/
  anchored : Bool
  directoriesOnly : Bool
  /-- Patterns for the names of a path. An asterisk stands for any characters. -/
  patterns : List (List Char)
deriving DecidableEq, Repr

def fitsPattern (pattern name : List Char) : Bool :=
  match pattern, name with
  | [], name => name = []
  | '*' :: following, [] => fitsPattern following []
  | '*' :: following, c :: name => fitsPattern following (c :: name) || fitsPattern ('*' :: following) name
  | _ :: _, [] => false
  | p :: following, c :: name => p = c && fitsPattern following name
termination_by pattern.length + name.length

def fitsPatterns : List (List Char) → List String → Bool
  | [], [] => true
  | pattern :: patterns, name :: names => fitsPattern pattern name.toList && fitsPatterns patterns names
  | _, _ => false

namespace IgnoreRule

/-- The rule that a line states. Empty lines and those that begin with a number sign state none, nor does a
line that ends with a dot, unless it is about one place only and has no asterisk: names that end with a dot
have no ending to be compared. -/
def ofLine? (line : List Char) : Option IgnoreRule :=
  let line := (line.reverse.dropWhile Text.isBlank).reverse
  if line.head?.all (· = '#') then none
  else
    let body := if line.getLast? = some '/' then line.dropLast else line
    let path := if body.head? = some '/' then body.tail else body
    let patterns := path.splitOn '/'
    let anchored := path ≠ body || 1 < patterns.length
    if path.getLast? = some '.' ∧ (¬ anchored ∨ path.contains '*') then none
    else some ⟨anchored, body ≠ line, patterns⟩

/-- The lines of a file up to the first one that is not UTF-8. -/
def validLines (bytes : List UInt8) : List (List Char) :=
  let texts := (bytes.splitOn 10).map fun line => String.fromUTF8? ⟨line.toArray⟩
  (texts.takeWhile Option.isSome).map fun text => (text.getD "").toList

def ofBytes (bytes : List UInt8) : List IgnoreRule :=
  match validLines bytes with
  | [] => []
  | first :: following => (first.dropWhile (· = '\uFEFF') :: following).filterMap ofLine?

def applies (r : IgnoreRule) (path : List String) (isDirectory : Bool) : Bool :=
  (isDirectory || !r.directoriesOnly) &&
    fitsPatterns r.patterns (if r.anchored then path else path.getLast?.toList)

end IgnoreRule

structure IgnoreScope where
  rules : List IgnoreRule
  directory : List Char
deriving DecidableEq, Repr

/-- The path of an entry as seen from a directory above it. Only the texts of the two paths are compared: a
dot at the head is dropped once from the directory's path and twice from the entry's one, and what remains of
the directory's path is dropped if the entry's path begins with it. From the working directory, named by dots
only, nothing more is dropped. -/
def pathFrom (directory entry : List Char) : List Char :=
  let directory := dropDot directory
  let entry := dropDot (dropDot entry)
  if components (String.ofList directory) = [.current] ∨ ¬ entry.contains '/' then entry
  else if directory.isPrefixOf entry then
    match entry.drop directory.length with
    | '/' :: path => path
    | path => path
  else entry

def IgnoreScope.ignores (s : IgnoreScope) (entry : List Char) (isDirectory : Bool) : Bool :=
  s.rules.any (·.applies (pieces (String.ofList (pathFrom s.directory entry))) isDirectory)

end CodeClones.Files
