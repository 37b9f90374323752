/-! Paths as texts and as lists of components. -/

namespace CodeClones.Files

inductive Component
  | root
  | current
  | parent
  | name (text : String)
deriving DecidableEq, Repr

def pieces (path : String) : List String := (path.toList.splitOn '/').map String.ofList

def isAbsolute (path : String) : Bool := path.toList.head? = some '/'

def component? (piece : String) : Option Component :=
  if piece = "" ∨ piece = "." then none
  else if piece = ".." then some .parent
  else some (.name piece)

/-- Empty pieces and dots mean nothing, except for a dot at the head of a relative path. -/
def components (path : String) : List Component :=
  if isAbsolute path then .root :: (pieces path).filterMap component?
  else match pieces path with
    | "." :: following => .current :: following.filterMap component?
    | all => all.filterMap component?

/-- A path without the dot at its head. Nothing else is resolved. -/
def lexical (path : List Component) : List Component := path.filter (· ≠ .current)

def Component.text : Component → String
  | root => ""
  | current => "."
  | parent => ".."
  | name text => text

def texts (path : List Component) : List String := path.map (·.text)

def display (path : List Component) : String :=
  let path := lexical path
  let text := if path = [.root] then "/" else "/".intercalate (texts path)
  text.map fun c => if c = '\\' then '/' else c

def enter (directory : List Char) (name : String) : List Char :=
  match directory.getLast? with
  | none | some '/' => directory ++ name.toList
  | some _ => directory ++ '/' :: name.toList

def dropDot : List Char → List Char
  | '.' :: '/' :: path => path
  | path => path

/-- What stands behind the last dot of a name, unless the dot is the name's first character. -/
def extensionOf? (name : String) : Option String :=
  let reversed := name.toList.reverse
  let ending := reversed.takeWhile (· ≠ '.')
  match reversed.drop ending.length with
  | _ :: _ :: _ => some (String.ofList ending.reverse)
  | _ => none

def extension? (path : List Component) : Option String :=
  match path.getLast? with
  | some (.name text) => extensionOf? text
  | _ => none

end CodeClones.Files
