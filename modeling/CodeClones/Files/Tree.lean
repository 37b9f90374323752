import CodeClones.Files.Path

/-! File trees, and how paths are followed in them. Nodes may be locked for reasons of some type; over the empty type
nothing is locked. -/

namespace CodeClones.Files

inductive NodeOf (δ : Type)
  | file (content : ByteArray)
  | directory (entries : List (String × NodeOf δ))
  | link (target : String)
  | lockedFile (reason : δ) (size : Nat)
  | lockedDirectory (reason : δ)

structure FileSystemOf (δ : Type) where
  entries : List (String × NodeOf δ)
  workingDirectory : List String

inductive AccessErrorOf (δ : Type)
  | notFound
  | notDirectory
  | tooManyLinks
  | nameTooLong
  | nullCharacter
  | denied (reason : δ)
deriving DecidableEq, Repr

abbrev Node := NodeOf Empty

abbrev FileSystem := FileSystemOf Empty

abbrev AccessError := AccessErrorOf Empty

variable {δ : Type}

def AccessErrorOf.message : AccessErrorOf δ → String
  | notFound => "No such file or directory (os error 2)"
  | notDirectory => "Not a directory (os error 20)"
  | tooManyLinks => "Too many levels of symbolic links (os error 40)"
  | nameTooLong => "File name too long (os error 36)"
  | nullCharacter => "file name contained an unexpected NUL byte"
  | denied _ => "Permission denied (os error 13)"

/-- The way from the topmost directory to a node, with the node at its head. The way to the topmost directory
itself is empty. -/
abbrev Trail (δ : Type) := List (String × NodeOf δ)

/-- The names on the way to a node. No link is on it, so that each node has one such way. -/
def Trail.names (t : Trail δ) : List String := (t.map (·.1)).reverse

namespace NodeOf

def entries? : NodeOf δ → Option (List (String × NodeOf δ))
  | directory entries => some entries
  | _ => none

def search : NodeOf δ → Except (AccessErrorOf δ) (List (String × NodeOf δ))
  | directory entries => .ok entries
  | lockedDirectory reason => .error (.denied reason)
  | _ => .error .notDirectory

def isDirectory : NodeOf δ → Bool
  | directory _ => true
  | lockedDirectory _ => true
  | _ => false

def size? : NodeOf δ → Option Nat
  | file content => some content.size
  | lockedFile _ size => some size
  | _ => none

mutual

def directoryCount : NodeOf δ → Nat
  | directory entries => entryDirectoryCount entries + 1
  | _ => 0

def entryDirectoryCount : List (String × NodeOf δ) → Nat
  | [] => 0
  | (_, n) :: following => n.directoryCount + entryDirectoryCount following

end

end NodeOf

def insertNode (n : NodeOf δ) : List String → List (String × NodeOf δ) → List (String × NodeOf δ)
  | [], entries => entries
  | [name], entries => (name, n) :: entries.filter (·.1 ≠ name)
  | name :: path, entries =>
      let inner := ((entries.lookup name).bind (·.entries?)).getD []
      (name, .directory (insertNode n path inner)) :: entries.filter (·.1 ≠ name)

namespace FileSystemOf

variable (fs : FileSystemOf δ)

def nodeAt (t : Trail δ) : NodeOf δ := (t.head?.map (·.2)).getD (.directory fs.entries)

def maxLinks : Nat := 40

def maxNameLength : Nat := 255

def maxPathLength : Nat := 4095

/-- Follows the pieces of a path from a node on, up to the first link, with which `jump` deals. Every piece, also
an empty one or a dot, asks for a directory to start from. -/
def descend (jump : Trail δ → String → List String → Except (AccessErrorOf δ) (Trail δ)) (t : Trail δ) :
    List String → Except (AccessErrorOf δ) (Trail δ)
  | [] => .ok t
  | piece :: rest =>
      match (fs.nodeAt t).search with
      | .error cause => .error cause
      | .ok entries =>
          if piece = "" ∨ piece = "." then descend jump t rest
          else if piece = ".." then descend jump t.tail rest
          else if maxNameLength < piece.utf8ByteSize then .error .nameTooLong
          else match entries.lookup piece with
            | none => .error .notFound
            | some (.link target) => jump t target rest
            | some n => descend jump ((piece, n) :: t) rest

def follow : (links : Nat) → Trail δ → List String → Except (AccessErrorOf δ) (Trail δ)
  | 0, t, path => fs.descend (fun _ _ _ => .error .tooManyLinks) t path
  | links + 1, t, path =>
      let jump := fun t target rest => follow links (if isAbsolute target then [] else t) (pieces target ++ rest)
      fs.descend jump t path

def locate (path : String) : Except (AccessErrorOf δ) (Trail δ) :=
  if path.toList.contains '\x00' then .error .nullCharacter
  else if path = "" then .error .notFound
  else fs.follow maxLinks [] (if isAbsolute path then pieces path else fs.workingDirectory ++ pieces path)

def resolve (path : String) : Except (AccessErrorOf δ) (Trail δ) :=
  if maxPathLength < path.utf8ByteSize ∧ ¬ path.toList.contains '\x00' then .error .nameTooLong
  else fs.locate path

/-- The names on the one way without links to what a path leads to. They are looked up one by one. -/
def canonical? (path : String) : Option (List String) := (fs.locate path).toOption.map (·.names)

def content? (t : Trail δ) : Option ByteArray :=
  match fs.nodeAt t with
  | .file content => some content
  | _ => none

def isFile (path : String) : Bool := (fs.resolve path).toOption.any fun t => (fs.nodeAt t).size?.isSome

def contentAt? (path : String) : Option ByteArray := (fs.resolve path).toOption.bind fs.content?

/-- What all paths to a file have in common: the one way to it without links. A path that leads nowhere stands
for itself. -/
def identity (path : String) : List String :=
  match fs.canonical? path with
  | some names => "" :: names
  | none => texts (components path)

end FileSystemOf

end CodeClones.Files
