import CodeClones.Files.IgnoreRule
import CodeClones.Files.Tree

/-! Visiting what is below a directory. -/

namespace CodeClones.Files

inductive EntryKind
  | file
  | directory
  | other
deriving DecidableEq, Repr

structure Entry where
  path : String
  name : String
  depth : Nat
  isLink : Bool
  kind : Option EntryKind
deriving DecidableEq, Repr

structure WalkOptions where
  keeps : Entry → Bool
  respectIgnoreFiles : Bool
  respectExcludeFiles : Bool
  followLinks : Bool

/-- What a walk below a path comes to, and what it fails at. Not every failure is one of the file system. -/
abbrev Walker (δ : Type) := WalkOptions → String → List (Except (Option (AccessErrorOf δ)) Entry)

variable {δ : Type}

def NodeOf.kind : NodeOf δ → EntryKind
  | file _ => .file
  | lockedFile _ _ => .file
  | directory _ => .directory
  | lockedDirectory _ => .directory
  | link _ => .other

namespace FileSystemOf

variable (fs : FileSystemOf δ) (o : WalkOptions)

def rulesAt (path : List Char) : List IgnoreRule :=
  match fs.contentAt? (String.ofList path) with
  | some content => IgnoreRule.ofBytes content.data.toList
  | none => []

def scopesOf (path : List Char) : List IgnoreScope :=
  if o.respectIgnoreFiles then
    ⟨fs.rulesAt (enter path ".gitignore"), path⟩ ::
      if o.respectExcludeFiles then
        [⟨fs.rulesAt (enter (enter (enter path ".git") "info") "exclude"), path⟩]
      else []
  else []

structure Visit where
  path : List Char
  ancestors : List (List String) := []
  scopes : List IgnoreScope := []

def Visit.opened (v : Visit) (t : Trail δ) : Visit :=
  { v with ancestors := t.names :: v.ancestors, scopes := v.scopes ++ fs.scopesOf o v.path }

/-- What the entry of a directory leads to. A link to a directory on the way to itself leads nowhere. -/
def Visit.target (v : Visit) (entry : String × NodeOf δ) : Except (AccessErrorOf δ) (NodeOf δ) :=
  match entry.2 with
  | .link _ =>
      if o.followLinks then do
        let t ← fs.resolve (String.ofList (Files.enter v.path entry.1))
        if (fs.nodeAt t).isDirectory ∧ v.ancestors.contains t.names then throw .tooManyLinks
        else return fs.nodeAt t
      else return entry.2
  | n => return n

def Visit.entry (v : Visit) (entry : String × NodeOf δ) (n : NodeOf δ) : Entry where
  path := String.ofList (Files.enter v.path entry.1)
  name := entry.1
  depth := v.ancestors.length
  isLink := entry.2 matches .link _
  kind := n.kind

def Visit.passes (v : Visit) (e : Entry) : Bool :=
  v.scopes.any (·.ignores e.path.toList (e.kind = some .directory)) || !o.keeps e

def visit : (fuel : Nat) → Visit → List (Except (Option (AccessErrorOf δ)) Entry)
  | 0, _ => []
  | fuel + 1, v =>
      match fs.resolve (String.ofList v.path) with
      | .error cause => [.error cause]
      | .ok t =>
          match (fs.nodeAt t).search with
          | .error cause => [.error cause]
          | .ok entries =>
              let v := v.opened fs o t
              entries.flatMap fun entry =>
                match v.target fs o entry with
                | .error cause => [.error cause]
                | .ok n =>
                    let e := v.entry entry n
                    if v.passes o e then []
                    else .ok e :: if n.isDirectory then visit fuel { v with path := e.path.toList } else []

/-- The greatest depth of a walk. Each link on a way leads to another directory, and between two links the way
leads down the tree. -/
def maxDepth : Nat :=
  let steps := NodeOf.entryDirectoryCount fs.entries + 2
  steps * steps

/-- A walk through the tree. A single hyphen stands for the input of the program, below which there is nothing. -/
def walk : Walker δ := fun o path =>
  let below := if components path = [.name "-"] then [] else fs.visit o fs.maxDepth { path := path.toList }
  .ok { path, name := path, depth := 0, isLink := false, kind := none } :: below

end FileSystemOf

end CodeClones.Files
