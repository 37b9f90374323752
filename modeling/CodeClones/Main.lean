import CodeClones.CommandLine.Run

/-! The program. It takes a picture of the files that its arguments lead to, runs in the picture and prints
what the run leaves behind. -/

namespace CodeClones.Picture

open Files

structure State where
  followLinks : Bool
  entries : List (String × Node) := []
  waiting : List String := []
  added : List String := []

abbrev Camera := StateT State IO

def absolute (names : List String) : String := "/" ++ "/".intercalate names

def noName : String := "\x00"

/-- The path without links to what a link leads to. A link that leads nowhere keeps its fault: its target is
missing, or the link itself. -/
def linkTarget (names : List String) : IO String := do
  let path := (← IO.currentDir) / absolute names
  try
    discard path.metadata
    return (← IO.FS.realPath path).toString
  catch
    | .noFileOrDirectory .. => return noName
    | _ => return absolute names

def put (names : List String) (n : Node) : Camera Unit :=
  modify fun s => { s with entries := insertNode n names s.entries }

def readNode (names : List String) : Camera (Option Node) := do
  let path := (← IO.currentDir) / absolute names
  try
    match (← path.symlinkMetadata).type with
    | .dir => return some (.directory [])
    | .file => return some (.file (← IO.FS.readBinFile path))
    | .symlink =>
        let target ← linkTarget names
        if (← path.pathExists) && ((← get).followLinks || !(← path.isDir)) then
          modify fun s => { s with waiting := target :: s.waiting }
        return some (.link target)
    | .other => return none
  catch _ => return none

partial def addBelow (names : List String) : Camera Unit := do
  let path := (← IO.currentDir) / absolute names
  let found ← try path.readDir catch _ => pure #[]
  for entry in found do
    let inner := names ++ [entry.fileName]
    if let some n ← readNode inner then
      put inner n
      if n.isDirectory then addBelow inner

partial def addAlong (names path : List String) : Camera Unit := do
  match path with
  | [] =>
      unless (← get).added.contains (absolute names) do
        modify fun s => { s with added := absolute names :: s.added }
        addBelow names
  | piece :: rest =>
      if piece = "" || piece = "." then addAlong names rest
      else if piece = ".." then addAlong names.dropLast rest
      else
        let inner := names ++ [piece]
        match ← readNode inner with
        | none => return
        | some (.directory _) =>
            let fs : FileSystem := ⟨(← get).entries, []⟩
            unless (fs.follow 0 [] inner).isOk do put inner (.directory [])
            addAlong inner rest
        | some (.file content) => put inner (.file content)
        | some (.link target) =>
            put inner (.link target)
            unless target = noName || target = absolute inner do addAlong [] (pieces target ++ rest)

partial def addWaiting : Camera Unit := do
  match (← get).waiting with
  | [] => return
  | path :: others =>
      modify fun s => { s with waiting := others }
      addAlong [] (pieces path)
      addWaiting

def take (followLinks : Bool) (paths : List String) : IO FileSystem := do
  let workingDirectory := (pieces (← IO.currentDir).toString).filter (· ≠ "")
  let waiting := paths.map fun p => if isAbsolute p then p else absolute workingDirectory ++ "/" ++ p
  let start : State := { followLinks, waiting }
  let ((), s) ← addWaiting.run start
  return ⟨s.entries, workingDirectory⟩

end CodeClones.Picture

namespace CodeClones

def usage : String :=
  "Usage: code-clones [OPTIONS] [PATH]...\n\n" ++
    "Finds runs of tokens that occur more than once in source files.\n\n" ++
    "Options: " ++ ", ".intercalate (CommandLine.longOptions.map ("--" ++ ·.1)) ++ "\n" ++
    "Exit codes: 0 = no duplications, 4 = duplications found, 1 = error.\n"

end CodeClones

open CodeClones in
def main (arguments : List String) : IO UInt32 := do
  match CommandLine.parse arguments with
  | .error .help => IO.print usage; return 0
  | .error .version => IO.println "code-clones 0.1.0"; return 0
  | .error (.usage _) => IO.eprint usage; return 1
  | .ok a =>
      let picture ← Picture.take a.scanOptions.followLinks (a.roots ++ a.excludes)
      let result := CommandLine.run picture a
      IO.print result.output
      IO.eprint result.errors
      return result.exitCode.toUInt32
