import StableFormat.CommandLine.Run

/-!
# The program

Takes a picture of the files that a command can reach, runs the command on it and carries the
changes over to the disk.
-/

namespace StableFormat.Program

/-- A path as the operations on files take it. -/
def onDisk (place : Place) : IO.FS.DirEntry :=
  ⟨"/", Text.joinStrings '/' place⟩

/-- The place that a path names, with `..` taken by name. -/
def placeOf (path : Pathname) : Place :=
  path.components.foldl
    (fun place c =>
      match c with
      | .normal name => place ++ [name]
      | .parent => place.dropLast
      | _ => place)
    []

/-- What stands at a place on the disk, and the names below it if it is a directory. -/
def look (place : Place) : IO (Option (Node × List String)) := do
  let path := (onDisk place).path
  if ← path.isDir then
    return some (.directory, (← path.readDir).toList.map (·.fileName))
  else if ← path.pathExists then
    return some (.file (.ofBytes (← IO.FS.readBinFile path)), [])
  else return none

/-- Adds the entries at a place and up to `depth` directories below it, the last one first. -/
def picture : (depth : Nat) → List (Place × Node) → Place → IO (List (Place × Node))
  | 0, entries, place => do
    match ← look place with
    | some (node, _) => return (place, node) :: entries
    | none => return entries
  | depth + 1, entries, place => do
    match ← look place with
    | some (node, names) =>
      names.foldlM (fun entries name => picture depth entries (place ++ [name]))
        ((place, node) :: entries)
    | none => return entries

/-- The directories that lead to a place, the root left out. -/
def placesAbove (place : Place) : List Place :=
  (List.range (place.length - 1)).map fun n => place.take (n + 1)

/-- The picture of some places, each up to a depth, and of the directories that lead to them. -/
def pictures (places : List (Nat × Place)) : IO FileTree :=
  places.foldlM
    (fun tree (depth, place) => do
      let above ← (placesAbove place).foldlM (picture 0) []
      let entries ← picture depth above place
      let fresh := entries.reverse.filter fun e =>
        !e.1.isEmpty && (tree.entries.lookup e.1).isNone
      return ⟨fresh ++ tree.entries⟩)
    { }

/-- The places that say how a command is configured. -/
def configPlaces (env : Environment) (o : CommandLine.Options) : List Place :=
  let root := env.absolute ((o.root.map Pathname.mk).getD env.workingDirectory)
  let directories := root.ancestors ++ env.home?.toList.map env.absolute
  [placeOf env.workingDirectory, placeOf root] ++
    (o.config.toList.map fun path => placeOf (env.absolute ⟨path⟩)) ++
    (env.workspace?.toList.map fun path => placeOf (env.absolute path)) ++
    directories.map fun directory => placeOf (directory.child Config.fileName)

/-- The places that a command works on. -/
def workPlaces (job : CommandLine.Job) (o : CommandLine.Options) : List Place :=
  placeOf job.root :: placeOf (CommandLine.Job.diagnoseRoot job.root job.config) ::
    o.paths.map fun path => placeOf (job.root.join ⟨path⟩)

/-- Puts a file into its place in one go. -/
def writeFile (place : Place) (content : Content) : IO Unit := do
  let bytes :=
    match content with
    | .text s => s.toUTF8
    | .binary bytes => ⟨bytes.toArray⟩
  let fresh := (onDisk (place.dropLast ++ [place.getLast?.getD "" ++ ".new"])).path
  IO.FS.writeBinFile fresh bytes
  IO.FS.rename fresh (onDisk place).path

/-- Carries the difference between two pictures over to the disk. -/
def carryOver (old new : FileTree) : IO Unit := do
  for (place, _) in old.entries do
    let path := (onDisk place).path
    if (new.get? place).isNone ∧ (new.get? place.dropLast).isSome then
      if ← path.isDir then IO.FS.removeDirAll path else IO.FS.removeFile path
  for (place, node) in new.entries do
    if old.get? place ≠ some node then
      match node with
      | .directory => IO.FS.createDirAll (onDisk place).path
      | .file content => writeFile place content

/-- The environment of the process. -/
def environment : IO Environment := do
  let names := ["HOME", "USERPROFILE", "GITHUB_WORKSPACE", "PADCELL_SKIP_GITHUB_ACTIONS",
    "PADCELL_SIMPLE_GLYPHS"]
  let assignments ← names.filterMapM fun name => do
    return (← IO.getEnv name).map fun value => (name, value)
  return ⟨⟨(← IO.currentDir).toString⟩, assignments⟩

/-- The picture that a command line needs. -/
def pictureFor (env : Environment) (arguments : List String) : IO FileTree := do
  match CommandLine.Args.read arguments with
  | .error _ => return { }
  | .ok args =>
    let files ← pictures ((configPlaces env args.options).map fun place => (0, place))
    match args.prepare env files with
    | .error _ => return files
    | .ok (job, _) =>
      let places := (workPlaces job args.options).map fun place => (FileTree.maxDepth, place)
      pictures (places ++ (configPlaces env args.options).map fun place => (0, place))

/-- Runs a command line and gives its exit status. -/
def runMain (arguments : List String) : IO UInt32 := do
  let env ← environment
  let files ← pictureFor env arguments
  let result := CommandLine.run env files arguments
  carryOver files result.files
  IO.print result.stdout
  IO.eprint result.stderr
  return result.status.toUInt32

end StableFormat.Program

def main (arguments : List String) : IO UInt32 :=
  StableFormat.Program.runMain arguments
