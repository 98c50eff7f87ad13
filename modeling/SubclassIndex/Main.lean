import SubclassIndex.Cli.Program

/-!
# Running the program

The program works on a disk in memory. What a request looks at is taken there from the file system
first, and what the program has changed is put back afterwards.
-/

namespace SubclassIndex.Cli

/-- A place as the file system names it. -/
def systemName (place : Place) : String :=
  "/" ++ "/".intercalate (place.map fun n => (String.fromUTF8? ⟨n.toArray⟩).getD "")

/-- The place with a name of the file system. -/
def placeNamed (name : String) : Place :=
  ((name.splitOn "/").filter fun part => !part.isEmpty).map fun part => part.toUTF8.toList

/-- Takes over what is in a place. -/
def takeNode (d : Disk) (place : Place) : IO Disk := do
  let path := (← IO.currentDir) / systemName place
  if ← path.isDir then return d.put place .directory
  else if ← path.pathExists then
    return d.put place (.file (← IO.FS.readBinFile path).toList)
  else return d

/-- Takes over what a path leads to, and the directories on the way. -/
def takePath (d : Disk) (p : Path) : IO (Disk × Place) := do
  let mut d := d
  let mut place := d.startOf p
  for part in p.parts do
    place := if part = Path.up then place.dropLast else place ++ (DiskName.ofText? part).toList
    d ← takeNode d place
  return (d, place)

/-- Takes over a place and all below it. -/
partial def takeTree (d : Disk) (place : Place) : IO Disk := do
  let mut d ← takeNode d place
  let path := (← IO.currentDir) / systemName place
  if ← path.isDir then
    for entry in ← path.readDir do
      d ← takeTree d (place ++ [entry.fileName.toUTF8.toList])
  return d

/-- The current directory on a disk with nothing else. -/
def startingDisk : IO Disk := do
  let current := placeNamed (← IO.currentDir).toString
  let mut d : Disk := ⟨∅, current⟩
  for n in List.range current.length do
    d := d.put (current.take (n + 1)) .directory
  return d

/-- Takes over what a request looks at: the settings file, the index, and for a build all
sources. -/
def takeFor (r : Request) (d : Disk) : IO Disk := do
  let (d, _) ← takePath d (settingsPath r.options d)
  match settingsOf r.options d with
  | .error _ => return d
  | .ok s =>
    let mut (d, _) ← takePath d s.outputFile
    if let .build := r.task then
      for archive in s.archives.filterMap Document.Value.asText? do
        (d, _) ← takePath d (.ofText archive)
      let (d', place) ← takePath d s.classesPath
      d ← takeTree d' place
    return d

/-- Puts back the directories and files that have changed. A file is moved over the old one. -/
def putBack (before after : Disk) : IO Unit := do
  for (place, node) in after.nodes.entries do
    if before.node? place ≠ some node then
      match node with
      | .directory => IO.FS.createDirAll (systemName place)
      | .file content =>
        let name := systemName place
        IO.FS.writeBinFile (name ++ ".tmp") ⟨content.toArray⟩
        IO.FS.rename (name ++ ".tmp") name

/-- Prints what the program leaves behind. -/
def report : Outcome → IO UInt32
  | .finished code printed reported => do
    IO.print ((Text.toString? printed).getD "")
    IO.eprint ((Text.toString? reported).getD "")
    return code.number.toUInt32
  | .aborted _ => do
    IO.eprintln "classindex: aborted"
    return 1

end SubclassIndex.Cli

open SubclassIndex Cli in
/-- Runs the program on the file system. -/
def main (arguments : List String) : IO UInt32 := do
  let arguments := arguments.map Text.ofString
  let d ← startingDisk
  let d ←
    match readArguments arguments with
    | .ok r => takeFor r d
    | .error _ => pure d
  let (after, outcome) := program arguments d
  putBack d after
  report outcome
