import SubclassIndex.Disk.Path
import SubclassIndex.Table

/-!
# Disks

A disk is a tree of directories and files, kept as a table from places to what is there, and the
place where relative paths start. A path is followed from directory to directory; what it leads to
may be missing, and then the path leads to the place where it would be.
-/

namespace SubclassIndex

/-- A place on a disk: the names that lead to it from the root. -/
abbrev Place := List DiskName

/-- What is in a place. -/
inductive Node
  | file (content : Bytes)
  | directory
  deriving DecidableEq

/-- Why a disk refuses. -/
inductive DiskFault
  /-- Nothing is there. -/
  | missing
  /-- A file stands where the path needs a directory. -/
  | notADirectory
  /-- A directory stands where a file is needed. -/
  | isADirectory
  /-- Something is there already. -/
  | occupied
  /-- A name, or the whole path, has too many bytes. -/
  | tooLong
  /-- Too many directories are missing above a path. -/
  | tooDeep
  /-- The place cannot be replaced. -/
  | busy
  /-- The path holds a zero code point. -/
  | zeroInPath
  /-- The path or the content holds a surrogate that cannot be written. -/
  | unencodable
  deriving DecidableEq

/-- A tree of directories and files with a current directory. -/
structure Disk where
  nodes : Table Place Node
  current : Place

namespace Disk

/-- What is in a place. The root is always a directory. -/
def node? (d : Disk) (place : Place) : Option Node :=
  if place.isEmpty then some .directory else d.nodes.get? place

/-- The file in a place. -/
def fileAt? (d : Disk) (place : Place) : Option Bytes :=
  match d.node? place with
  | some (.file content) => some content
  | _ => none

/-- Puts something in a place. -/
def put (d : Disk) (place : Place) (node : Node) : Disk :=
  { d with nodes := d.nodes.insert place node }

/-- Empties a place and all places below it. -/
def remove (d : Disk) (place : Place) : Disk :=
  { d with nodes := d.nodes.filter fun p _ => !place.isPrefixOf p }

/-- All files with their places. -/
def files (d : Disk) : List (Place × Bytes) :=
  d.nodes.entries.filterMap fun e =>
    match e.2 with
    | .file content => some (e.1, content)
    | .directory => none

/-- The bytes from which on a path is too long. -/
def pathLimit : Nat := 4096

/-- Whether a path has too many bytes. -/
def isTooLong (p : Path) : Bool := decide (pathLimit ≤ ((DiskName.ofText? p.text).getD []).length)

/-- The names of a path, if a disk can be asked about it at all. -/
def namesOf (p : Path) : Except DiskFault (List DiskName) :=
  match p.parts.mapM DiskName.ofText? with
  | none => .error .unencodable
  | some names =>
    if names.any fun n => n.contains 0 then .error .zeroInPath
    else if isTooLong p then .error .tooLong
    else .ok names

/-- The name that leads to the directory above. -/
def upName : DiskName := [0x2E, 0x2E]

/-- Follows names from a place. Every step needs a directory to start from. -/
def follow (d : Disk) (place : Place) : List DiskName → Except DiskFault Place
  | [] => .ok place
  | name :: rest =>
    match d.node? place with
    | none => .error .missing
    | some (.file _) => .error .notADirectory
    | some .directory =>
      if name = upName then d.follow place.dropLast rest
      else if DiskName.maxLength < name.length then .error .tooLong
      else d.follow (place ++ [name]) rest

/-- Where a path starts on this disk. -/
def startOf (d : Disk) (p : Path) : Place := if p.isAbsolute then [] else d.current

/-- The place that a path leads to. -/
def locate (d : Disk) (p : Path) : Except DiskFault Place :=
  match namesOf p with
  | .ok names => d.follow (d.startOf p) names
  | .error e => .error e

/-- What a path leads to. -/
def lookup (d : Disk) (p : Path) : Except DiskFault Node :=
  match d.locate p with
  | .ok place =>
    match d.node? place with
    | some node => .ok node
    | none => .error .missing
  | .error e => .error e

/-- What a path leads to, if anything. Only a path that is too long is refused. -/
def find (d : Disk) (p : Path) : Except DiskFault (Option Node) :=
  match d.lookup p with
  | .ok node => .ok (some node)
  | .error .tooLong => .error .tooLong
  | .error _ => .ok none

/-- Whether a path leads to something. -/
def pathExists (d : Disk) (p : Path) : Except DiskFault Bool :=
  (d.find p).map Option.isSome

/-- Whether a path leads to a file. -/
def isFile (d : Disk) (p : Path) : Except DiskFault Bool :=
  (d.find p).map fun
    | some (.file _) => true
    | _ => false

/-- Whether a path leads to a directory. -/
def isDirectory (d : Disk) (p : Path) : Except DiskFault Bool :=
  (d.find p).map fun
    | some .directory => true
    | _ => false

/-- The content of the file that a path leads to. -/
def readFile (d : Disk) (p : Path) : Except DiskFault Bytes :=
  match d.lookup p with
  | .ok (.file content) => .ok content
  | .ok .directory => .error .isADirectory
  | .error e => .error e

end Disk

end SubclassIndex
