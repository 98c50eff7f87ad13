import SubclassIndex.ClassName
import SubclassIndex.Source.Failure

/-!
# Class directories

The compiled classes of a module stand in a directory tree. They are visited in the order of their
paths, part by part, so that a run can be repeated. The path of a class below the root gives its
name. Before the first class is read, all directories of the tree have been listed, and so a path
to one of them that is too long stops everything.
-/

namespace SubclassIndex

/-- The root of a tree of compiled classes. -/
structure ClassDirectory where
  root : Path

namespace ClassDirectory

/-- The label of the classes that come from here. -/
def label (c : ClassDirectory) : Text := c.root.text

/-- Whether the root is a directory. -/
def isThere (c : ClassDirectory) (d : Disk) : Except Failure Bool :=
  match d.isDirectory c.root with
  | .ok b => .ok b
  | .error e => .error (.disk e c.root)

/-- The paths below a place whose last part has the ending of compiled classes, as texts. -/
def classPathsBelow (d : Disk) (place : Place) : List (List Text) :=
  d.nodes.keys.filterMap fun p =>
    if place.isPrefixOf p ∧ place.length < p.length then
      let parts := (p.drop place.length).map DiskName.toText
      if ClassName.isClassPath (parts.getLastD []) then some parts else none
    else none

/-- The paths of the directories below a place, as texts. -/
def directoryPathsBelow (d : Disk) (place : Place) : List (List Text) :=
  d.nodes.entries.filterMap fun (p, node) =>
    if node = .directory ∧ place.isPrefixOf p ∧ place.length < p.length then
      some ((p.drop place.length).map DiskName.toText)
    else none

/-- The path of what stands below the root. -/
def pathTo (c : ClassDirectory) (parts : List Text) : Path := c.root.join (Text.join "/" parts)

/-- The candidates below the root in the order of their paths, unless a directory cannot be
listed. -/
def candidates (c : ClassDirectory) (d : Disk) : Except Failure (List (List Text)) :=
  match d.locate c.root with
  | .ok place =>
    match (directoryPathsBelow d place).find? fun parts => Disk.isTooLong (c.pathTo parts) with
    | some parts => .error (.disk .tooLong (c.pathTo parts))
    | none => .ok ((classPathsBelow d place).mergeSort fun a b => decide (a ≤ b))
  | .error _ => .ok []

/-- The class at a path below the root. What is no file is passed over. -/
def read (c : ClassDirectory) (d : Disk) (parts : List Text) :
    Except Failure (Option (Text × Header)) :=
  let relative := Text.join "/" parts
  let path := c.pathTo parts
  match d.isFile path with
  | .error e => .error (.disk e path)
  | .ok false => .ok none
  | .ok true =>
    match d.readFile path with
    | .error e => .error (.disk e path)
    | .ok bytes => Harvest.headerOf (ClassName.ofEntryPath relative) bytes

/-- The classes of the tree; there are none where the root is no directory. -/
def harvest (c : ClassDirectory) (d : Disk) : Harvest :=
  match c.isThere d with
  | .error e => ⟨[], some e⟩
  | .ok false => ⟨[], none⟩
  | .ok true =>
    match c.candidates d with
    | .error e => ⟨[], some e⟩
    | .ok candidates => .collect (c.read d) candidates

end ClassDirectory

end SubclassIndex
