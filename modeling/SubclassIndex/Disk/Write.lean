import SubclassIndex.Disk.Basic

/-!
# Writing files

A file is replaced as a whole: the new content goes to a file of its own beside it, which is then
moved over it and is gone in either case. `replaceIfChanged` first makes the directories that are
missing, and leaves a file alone that holds the content already.
-/

namespace SubclassIndex

/-- The disk after an operation, which may have failed on the way. -/
abbrev Written (α : Type) := Disk × Except DiskFault α

namespace Disk

/-- Makes one directory in a directory that is there. -/
def makeDirectory (d : Disk) (p : Path) : Written Unit :=
  match d.locate p with
  | .error e => (d, .error e)
  | .ok place =>
    if p.parts.isEmpty ∨ p.name = Path.up ∨ (d.node? place).isSome then (d, .error .occupied)
    else (d.put place .directory, .ok ())

/-- Makes one directory, or finds it there. -/
def ensureDirectory (d : Disk) (p : Path) : Written Unit :=
  match d.makeDirectory p with
  | (d, .ok ()) => (d, .ok ())
  | (d, .error .missing) => (d, .error .missing)
  | (d, .error e) =>
    if e = .zeroInPath ∨ e = .unencodable then (d, .error e)
    else
      match d.isDirectory p with
      | .ok true => (d, .ok ())
      | .ok false => (d, .error e)
      | .error e' => (d, .error e')

/-- Makes a directory of a name in a directory that is there, or finds it there, and gives its
place. -/
def makeWithin (d : Disk) (above : Place) (name : DiskName) : Written Place :=
  if name = upName then (d, .ok above.dropLast)
  else if DiskName.maxLength < name.length then (d, .error .tooLong)
  else
    let place := above ++ [name]
    match d.node? place with
    | some .directory => (d, .ok place)
    | some (.file _) => (d, .error .occupied)
    | none => (d.put place .directory, .ok place)

/-- How many directories that lie in each other may be missing. -/
def maxMissing : Nat := 990

/-- Makes a directory and, where they are missing, those above it, at most so many, and gives its
place. -/
def makeDirectories (d : Disk) : Nat → Path → Written Place
  | 0, _ => (d, .error .tooDeep)
  | room + 1, p =>
    match d.ensureDirectory p with
    | (d, .ok ()) => (d, d.locate p)
    | (d, .error .missing) =>
      if p.parts.isEmpty then (d, .error .missing)
      else
        match d.makeDirectories room p.parent with
        | (d, .ok above) => d.makeWithin above ((DiskName.ofText? p.name).getD [])
        | failed => failed
    | (d, .error e) => (d, .error e)

/-- The name of the n-th file for new content. -/
def temporaryName (n : Nat) : DiskName :=
  (("services" ++ Text.ofNatPadded 8 n ++ ".tmp" : Text)).flatMap Utf8.bytesOf

/-- A place in a directory where nothing is. -/
def freshPlace (d : Disk) (directory : Place) : Place :=
  let places := (List.range (d.nodes.size + 1)).map fun n => directory ++ [temporaryName n]
  (places.find? fun p => (d.node? p).isNone).getD (directory ++ [temporaryName (d.nodes.size + 1)])

/-- Moves a file to where a path leads, over the file that may be there. -/
def moveFile (d : Disk) (source : Place) (content : Bytes) (p : Path) : Written Unit :=
  match d.locate p with
  | .error e => (d, .error e)
  | .ok target =>
    if p.parts.isEmpty ∨ p.name = Path.up then (d, .error .busy)
    else
      match d.node? target with
      | some .directory => (d, .error .isADirectory)
      | _ => ((d.remove source).put target (.file content), .ok ())

/-- Puts new content where a path leads, by way of a file of its own in the same directory, whose
full path must not be too long. -/
def replaceFile (d : Disk) (p : Path) (content : Bytes) : Written Unit :=
  match d.locate p.parent with
  | .error e => (d, .error e)
  | .ok directory =>
    let temporary := d.freshPlace directory
    if isTooLong (.ofNames temporary) then (d, .error .tooLong)
    else
      match (d.put temporary (.file content)).moveFile temporary content p with
      | (d, .ok ()) => (d, .ok ())
      | (d, .error e) => (d.remove temporary, .error e)

/-- Whether the path leads to a file with this content. -/
def holds (d : Disk) (p : Path) (content : Bytes) : Except DiskFault Bool :=
  match d.isFile p with
  | .ok true => (d.readFile p).map fun old => old == content
  | .ok false => .ok false
  | .error e => .error e

/-- Makes a file hold a text in UTF-8, and says whether it had to be written. -/
def replaceIfChanged (d : Disk) (p : Path) (text : Text) : Written Bool :=
  match d.makeDirectories maxMissing p.parent with
  | (d, .error e) => (d, .error e)
  | (d, .ok _) =>
    match Utf8.encode? text with
    | none => (d, .error .unencodable)
    | some content =>
      match d.holds p content with
      | .error e => (d, .error e)
      | .ok true => (d, .ok false)
      | .ok false =>
        match d.replaceFile p content with
        | (d, .ok ()) => (d, .ok true)
        | (d, .error e) => (d, .error e)

end Disk

end SubclassIndex
