import SubclassIndex.ClassName
import SubclassIndex.Source.Failure
import SubclassIndex.Zip.Archive

/-!
# Dependencies

A dependency is an archive of compiled classes, which may carry other members too. It has to be
opened before its members can be read, with whichever library is there.
-/

namespace SubclassIndex

/-- A dependency, opened or not. -/
structure Dependency where
  path : Path
  archive? : Option Zip.Archive := none

namespace Dependency

variable [Zip.Library]

/-- The label of the classes that come from here. -/
def label (x : Dependency) : Text := x.path.name

/-- The opened archive. -/
def archive (x : Dependency) : Except Failure Zip.Archive :=
  match x.archive? with
  | some a => .ok a
  | none => .error (.archiveNotOpen x.path)

/-- The dependency with its archive opened. -/
def opened (x : Dependency) (d : Disk) : Except Failure Dependency :=
  match d.isFile x.path with
  | .error e => .error (.disk e x.path)
  | .ok false => .error (.archiveMissing x.path)
  | .ok true =>
    match d.readFile x.path with
    | .error e => .error (.disk e x.path)
    | .ok bytes =>
      match Zip.Archive.ofBytes bytes with
      | .ok a => .ok { x with archive? := some a }
      | .error .unreadable => .error (.archiveUnreadable x.path)
      | .error .undecodableName => .error .undecodable
      | .error .tooNew => .error .archiveTooNew

/-- Whether the archive has a member of a name. -/
def has (x : Dependency) (entry : Text) : Except Failure Bool :=
  match x.archive with
  | .ok a => .ok (a.member? entry).isSome
  | .error e => .error e

/-- The failure of whoever needs the content of a member. -/
def memberFailure (x : Dependency) (m : Zip.Member) : Zip.MemberFault → Failure
  | .unreadable => .entryUnreadable m.name (.damaged x.path)
  | .undecodableName => .undecodable
  | .misplaced => .entryMisplaced
  | .outOfRange => .entryUnreadable m.name .outOfRange
  | .system text => .entryUnreadable m.name (.system text)
  | .unpacker text => .entryUnreadable m.name (.unpacker text)

/-- The content of a member of the archive. -/
def content (x : Dependency) (a : Zip.Archive) (m : Zip.Member) : Except Failure Bytes :=
  match a.content m with
  | .ok bytes => .ok bytes
  | .error e => .error (x.memberFailure m e)

/-- The content of the member of a name. -/
def bytes (x : Dependency) (entry : Text) : Except Failure Bytes :=
  match x.archive with
  | .error e => .error e
  | .ok a =>
    match a.member? entry with
    | some m => x.content a m
    | none => .error (.noSuchEntry entry)

/-- The text of the member of a name, if there is one. Bytes that are not UTF-8 are replaced. -/
def text? (x : Dependency) (entry : Text) : Except Failure (Option Text) :=
  match x.archive with
  | .error e => .error e
  | .ok a =>
    match a.member? entry with
    | none => .ok none
    | some m =>
      match x.content a m with
      | .ok bytes => .ok (some (Utf8.decodeLossy bytes))
      | .error e => .error e

/-- The class in a member. Directories and members without the ending of compiled classes are
passed over; a member may have to have a name for that. -/
def read (x : Dependency) (a : Zip.Archive) (m : Zip.Member) :
    Except Failure (Option (Text × Header)) :=
  if Zip.Library.namesRequired && m.name.isEmpty then .error (.namelessEntry x.path)
  else if !ClassName.isClassPath m.name then .ok none
  else
    match x.content a m with
    | .ok bytes => Harvest.headerOf (ClassName.ofEntryPath m.name) bytes
    | .error e => .error e

/-- The classes of the archive in the order of its directory. -/
def harvest (x : Dependency) : Harvest :=
  match x.archive with
  | .ok a => .collect (x.read a) a.members
  | .error e => ⟨[], some e⟩

end Dependency

end SubclassIndex
