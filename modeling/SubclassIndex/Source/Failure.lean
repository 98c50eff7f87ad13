import SubclassIndex.ClassFile.Reader
import SubclassIndex.Disk.Basic
import SubclassIndex.Text.Quoted

/-!
# Failures

What can go wrong while classes are collected and an index is read or written. A failure of the
file system or of an archive concerns what was to be read; an archive is then skipped. The others
stop a build.
-/

namespace SubclassIndex

/-- Why the content of a member of an archive cannot be had. -/
inductive EntryFault
  /-- It is damaged, or packed in an unsupported way, in the archive at this path. -/
  | damaged (path : Path)
  /-- Its unpacker reports an error of the system in these words. -/
  | system (text : Text)
  /-- It would begin at an offset that no file can have. -/
  | outOfRange
  /-- Its unpacker fails in a way of its own, in these words. -/
  | unpacker (text : Text)
  deriving DecidableEq

/-- Why an operation failed. -/
inductive Failure
  /-- A class file that was read is none. -/
  | malformedClass (fault : ClassFile.FormatFault)
  /-- Bytes that have to be UTF-8 are not. -/
  | undecodable
  /-- The disk refused a path. -/
  | disk (fault : DiskFault) (path : Path)
  /-- There is no file where an archive should be. -/
  | archiveMissing (path : Path)
  /-- The file is no archive. -/
  | archiveUnreadable (path : Path)
  /-- An archive asks for a later version of the format. -/
  | archiveTooNew
  /-- An archive was asked for its content before it was opened. -/
  | archiveNotOpen (path : Path)
  /-- The archive has no member of this name. -/
  | noSuchEntry (entry : Text)
  /-- A member of an archive cannot be read. -/
  | entryUnreadable (entry : Text) (fault : EntryFault)
  /-- A member of an archive would begin before its first byte. -/
  | entryMisplaced
  /-- A member of an archive has an empty name, so that it is neither a directory nor a file. -/
  | namelessEntry (path : Path)
  /-- An archive is not given by a text. -/
  | notAPath
  deriving DecidableEq

/-- Whether it lies in the archive, or in the file system, that a member cannot be read. -/
def EntryFault.isInputFailure : EntryFault → Bool
  | damaged _ | system _ => true
  | outOfRange | unpacker _ => false

/-- The fault of a member of some name in words. -/
def EntryFault.message (entry : Text) : EntryFault → Text
  | damaged path => "Unreadable entry " ++ entry ++ " in " ++ path.text
  | system text | unpacker text => text
  | outOfRange => "offset out of range"

namespace Failure

/-- Whether the failure lies in the file system or in the archive that was read. -/
def isInputFailure : Failure → Bool
  | disk .zeroInPath _ | disk .unencodable _ | disk .tooDeep _ => false
  | disk _ _ | archiveMissing _ | archiveUnreadable _ | entryMisplaced => true
  | entryUnreadable _ fault => fault.isInputFailure
  | _ => false

/-- What the system calls a fault of the disk, with its number. -/
def systemText : DiskFault → Text
  | .missing => "[Errno 2] No such file or directory"
  | .notADirectory => "[Errno 20] Not a directory"
  | .isADirectory => "[Errno 21] Is a directory"
  | .occupied => "[Errno 17] File exists"
  | .tooLong => "[Errno 36] File name too long"
  | .tooDeep => "too many missing directories"
  | .busy => "[Errno 16] Device or resource busy"
  | .zeroInPath => "embedded null byte"
  | .unencodable => "surrogates not allowed"

/-- The failure in words. -/
def message : Failure → Text
  | malformedClass fault => fault.message
  | undecodable => "invalid UTF-8"
  | disk fault path => systemText fault ++ ": " ++ path.text.quoted
  | archiveMissing path => "Archive not found: " ++ path.text
  | archiveUnreadable path => "Not a readable archive: " ++ path.text
  | archiveTooNew => "zip file version not supported"
  | archiveNotOpen path => "Archive is not open: " ++ path.text
  | noSuchEntry entry => "There is no item named " ++ entry.quoted ++ " in the archive"
  | entryUnreadable entry fault => fault.message entry
  | entryMisplaced => "[Errno 22] Invalid argument"
  | namelessEntry path => "Entry without a name in " ++ path.text
  | notAPath => "expected a path"

/-- The failure of a class file. -/
def ofHeaderFault : ClassFile.HeaderFault → Failure
  | .malformed fault => malformedClass fault
  | .undecodable => undecodable

end Failure

/-- The headers that a source supplied, in its order, and what stopped it before its end. -/
structure Harvest where
  headers : List (Text × Header)
  failure : Option Failure

namespace Harvest

/-- A source that takes its items one after another. Each is a class, is passed over, or stops the
source. -/
def collect {α : Type} (read : α → Except Failure (Option (Text × Header))) :
    List α → Harvest
  | [] => ⟨[], none⟩
  | item :: rest =>
    match read item with
    | .error e => ⟨[], some e⟩
    | .ok none => collect read rest
    | .ok (some h) =>
      let after := collect read rest
      ⟨h :: after.headers, after.failure⟩

/-- The header of a class file under the name of the class. -/
def headerOf (name : Text) (bytes : Bytes) : Except Failure (Option (Text × Header)) :=
  match ClassFile.readHeader bytes with
  | .ok h => .ok (some (name, h))
  | .error e => .error (.ofHeaderFault e)

end Harvest

end SubclassIndex
