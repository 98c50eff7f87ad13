import SubclassIndex.Disk.Basic
import SubclassIndex.Index.Listing
import SubclassIndex.Settings.Basic
import SubclassIndex.Source.Failure

/-!
# Saved indices

The index that earlier builds with the same settings left on the disk.
-/

namespace SubclassIndex.Index

/-- The listing in an index file, if there is such a file. A flat one belongs to a base that is
given. -/
def load (shape : Shape) (flatBase : Text) (d : Disk) (p : Path) :
    Except Failure (Option Listing) :=
  match d.isFile p with
  | .error e => .error (.disk e p)
  | .ok false => .ok none
  | .ok true =>
    match d.readFile p with
    | .error e => .error (.disk e p)
    | .ok bytes =>
      match Listing.ofBytes? shape flatBase bytes with
      | some l => .ok (some l)
      | none => .error .undecodable

/-- The base that a flat index is taken to belong to. -/
def flatBaseOf (s : Settings) : Text := s.baseClasses.headD []

/-- The listing in the output file, if there is such a file. -/
def saved (s : Settings) (d : Disk) : Except Failure (Option Listing) :=
  load s.shape (flatBaseOf s) d s.outputFile

end SubclassIndex.Index
