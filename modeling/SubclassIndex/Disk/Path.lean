import SubclassIndex.Disk.Name

/-!
# Paths

A path is written with slashes between its parts. Empty parts and single dots say nothing and are
dropped; two dots stay, because what they mean depends on the disk. A path that begins with exactly
two slashes keeps both, any other number of them counts as one. The path without parts is written
as a dot.
-/

namespace SubclassIndex

/-- Where a path starts. -/
inductive PathRoot
  | current
  | slash
  | twoSlashes
  deriving DecidableEq

/-- Whether a text can be a part of a path. -/
def isPathPart (t : Text) : Bool := !t.isEmpty && t != "." && !t.contains (.ofChar '/')

/-- A path in its normal form. -/
structure Path where
  root : PathRoot
  parts : List Text
  valid : parts.all isPathPart = true
  deriving DecidableEq

namespace Path

/-- The parts of a text that count. -/
def partsOf (t : Text) : List Text := (t.splitOnPoint '/').filter isPathPart

theorem all_partsOf (t : Text) : (partsOf t).all isPathPart = true := by simp [partsOf]

/-- Where the path that a text writes starts. -/
def rootOf (t : Text) : PathRoot :=
  match (t.takeWhile fun c : CodePoint => c = '/').length with
  | 0 => .current
  | 2 => .twoSlashes
  | _ => .slash

/-- The path that a text writes. -/
def ofText (t : Text) : Path := ⟨rootOf t, partsOf t, all_partsOf t⟩

instance : Coe Text Path := ⟨ofText⟩

/-- The slashes that a path begins with. -/
def rootText : PathRoot → Text
  | .current => []
  | .slash => "/"
  | .twoSlashes => "//"

/-- The text of a path. -/
def text (p : Path) : Text :=
  match p.root, p.parts with
  | .current, [] => "."
  | root, parts => rootText root ++ Text.join "/" parts

/-- Whether a path starts at the root of the disk. -/
def isAbsolute (p : Path) : Bool := p.root ≠ .current

/-- A path taken from another one; an absolute one needs no other. -/
def join (p q : Path) : Path :=
  if q.isAbsolute then q
  else ⟨p.root, p.parts ++ q.parts, by rw [List.all_append, p.valid, q.valid]; rfl⟩

/-- The path without its last part. One without parts is its own parent. -/
def parent (p : Path) : Path :=
  ⟨p.root, p.parts.dropLast, List.all_eq_true.2 fun t h =>
    List.all_eq_true.1 p.valid t (List.dropLast_subset _ h)⟩

/-- The last part of a path, empty if it has none. -/
def name (p : Path) : Text := p.parts.getLastD []

/-- The part that leads to the directory above. -/
def up : Text := ".."

/-- A path that starts at the root, from names on the disk. -/
def ofNames (names : List DiskName) : Path :=
  ofText ("/" ++ Text.join "/" (names.map DiskName.toText))

end Path

end SubclassIndex
