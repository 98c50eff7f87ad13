import SubclassIndex.Index.Embedded
import SubclassIndex.Index.Render
import SubclassIndex.Text.Utf8

/-!
# Reading a written index back

A listing holds dotted bases with their dotted names as an index file has them.
-/

namespace SubclassIndex.Index

/-- The rows of an index file, dotted. -/
abbrev Listing := Table Text (List Text)

namespace Listing

/-- The lines of a flat index: all that hold more than blanks. -/
def flatLines (text : Text) : List Text :=
  (text.lines.map Text.strip).filter fun line => !line.isEmpty

/-- The listing of an index text. A flat one does not name its base, which is given. -/
def ofText (shape : Shape) (flatBase : Text) (text : Text) : Listing :=
  match shape with
  | .flat => Table.empty.insert flatBase (flatLines text)
  | .properties =>
    (Properties.read text).mapValues fun _ value => (listedNames value).map ClassName.dotted

/-- The listing of an index file, unless its bytes are not UTF-8. -/
def ofBytes? (shape : Shape) (flatBase : Text) (bytes : Bytes) : Option Listing :=
  (Utf8.decode? .scalars bytes).map fun text => ofText shape flatBase text.normalizeNewlines

/-- The names listed for a base, spelled with dots or with slashes. -/
def find? (l : Listing) (base : Text) : Option (List Text) :=
  l.get? (ClassName.dotted (ClassName.internal base))

/-- How many names each base has. -/
def counts (l : Listing) : Table Text Nat := l.mapValues fun _ names => names.length

/-- How many names all bases have together. -/
def total (l : Listing) : Nat := (l.counts.entries.map Prod.snd).foldr (· + ·) 0

end Listing

end SubclassIndex.Index
