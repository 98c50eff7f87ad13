import SubclassIndex.ClassFile.Header
import SubclassIndex.Table

/-!
# Header stores

The headers of all known classes by internal name, each with the place it came from. Sources are
added in order of precedence: whoever supplies a name first owns it, and a later header of the same
name is dropped.
-/

namespace SubclassIndex

/-- A header and the label of the source that supplied it. -/
structure KnownClass where
  header : Header
  origin : Text
  deriving DecidableEq

/-- The known classes in the order in which they were first supplied. -/
abbrev HeaderStore := Table Text KnownClass

namespace HeaderStore

/-- The header of a class. -/
def header? (s : HeaderStore) (name : Text) : Option Header := (s.get? name).map KnownClass.header

/-- The label of the source that supplied a class. -/
def origin? (s : HeaderStore) (name : Text) : Option Text := (s.get? name).map KnownClass.origin

/-- The header of a class that is known to be concrete. -/
def concrete? (s : HeaderStore) (name : Text) : Option Header :=
  (s.header? name).filter Header.isConcrete

/-- Supplies a header, and says whether the name was new. -/
def add (s : HeaderStore) (name : Text) (header : Header) (origin : Text) : HeaderStore × Bool :=
  (s.insertNew name ⟨header, origin⟩, !s.contains name)

/-- Supplies headers one after another, and counts the new names. -/
def addAll (s : HeaderStore) (headers : List (Text × Header)) (origin : Text) : HeaderStore × Nat :=
  headers.foldl (fun (s, count) e =>
    let (s, isNew) := HeaderStore.add s e.1 e.2 origin
    (s, if isNew then count + 1 else count)) (s, 0)

end HeaderStore

end SubclassIndex
