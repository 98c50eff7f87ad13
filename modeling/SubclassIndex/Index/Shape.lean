import SubclassIndex.Text.Basic

/-!
# Shapes of an index

An index is written in one of two shapes: a line of properties text for each base, or one name a
line for a single base.
-/

namespace SubclassIndex.Index

/-- How an index is laid out. -/
inductive Shape
  | properties
  | flat
  deriving DecidableEq

namespace Shape

/-- The shapes in the order in which they are offered. -/
def all : List Shape := [properties, flat]

/-- The name of a shape. -/
def name : Shape → Text
  | properties => "properties"
  | flat => "flat"

/-- The shape of a name, in whatever case its letters are. No letter outside ASCII has one of the
letters of these names for its small form. -/
def ofName? (t : Text) : Option Shape := all.find? fun s => s.name = t.toLowerAscii

/-- The complaint about a name that no shape has. -/
def unknownMessage (t : Text) : Text :=
  "Unknown output shape '" ++ t ++ "' (expected one of: " ++
    Text.join ", " (all.map name) ++ ")"

theorem ofName?_name (s : Shape) : ofName? s.name = some s := by cases s <;> decide

end Shape

end SubclassIndex.Index
