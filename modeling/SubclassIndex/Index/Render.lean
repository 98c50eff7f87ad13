import SubclassIndex.ClassName
import SubclassIndex.Index.Shape
import SubclassIndex.NameSet
import SubclassIndex.Table

/-!
# Writing an index

An index is rendered from its rows. Names are written dotted and, within a row, in ascending order.
-/

namespace SubclassIndex.Index

/-- Bases with the names listed for each, in the order of the bases. -/
abbrev Rows := Table Text (List Text)

/-- The names dotted and in ascending order. -/
def dottedSorted (names : List Text) : List Text := Text.sort (names.map ClassName.dotted)

/-- The line of a base: the base, an equals sign and its names separated by commas. -/
def rowLine (base : Text) (names : List Text) : Text :=
  ClassName.dotted base ++ "=" ++ Text.join "," (dottedSorted names) ++ "\n"

/-- The rows as properties text, a line for each. -/
def renderKeyed (rows : Rows) : Text := rows.entries.flatMap fun row => rowLine row.1 row.2

/-- The names of all rows together, each once, one a line. The last line has no end. -/
def renderFlat (rows : Rows) : Text :=
  Text.join "\n" (dottedSorted (NameSet.ofList (rows.entries.flatMap Prod.snd)).names)

/-- The text of an index. -/
def render (rows : Rows) : Shape → Text
  | .properties => renderKeyed rows
  | .flat => renderFlat rows

end SubclassIndex.Index
