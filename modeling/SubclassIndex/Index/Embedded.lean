import SubclassIndex.ClassName
import SubclassIndex.NameSet
import SubclassIndex.Properties.Reader

/-!
# Embedded indices

A dependency archive may carry an index of its own classes. Its rows for the requested bases are
gathered base by base over all archives; other rows are ignored. An index is complete when each
requested base has a row in it, however many names the row holds.
-/

namespace SubclassIndex.Index

/-- The implementations gathered so far, base by base, all names internal. -/
abbrev Gathered := Table Text NameSet

/-- The internal names in a list separated by commas. Blanks around a name do not count, and empty
names are left out. -/
def listedNames (value : Text) : List Text :=
  ((value.splitOnPoint ',').map Text.strip).filterMap fun name =>
    if name.isEmpty then none else some (ClassName.internal name)

/-- The rows of an index in properties layout: bases with the names listed for them. -/
def keyedRows (text : Text) : List (Text × List Text) :=
  (Properties.read text).entries.map fun e => (ClassName.internal e.1.strip, listedNames e.2)

/-- The names in an index in flat layout. Lines that are blank or begin with a hash sign after
their blanks hold none. -/
def flatNames (text : Text) : List Text :=
  (text.lines.map Text.strip).filterMap fun line =>
    match line with
    | [] => none
    | c :: _ => if c = '#' then none else some (ClassName.internal line)

namespace Gathered

/-- The names gathered for a base. -/
def names (g : Gathered) (base : Text) : NameSet := (g.get? base).getD ∅

/-- Adds names to those of a base. -/
def add (g : Gathered) (base : Text) (names : List Text) : Gathered :=
  g.insert base ((g.names base).insertAll names)

end Gathered

/-- Gathers the rows of the requested bases, and says whether each of these has one. -/
def gatherKeyed (text : Text) (requested : List Text) (g : Gathered) : Gathered × Bool :=
  let rows := (keyedRows text).filter fun row => decide (row.1 ∈ requested)
  (rows.foldl (fun g row => Gathered.add g row.1 row.2) g,
    requested.all fun base => decide (base ∈ rows.map Prod.fst))

/-- Gathers the names of a flat index for the one base that it is read for. -/
def gatherFlat (text : Text) (base : Text) (g : Gathered) : Gathered :=
  Gathered.add g base (flatNames text)

end SubclassIndex.Index
