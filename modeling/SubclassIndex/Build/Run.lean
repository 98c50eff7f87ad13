import SubclassIndex.Build.Scan
import SubclassIndex.Disk.Write
import SubclassIndex.Hierarchy.Descent
import SubclassIndex.Index.Render

/-!
# Builds

A build collects the classes of all sources and lists, for each requested base, the classes that
descend from it together with those that embedded indices name. A run writes the listing to the
output file unless the file holds it already.
-/

namespace SubclassIndex

/-- The outcome of a build. -/
structure BuildResult where
  /-- The names for each base in ascending order; bases and names are internal. -/
  rows : Index.Rows := ∅
  /-- How many classes were found. -/
  headerCount : Nat := 0
  skipped : List Text := []
  served : List Text := []

/-- The rows with dotted names. Of bases that agree when dotted the last one stands. -/
def BuildResult.dotted (r : BuildResult) : Index.Rows :=
  .ofList (r.rows.entries.map fun row =>
    (ClassName.dotted row.1, row.2.map ClassName.dotted))

namespace BuildContext

/-- The implementations of a base: those that embedded indices name and those that descend from it
through known classes. -/
def implementations (c : BuildContext) (base : Text) : NameSet :=
  (c.embedded.names base).union (descendants c.headers base ∅).1

/-- Finds the implementations of every requested base. -/
def resolve (c : BuildContext) : BuildContext × Index.Rows :=
  c.requested.foldl (fun (c, rows) base =>
    let found := c.implementations base
    (c.inform ("services found for " ++ ClassName.dotted base ++ " = " ++ Text.ofNat found.size),
      rows.insert base found.names)) (c, ∅)

end BuildContext

/-- What a step came to, and the notes taken until then. -/
structure Noted (α : Type) where
  notes : List Note
  value : Except Failure α

variable [Zip.Library]

/-- Builds the index. There is none where the classes directory is missing, and an empty one where
no base is requested. -/
def build (s : Settings) (d : Disk) : Noted (Option BuildResult) :=
  let classes : ClassDirectory := ⟨s.classesPath⟩
  let c : BuildContext := { requested := s.requestedBases }
  match classes.isThere d with
  | .error e => ⟨[], .error e⟩
  | .ok false => ⟨(c.inform ("No classes dir (skipping): " ++ classes.root.text)).notes, .ok none⟩
  | .ok true =>
    if c.requested.isEmpty then
      ⟨(c.inform "No base classes configured (skipping)").notes, .ok (some {})⟩
    else
      match c.collect s d classes with
      | (c, some e) => ⟨c.notes, .error e⟩
      | (c, none) =>
        let (c, rows) := c.resolve
        ⟨c.notes, .ok (some
          { rows, headerCount := c.headers.size, skipped := c.skipped, served := c.served })⟩

/-- What a run did. -/
structure RunReport where
  result : Option BuildResult
  /-- The file that now holds the index. -/
  output : Option Path := none
  /-- Whether the file had to be written. -/
  written : Bool := false

/-- The notes on saving to a path. A file that is ready fails to be moved into place only where the
place is a directory or cannot be replaced. -/
def savingNotes (p : Path) (outcome : Except DiskFault Bool) : List Note :=
  let copying : Note := ⟨.info, "Copying tmp file to actual destination"⟩
  match outcome with
  | .ok true => [copying, ⟨.info, "Wrote " ++ p.text⟩]
  | .ok false => [⟨.info, p.text ++ " unchanged - skipping"⟩]
  | .error .isADirectory | .error .busy => [copying]
  | .error _ => []

/-- Builds the index and writes it to its file. Without rows nothing is written. -/
def run (s : Settings) (d : Disk) : Disk × Noted RunReport :=
  match build s d with
  | ⟨notes, .error e⟩ => (d, ⟨notes, .error e⟩)
  | ⟨notes, .ok none⟩ => (d, ⟨notes, .ok { result := none }⟩)
  | ⟨notes, .ok (some r)⟩ =>
    if r.rows.isEmpty then (d, ⟨notes, .ok { result := some r }⟩)
    else
      let p := s.outputFile
      let (d, outcome) := d.replaceIfChanged p (Index.render r.rows s.shape)
      let notes := notes ++ savingNotes p outcome
      match outcome with
      | .error e => (d, ⟨notes, .error (.disk e p)⟩)
      | .ok written => (d, ⟨notes, .ok { result := some r, output := some p, written }⟩)

end SubclassIndex
