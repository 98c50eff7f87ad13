import SubclassIndex.Hierarchy.HeaderStore
import SubclassIndex.Index.Embedded

/-!
# Build contexts

What one build knows: the requested bases, the headers and embedded rows gathered so far, which
archives were skipped or served from their own index, and the notes taken on the way.
-/

namespace SubclassIndex

/-- How much a note matters. -/
inductive NoteLevel
  | info
  | error
  deriving DecidableEq

/-- A line for whoever watches a build. -/
structure Note where
  level : NoteLevel
  text : Text
  deriving DecidableEq

/-- The knowledge of one build. -/
structure BuildContext where
  /-- The bases to index, as internal names. -/
  requested : List Text
  /-- The headers of all classes found so far. -/
  headers : HeaderStore := ∅
  /-- The rows of embedded indices for the requested bases. -/
  embedded : Index.Gathered := ∅
  /-- The archives that could not be opened or read. -/
  skipped : List Text := []
  /-- The archives whose own index covered all bases. -/
  served : List Text := []
  /-- The notes in the order in which they were taken. -/
  notes : List Note := []

namespace BuildContext

/-- Takes a note of progress. -/
def inform (c : BuildContext) (text : Text) : BuildContext :=
  { c with notes := c.notes ++ [⟨.info, text⟩] }

/-- Takes a note of a failure. -/
def warn (c : BuildContext) (text : Text) : BuildContext :=
  { c with notes := c.notes ++ [⟨.error, text⟩] }

end BuildContext

end SubclassIndex
