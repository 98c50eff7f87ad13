import SubclassIndex.ClassName
import SubclassIndex.Disk.Path
import SubclassIndex.Document.Value
import SubclassIndex.Index.Shape

/-!
# Settings

What is indexed, from where, and where the index goes. The output path is taken from the classes
directory. The archives come from a document and may hold values of any kind.
-/

namespace SubclassIndex

open Document

/-- The settings of a build. -/
structure Settings where
  baseClasses : List Text := ["org.nanonative.nano.core.model.Service"]
  classesDirectory : Text := "target/classes"
  archives : List Value := []
  outputPath : Text := "META-INF/classindex/services.properties"
  shape : Index.Shape := .properties
  usePrecomputed : Bool := true
  verbose : Bool := false

namespace Settings

/-- The settings that hold where nothing is said. -/
def default : Settings := {}

/-- The internal names of the base classes, each once, in the order of their first occurrence. -/
def requestedBases (s : Settings) : List Text := (s.baseClasses.map ClassName.internal).eraseDups

/-- The classes directory as a path. -/
def classesPath (s : Settings) : Path := .ofText s.classesDirectory

/-- The file of the index. -/
def outputFile (s : Settings) : Path := s.classesPath.join (.ofText s.outputPath)

end Settings

end SubclassIndex
