import SubclassIndex.Settings.Check
import SubclassIndex.Text.Utf8
import SubclassIndex.Yaml.Read

/-!
# Loading settings

Settings are read from a document that holds a mapping. What it does not mention keeps its default,
and so does everything where there is no document. A setting that has to be a text or a truth value
may be given by any value: it is spelled, or tested for being empty or zero.
-/

namespace SubclassIndex

open Document

namespace Settings

/-- The text of a setting in a document. -/
def textOr (g : Graph) (name : Text) (default : Text) : Except SettingsFailure Text :=
  match g.field? name with
  | none => .ok default
  | some v =>
    match v.value.spell with
    | some t => .ok t
    | none => .error .unspellable

/-- The truth value of a setting in a document. -/
def truthOr (g : Graph) (name : Text) (default : Bool) : Bool :=
  match g.field? name with
  | none => default
  | some v => v.object.isTruthy

/-- The value of a setting in a document, or no items where there is none or an empty one. -/
def itemsOf (g : Graph) (name : Text) : Value :=
  match g.field? name with
  | none => .list []
  | some v => if v.object.isTruthy then v.itemwise else .list []

/-- The shape that a setting names. -/
def shapeOf (file : Text) (name : Text) : Except SettingsFailure Index.Shape :=
  match Index.Shape.ofName? name with
  | some shape => .ok shape
  | none => .error (.refused ⟨.unknownShape name, file⟩)

/-- The settings in a document that holds a mapping. -/
def ofMapping (file : Text) (g : Graph) : Except SettingsFailure Settings := do
  let baseClasses ←
    match g.field? "base_classes" with
    | some v => baseClassesOf file v.itemwise
    | none => .ok default.baseClasses
  let classesDirectory ← textOr g "classes_dir" default.classesDirectory
  let outputPath ← textOr g "output_path" default.outputPath
  let shape ← shapeOf file (← textOr g "output_shape" default.shape.name)
  let usePrecomputed := truthOr g "use_precomputed" default.usePrecomputed
  let verbose := truthOr g "verbose" default.verbose
  let s : Settings :=
    { baseClasses, classesDirectory, outputPath, shape, usePrecomputed, verbose }
  match s.withArchives (itemsOf g "archives") with
  | .ok s => .ok s
  | .error fault => .error (.refused ⟨fault, file⟩)

/-- The settings in a document. -/
def ofDocument (file : Text) (g : Graph) : Except SettingsFailure Settings :=
  if !g.object.isTruthy then .ok default
  else
    match g.object with
    | .map _ => ofMapping file g
    | _ => .error (.refused ⟨.notAMapping, file⟩)

/-- The settings in a text. -/
def ofText (file : Text) (t : Text) : Except SettingsFailure Settings :=
  if t.isBlank then .ok default
  else
    match Yaml.read t with
    | .ok g => ofDocument file g
    | .error .malformed => .error (.refused ⟨.malformedDocument, file⟩)
    | .error fault => .error (.scalar fault)

/-- The settings in a file, or the default ones where there is none. -/
def load (d : Disk) (p : Path) : Except SettingsFailure Settings :=
  match d.pathExists p with
  | .error e => .error (.disk e)
  | .ok false => .ok default
  | .ok true =>
    match d.readFile p with
    | .error e => .error (.disk e)
    | .ok bytes =>
      match Utf8.decode? .scalars bytes with
      | none => .error .undecodable
      | some t => ofText p.text t.normalizeNewlines

end Settings

end SubclassIndex
