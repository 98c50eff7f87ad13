import SubclassIndex.Disk.Basic
import SubclassIndex.Document.Display
import SubclassIndex.Settings.Basic
import SubclassIndex.Text.Blank
import SubclassIndex.Yaml.Fault

/-!
# Checked settings

Settings are refused if a flat index would mix several bases, if the index could leave the classes
directory for an absolute path, or if the archives are no list. The first of these that holds is
reported, with the file that the settings come from where there is one.
-/

namespace SubclassIndex

open Document

/-- Why settings are refused. -/
inductive SettingsFault
  /-- The document is not well formed. -/
  | malformedDocument
  /-- The document holds something else than a mapping. -/
  | notAMapping
  /-- The base classes are a value of another type than a list or a text. -/
  | basesNotListed (typeName : Text)
  /-- A base class is no text but a value with this description. -/
  | baseNotText (description : Text)
  /-- No shape has this name. -/
  | unknownShape (name : Text)
  /-- A flat index has room for one base. -/
  | flatOfMany (count : Nat)
  /-- The output path is empty or absolute. -/
  | outputNotRelative (path : Text)
  /-- The archives are no list. -/
  | archivesNotListed
  deriving DecidableEq

/-- The fault in words. -/
def SettingsFault.message : SettingsFault → Text
  | malformedDocument => "Invalid YAML"
  | notAMapping => "Top-level classindex config must be a mapping"
  | basesNotListed typeName =>
    "base_classes must be a list or comma-separated string, got " ++ typeName
  | baseNotText description => "Invalid base class entry: " ++ description
  | unknownShape name => Index.Shape.unknownMessage name
  | flatOfMany count => "flat output supports exactly one base class, got " ++ Text.ofNat count
  | outputNotRelative path => "output_path must be a relative path, got '" ++ path ++ "'"
  | archivesNotListed => "archives must be a list of paths"

/-- A fault and the file that has it. The name is empty where no file is known. -/
structure SettingsError where
  fault : SettingsFault
  file : Text
  deriving DecidableEq

namespace SettingsError

/-- The error in words. -/
def message (e : SettingsError) : Text := e.fault.message

/-- The error as named texts. -/
def fields (e : SettingsError) : List (Text × Text) :=
  let file : List (Text × Text) := if e.file.isEmpty then [] else [("file", e.file)]
  (("error" : Text), ("config_invalid" : Text)) :: (("message" : Text), e.message) :: file

/-- The error in a line. -/
def line (e : SettingsError) : Text :=
  if e.file.isEmpty then e.message else e.message ++ " | file: " ++ e.file

end SettingsError

namespace Settings

/-- What is wrong with settings whose archives are a list. -/
def fault? (s : Settings) : Option SettingsFault :=
  if s.shape = .flat ∧ 1 < s.requestedBases.length then
    some (.flatOfMany s.requestedBases.length)
  else if s.outputPath = [] ∨ (Path.ofText s.outputPath).isAbsolute then
    some (.outputNotRelative s.outputPath)
  else none

/-- The settings if nothing is wrong with them; `file` is where they come from. -/
def checked (s : Settings) (file : Text) : Except SettingsError Settings :=
  match s.fault? with
  | some fault => .error ⟨fault, file⟩
  | none => .ok s

/-- The settings with a value for the archives, if nothing is wrong with them. -/
def withArchives (s : Settings) (archives : Value) : Except SettingsFault Settings :=
  match s.fault? with
  | some fault => .error fault
  | none =>
    match archives with
    | .list items => .ok { s with archives := items }
    | _ => .error .archivesNotListed

end Settings

/-- Why settings cannot be read. -/
inductive SettingsFailure
  /-- They are refused. -/
  | refused (error : SettingsError)
  /-- A value that has to be spelled has no spelling. -/
  | unspellable
  /-- The file is not UTF-8. -/
  | undecodable
  /-- The disk refused the file. -/
  | disk (fault : DiskFault)
  /-- A scalar of the document has no value of its type. -/
  | scalar (fault : Yaml.Fault)
  deriving DecidableEq

/-- The names among texts: blanks around a name do not count, and empty names are left out. -/
def trimmedNames (ts : List Text) : List Text := (ts.map Text.strip).filter fun t => !t.isEmpty

/-- The names in a text that separates them by commas. -/
def commaNames (t : Text) : List Text := trimmedNames (t.splitOnPoint ',')

/-- The complaint about a base class that is no text. -/
def baseFailure (file : Text) (v : Value) : SettingsFailure :=
  match v.describe with
  | some description => .refused ⟨.baseNotText description, file⟩
  | none => .unspellable

/-- The base classes among values, which all have to be texts. -/
def baseNames (file : Text) (values : List Value) : Except SettingsFailure (List Text) :=
  match values.find? fun v => v.asText?.isNone with
  | some v => .error (baseFailure file v)
  | none => .ok (trimmedNames (values.filterMap Value.asText?))

/-- The base classes that a value names: a list, or a text that separates them by commas. Null
names none. -/
def baseClassesOf (file : Text) (v : Value) : Except SettingsFailure (List Text) :=
  match v with
  | .null => .ok []
  | .text t => .ok (commaNames t)
  | .list items => baseNames file items
  | .pair first second => baseNames file [first, second]
  | v => .error (.refused ⟨.basesNotListed v.typeName, file⟩)

end SubclassIndex
