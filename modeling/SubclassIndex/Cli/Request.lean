import SubclassIndex.Text.Basic

/-!
# Requests

What a command line asks for: one of three tasks, and what it says about the settings.
-/

namespace SubclassIndex.Cli

/-- The commands of the program. -/
inductive Command
  | build
  | query
  | status
  deriving DecidableEq

namespace Command

/-- The commands in the order in which they are offered. -/
def all : List Command := [build, query, status]

/-- The name of a command. -/
def name : Command → Text
  | build => "build"
  | query => "query"
  | status => "status"

/-- The command with a name. -/
def ofName? (t : Text) : Option Command := all.find? fun c => decide (c.name = t)

theorem ofName?_name (c : Command) : ofName? c.name = some c := by cases c <;> decide

end Command

/-- The options of the commands. -/
inductive Switch
  | help
  | config
  | classesDirectory
  | output
  | flat
  | archive
  | base
  | noPrecomputed
  | verbose
  deriving DecidableEq

namespace Switch

/-- Whether an option has a value. -/
def takesValue : Switch → Bool
  | help | flat | noPrecomputed | verbose => false
  | _ => true

/-- The spellings of options. -/
abbrev Names := List (Text × Switch)

/-- The options that may come before a command. -/
def mainNames : Names := [("-h", help), ("--help", help)]

/-- The options of all commands. -/
def commonNames : Names :=
  mainNames ++ ([("--config", config), ("-c", config), ("--classes-dir", classesDirectory),
    ("--output", output), ("--flat", flat)] : Names)

/-- The options of a command. -/
def namesOf : Command → Names
  | .build => commonNames ++ ([("--archive", archive), ("-a", archive), ("--base", base),
      ("-b", base), ("--no-precomputed", noPrecomputed), ("--verbose", verbose),
      ("-v", verbose)] : Names)
  | .query => commonNames ++ ([("--base", base), ("-b", base)] : Names)
  | .status => commonNames

end Switch

/-- What an option is given for its value. -/
inductive Given
  | text (t : Text)
  /-- No value at all, for which two hyphens are written in the argument of the option itself. -/
  | nothing
  deriving DecidableEq

namespace Given

/-- What is given by a text in the argument of the option itself. -/
def ofAttached (t : Text) : Given := if t = ("--" : Text) then nothing else text t

/-- The text that is given, or the empty one. -/
def textOrEmpty : Given → Text
  | text t => t
  | nothing => []

end Given

/-- What the options say. An empty text says nothing. -/
structure Options where
  config : Text := []
  classesDirectory : Text := []
  output : Text := []
  flat : Bool := false
  archives : List Given := []
  bases : List Given := []
  noPrecomputed : Bool := false
  verbose : Bool := false

namespace Options

/-- Takes an option with its value. Archives and bases add up, of the others the last one counts. -/
def withValue (o : Options) (s : Switch) (value : Given) : Options :=
  match s with
  | .config => { o with config := value.textOrEmpty }
  | .classesDirectory => { o with classesDirectory := value.textOrEmpty }
  | .output => { o with output := value.textOrEmpty }
  | .archive => { o with archives := o.archives ++ [value] }
  | .base => { o with bases := o.bases ++ [value] }
  | _ => o

/-- Takes an option without a value. -/
def withFlag (o : Options) (s : Switch) : Options :=
  match s with
  | .flat => { o with flat := true }
  | .noPrecomputed => { o with noPrecomputed := true }
  | .verbose => { o with verbose := true }
  | _ => o

end Options

/-- What is to be done. -/
inductive Task
  | build
  /-- List what is indexed for a base. -/
  | query (base : Given)
  | status

/-- A task and what the options say about the settings. -/
structure Request where
  task : Task
  options : Options

end SubclassIndex.Cli
