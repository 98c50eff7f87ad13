import SubclassIndex.Cli.Arguments

/-!
# Usage

What is said about the command line: help where it is asked for, and otherwise why no request was
made.
-/

namespace SubclassIndex.Cli

/-- The name of the program. -/
def programName : Text := "classindex"

namespace Command

/-- What a command does. -/
def summary : Command → Text
  | build => "Scan classes and dependency archives and write the index"
  | query => "List implementations of a base from the generated index"
  | status => "Show generated index status"

end Command

namespace Switch

/-- What an option does. -/
def summary : Switch → Text
  | help => "show this help message and exit"
  | config => "Path to config file (default: classindex.yaml)"
  | classesDirectory => "Compiled classes directory of the module"
  | output => "Index path relative to the classes directory"
  | flat => "Single-base flat index (one name per line)"
  | archive => "Dependency archive to scan (repeatable, in resolution order)"
  | base => "Base class (dotted; when building repeatable or comma-separated)"
  | noPrecomputed => "Always scan archive classes instead of trusting embedded indices"
  | verbose => "Log progress to stderr"

/-- The options among some spellings, each once. -/
def among (names : Names) : List Switch := (names.map Prod.snd).eraseDups

/-- All spellings of an option, separated by commas. -/
def spellings (names : Names) (s : Switch) : Text :=
  Text.join ", " ((names.filter fun e => decide (e.2 = s)).map Prod.fst)

end Switch

/-- The names of the commands as one of them is to be chosen. -/
def commandChoice : Text :=
  "\x7b" ++ Text.join "," (Command.all.map Command.name) ++ "\x7d"

/-- The line that shows how the program or a command is called. -/
def usageLine (command : Option Command) : Text :=
  match command with
  | none => "usage: " ++ programName ++ " [-h] " ++ commandChoice ++ " ...\n"
  | some c => "usage: " ++ programName ++ " " ++ c.name ++ " [-h] [options]\n"

/-- A line of a help text. -/
def helpLine (subject summary : Text) : Text := "  " ++ subject ++ "  " ++ summary ++ "\n"

/-- The help about some options. -/
def optionHelp (names : Switch.Names) : Text :=
  "options:\n" ++ (Switch.among names).flatMap fun s =>
    helpLine (Switch.spellings names s) s.summary

/-- The help about the program or a command. -/
def helpText (command : Option Command) : Text :=
  match command with
  | none =>
    usageLine none ++ "\nIndex concrete implementations of base classes across compiled classes" ++
      " and jars\n\ncommands:\n" ++ (Command.all.flatMap fun c => helpLine c.name c.summary) ++
      "\n" ++ optionHelp Switch.mainNames
  | some c => usageLine (some c) ++ "\n" ++ optionHelp (Switch.namesOf c)

/-- The longest spelling that an option has in some command. -/
def Switch.longName (s : Switch) : Text :=
  match (Switch.namesOf .build).find? fun e => decide (e.2 = s) with
  | some e => e.1
  | none => []

/-- The misuse in words. -/
def Misuse.message : Misuse → Text
  | ambiguous argument => "ambiguous option: " ++ argument
  | valueMissing s => "argument " ++ s.longName ++ ": expected one argument"
  | valueIgnored s value =>
    "argument " ++ s.longName ++ ": ignored explicit argument '" ++ value ++ "'"
  | unknownCommand name =>
    "argument command: invalid choice: '" ++ name ++ "' (choose from " ++
      Text.join ", " (Command.all.map Command.name) ++ ")"
  | commandMissing => "the following arguments are required: command"
  | baseMissing => "the following arguments are required: --base/-b"
  | unrecognized arguments => "unrecognized arguments: " ++ Text.join " " arguments

/-- What is printed about a misuse. -/
def misuseText (m : Misuse) : Text :=
  usageLine none ++ programName ++ ": error: " ++ m.message ++ "\n"

end SubclassIndex.Cli
