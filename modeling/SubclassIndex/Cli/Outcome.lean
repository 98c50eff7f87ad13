import SubclassIndex.Build.Run
import SubclassIndex.Settings.Check
import SubclassIndex.Text.AsciiJson

/-!
# Outcomes

What the program leaves behind: an exit code, what it printed and what it reported, or the failure
that ended it. What is printed has to be free of surrogates; in reports they are written by their
numbers.
-/

namespace SubclassIndex.Cli

/-- How the program ends. -/
inductive ExitCode
  | success
  /-- The settings are refused. -/
  | settingsRefused
  /-- A file could not be read or written, or the arguments are wrong. -/
  | unusable
  /-- An archive was skipped. -/
  | partialSuccess
  /-- A class file is malformed. -/
  | malformedClass
  deriving DecidableEq

/-- The number of an exit code. -/
def ExitCode.number : ExitCode → Nat
  | success => 0
  | settingsRefused => 1
  | unusable => 2
  | partialSuccess => 3
  | malformedClass => 4

/-- A failure that no exit code stands for. -/
inductive Abortion
  | settings (f : SettingsFailure)
  | failure (f : Failure)
  /-- The base to be listed is not given by a text. -/
  | baseNotText
  /-- What was to be printed holds a surrogate. -/
  | unprintable

/-- What a command leaves behind. -/
inductive Outcome
  | finished (code : ExitCode) (printed reported : Text)
  | aborted (cause : Abortion)

namespace Outcome

/-- A text for reports, with surrogates written by their numbers. -/
def reportable (t : Text) : Text :=
  t.flatMap fun c => if c.isSurrogate then AsciiJson.unit c.val else [c]

/-- The outcome with what was printed and reported. -/
def ofTexts (code : ExitCode) (printed reported : Text) : Outcome :=
  if printed.any CodePoint.isSurrogate then aborted .unprintable
  else finished code printed (reportable reported)

end Outcome

/-- The line that reports a note. -/
def noteLine (n : Note) : Text :=
  let level : Text :=
    match n.level with
    | .info => "INFO"
    | .error => "ERROR"
  "[classindex] " ++ level ++ " " ++ n.text ++ "\n"

/-- The lines for notes. Progress is left out unless asked for. -/
def noteLines (verbose : Bool) (ns : List Note) : Text :=
  (ns.filter fun n => verbose || n.level = .error).flatMap noteLine

/-- The line that reports a refusal of settings. -/
def refusalLine (e : SettingsError) : Text := AsciiJson.object e.fields ++ "\n"

end SubclassIndex.Cli
