import SubclassIndex.Cli.Outcome
import SubclassIndex.Cli.Usage
import SubclassIndex.Index.Saved
import SubclassIndex.Settings.Load

/-!
# The program

The three commands: building an index, listing what it holds for a base, and summing it up. All of
them start from the settings file with the options applied.
-/

namespace SubclassIndex.Cli

/-- The settings file that is looked for in the current directory. -/
def settingsName : Text := "classindex.yaml"

/-- The settings file of a request. -/
def settingsPath (o : Options) (d : Disk) : Path :=
  if o.config.isEmpty then (Path.ofNames d.current).join (.ofText settingsName)
  else .ofText o.config

/-- The archive that an option names. Where none is named, there is an empty list. -/
def archiveGiven : Given → Document.Value
  | .text t => .text t
  | .nothing => .list []

/-- The settings with what the options say. -/
def Options.apply (o : Options) (s : Settings) : Settings :=
  { s with
    classesDirectory :=
      if o.classesDirectory.isEmpty then s.classesDirectory else o.classesDirectory
    archives := if o.archives.isEmpty then s.archives else o.archives.map archiveGiven
    baseClasses :=
      if o.bases.isEmpty then s.baseClasses
      else o.bases.flatMap fun b => commaNames b.textOrEmpty
    outputPath := if o.output.isEmpty then s.outputPath else o.output
    shape := if o.flat then .flat else s.shape
    usePrecomputed := s.usePrecomputed && !o.noPrecomputed
    verbose := s.verbose || o.verbose }

/-- Whether the options say anything about a setting. -/
def Options.overrides (o : Options) : Bool :=
  !o.classesDirectory.isEmpty || !o.archives.isEmpty || !o.bases.isEmpty || !o.output.isEmpty ||
    o.flat || o.noPrecomputed || o.verbose

/-- Loaded settings with what the options say. They have been checked when they were loaded, and are
checked again only if the options say something; `file` is where they come from. -/
def Options.revise (o : Options) (file : Text) (s : Settings) : Except SettingsFailure Settings :=
  if o.overrides then
    match (o.apply s).checked file with
    | .ok s => .ok s
    | .error e => .error (.refused e)
  else .ok s

/-- The settings of a request. -/
def settingsOf (o : Options) (d : Disk) : Except SettingsFailure Settings :=
  let p := settingsPath o d
  match Settings.load d p with
  | .ok s => o.revise p.text s
  | .error e => .error e

/-- What a finished run prints about its result. -/
def resultText (report : RunReport) (r : BuildResult) : Text :=
  let row := fun e : Text × List Text =>
    ClassName.dotted e.1 ++ ": " ++ Text.ofNat e.2.length ++ " implementation(s)\n"
  let output : Text := if report.written then "Output: " else "Output unchanged: "
  let skipped : Text :=
    if r.skipped.isEmpty then []
    else "Skipped " ++ Text.ofNat r.skipped.length ++ " unreadable archive(s)\n"
  let path : Text := (report.output.map Path.text).getD []
  r.rows.entries.flatMap row ++ output ++ path ++ "\n" ++ skipped

/-- What a finished run prints, and how the program ends. -/
def reportText (s : Settings) (report : RunReport) : ExitCode × Text :=
  match report.result with
  | none =>
    (.success, "No classes directory at " ++ s.classesDirectory ++ ", nothing to index\n")
  | some r =>
    if r.rows.isEmpty then (.success, "No base classes configured, nothing to index\n")
    else (if r.skipped.isEmpty then .success else .partialSuccess, resultText report r)

variable [Zip.Library]

/-- Builds the index. -/
def buildCommand (s : Settings) (d : Disk) : Disk × Outcome :=
  match run s d with
  | (d, ⟨notes, .ok report⟩) =>
    let (code, printed) := reportText s report
    (d, .ofTexts code printed (noteLines s.verbose notes))
  | (d, ⟨notes, .error (.malformedClass fault)⟩) =>
    let note : Note := ⟨.error, "Malformed class file: " ++ fault.message⟩
    (d, .ofTexts .malformedClass [] (noteLines s.verbose (notes ++ [note])))
  | (d, ⟨notes, .error e⟩) =>
    if e.isInputFailure then
      let note : Note := ⟨.error, "Index build failed"⟩
      (d, .ofTexts .unusable [] (noteLines s.verbose (notes ++ [note])))
    else (d, .aborted (.failure e))

/-- Lists what is indexed for a base. -/
def queryCommand (s : Settings) (base : Given) (d : Disk) : Outcome :=
  match Index.saved s d, base with
  | .error e, _ => .aborted (.failure e)
  | .ok none, _ => .ofTexts .unusable "Index not found. Run 'classindex build' first.\n" []
  | .ok (some _), .nothing => .aborted .baseNotText
  | .ok (some l), .text base =>
    match l.find? base with
    | none => .ofTexts .success ("Base not indexed: " ++ base ++ "\n") []
    | some names => .ofTexts .success (names.flatMap fun n => n ++ "\n") []

/-- What is printed about an index. -/
def statusText (s : Settings) (index : Option Index.Listing) : Text :=
  let title : Text := "Class Index Status\n" ++ Text.ofChars (List.replicate 40 '=') ++ "\n"
  match index with
  | none => title ++ "\nIndex: NOT FOUND\n  Expected at: " ++ s.outputFile.text ++ "\n"
  | some l =>
    let row := fun e : Text × Nat => "    " ++ e.1 ++ ": " ++ Text.ofNat e.2 ++ "\n"
    title ++ "\nIndex: " ++ s.outputFile.text ++ "\n  Shape: " ++ s.shape.name ++
      "\n  Implementations: " ++ Text.ofNat l.total ++ "\n  By base:\n" ++
      l.counts.entries.flatMap row

/-- Sums the index up. -/
def statusCommand (s : Settings) (d : Disk) : Outcome :=
  match Index.saved s d with
  | .error e => .aborted (.failure e)
  | .ok index => .ofTexts .success (statusText s index) []

/-- Does what a request asks for. -/
def perform (r : Request) (d : Disk) : Disk × Outcome :=
  match settingsOf r.options d with
  | .error (.refused e) => (d, .ofTexts .settingsRefused [] (refusalLine e))
  | .error e => (d, .aborted (.settings e))
  | .ok s =>
    match r.task with
    | .build => buildCommand s d
    | .query base => (d, queryCommand s base d)
    | .status => (d, statusCommand s d)

/-- Runs the program with arguments on a disk. -/
def program (arguments : List Text) (d : Disk) : Disk × Outcome :=
  match readArguments arguments with
  | .error (.help command) => (d, .ofTexts .success (helpText command) [])
  | .error (.misuse m) => (d, .ofTexts .unusable [] (misuseText m))
  | .ok r => perform r d

end SubclassIndex.Cli
