import SubclassIndex.Build.Context
import SubclassIndex.Settings.Basic
import SubclassIndex.Source.ClassDirectory
import SubclassIndex.Source.Dependency

/-!
# Scanning sources

The sources of a build in order of precedence: the classes directory, then the archives as they are
listed. An archive whose own index covers all requested bases is served from it and its classes are
not read. An archive that cannot be opened or read is skipped; headers that it supplied before the
failure stay.
-/

namespace SubclassIndex

open Document

/-- A context after a step, and the failure that ended the step if there was one. -/
abbrev Stepped := BuildContext × Option Failure

namespace BuildContext

variable [Zip.Library]

/-- Adds what a source supplied. -/
def absorb (c : BuildContext) (h : Harvest) (label : Text) : Stepped :=
  ({ c with headers := (HeaderStore.addAll c.headers h.headers label).1 }, h.failure)

/-- Gathers the rows of an index that an archive carries, and says whether it covers all requested
bases. A flat index is always taken to cover the first one. -/
def gather (c : BuildContext) (shape : Index.Shape) (text : Text) : BuildContext × Bool :=
  match shape, c.requested with
  | .flat, base :: _ => ({ c with embedded := Index.gatherFlat text base c.embedded }, true)
  | .flat, [] => (c, true)
  | .properties, requested =>
    let (embedded, complete) := Index.gatherKeyed text requested c.embedded
    ({ c with embedded }, complete)

/-- Looks for an index in an archive, if indices are to be used, and says whether the archive is
served by it. -/
def consult (c : BuildContext) (s : Settings) (x : Dependency) :
    Except Failure (BuildContext × Bool) :=
  if !s.usePrecomputed || c.requested.isEmpty then .ok (c, false)
  else
    match x.text? s.outputPath with
    | .error e => .error e
    | .ok none => .ok (c.inform ("No precomputed index in " ++ x.label), false)
    | .ok (some text) =>
      match c.gather s.shape text with
      | (c, true) => .ok (c.inform ("Using precomputed index from " ++ x.label), true)
      | (c, false) =>
        .ok (c.inform ("Precomputed index in " ++ x.label ++ " incomplete for configured bases"),
          false)

/-- Reads an opened archive that is listed under a text. -/
def read (c : BuildContext) (s : Settings) (x : Dependency) (listed : Text) : Stepped :=
  match c.consult s x with
  | .error e => (c, some e)
  | .ok (c, true) => ({ c with served := c.served ++ [listed] }, none)
  | .ok (c, false) => (c.inform ("Scanning classes in " ++ x.label)).absorb x.harvest x.label

/-- Skips the archive if a step failed because of it. Any other failure stands. -/
def skipIfUnreadable (listed : Text) : Stepped → Stepped
  | (c, none) => (c, none)
  | (c, some e) =>
    if e.isInputFailure then
      let c := c.warn ("Archive scan failed for " ++ listed ++ ": " ++ e.message)
      ({ c with skipped := c.skipped ++ [listed] }, none)
    else (c, some e)

/-- Adds the archive that a value names. -/
def scanArchive (c : BuildContext) (s : Settings) (d : Disk) (archive : Value) : Stepped :=
  match archive with
  | .text listed =>
    let x : Dependency := { path := .ofText listed }
    skipIfUnreadable listed <|
      match x.opened d with
      | .error e => (c, some e)
      | .ok x => c.read s x listed
  | _ => (c, some .notAPath)

/-- Adds archives one after another, up to the first failure that stands. -/
def scanArchives (c : BuildContext) (s : Settings) (d : Disk) : List Value → Stepped
  | [] => (c, none)
  | archive :: rest =>
    match c.scanArchive s d archive with
    | (c, none) => c.scanArchives s d rest
    | failed => failed

/-- Adds the classes directory and then all archives. -/
def collect (c : BuildContext) (s : Settings) (d : Disk) (classes : ClassDirectory) : Stepped :=
  match c.absorb (classes.harvest d) classes.label with
  | (c, some e) => (c, some e)
  | (c, none) =>
    match c.scanArchives s d s.archives with
    | (c, some e) => (c, some e)
    | (c, none) => (c.inform ("headers size = " ++ Text.ofNat c.headers.size), none)

end BuildContext

end SubclassIndex
