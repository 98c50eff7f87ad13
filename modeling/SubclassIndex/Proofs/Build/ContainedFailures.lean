import SubclassIndex.Proofs.Build.ServedArchives
import SubclassIndex.Proofs.Disk.FileLemmas

/-!
# How the scan of an archive ends

The scan of an archive should end in one of four ways: the archive is served from its index, it is
skipped, all its classes are read, or one of them is malformed (`ScanContained`). It does so unless
one of a few things is met that are neither taken for a failure of the archive nor for one of a
class file (`Escapes`): a listed value that is no text, an archive that asks for a later version of
the format, a name that is marked as UTF-8 and is not, a member without a name where the library
asks for one, a member at an offset that no file can have, an unpacker that fails in a way of its
own, and a class whose superclass has no decodable name. That holds with any library, whatever its
release and its unpackers (`BuildContext.scanArchive_contained_iff`).
-/

namespace SubclassIndex

open Document

/-- Whether a scan may meet a failure: it concerns what was to be read, or a class is malformed. -/
def Failure.isExpected : Failure → Bool
  | malformedClass _ => true
  | e => e.isInputFailure

theorem Failure.isExpected_iff {e : Failure} :
    e.isExpected = true ↔ e.isInputFailure = true ∨ ∃ fault, e = .malformedClass fault := by
  cases e <;> simp [isExpected, isInputFailure]

theorem Document.Value.asText?_eq_some {v : Value} {t : Text} :
    v.asText? = some t ↔ v = .text t := by
  refine ⟨fun h => ?_, fun h => h ▸ rfl⟩
  unfold asText? Scalar.asText? at h
  split at h
  · split at h <;> cases h
    rfl
  · cases h

/-! ## What a scan does not expect -/

/-- Whether nobody who reads a member is prepared for a fault of it. -/
inductive Zip.MemberFault.Unforeseen : Zip.MemberFault → Prop
  | headerName : Unforeseen .undecodableName
  | outOfRange : Unforeseen .outOfRange
  | unpacker (text : Text) : Unforeseen (.unpacker text)

section

variable [Zip.Library]

/-- A member at which the reading of classes stops, although it is not found unreadable and no
class is found malformed. -/
inductive Zip.Archive.Stray (a : Zip.Archive) (m : Zip.Member) : Prop
  | nameless (required : Zip.Library.namesRequired = true) (name : m.name = [])
  | content {fault : Zip.MemberFault} (path : ClassName.isClassPath m.name = true)
    (content : a.content m = .error fault) (unforeseen : fault.Unforeseen)
  /-- The name of the superclass, or another text of the class file, cannot be decoded. -/
  | classText {bytes : Bytes} (path : ClassName.isClassPath m.name = true)
    (content : a.content m = .ok bytes)
    (header : ClassFile.readHeader bytes = .error .undecodable)

/-- What a scan of an archive meets when it ends in none of the ways in which it should. -/
inductive Escapes (s : Settings) (d : Disk) (requested : List Text) : Value → Prop
  | notText {archive : Value} (value : archive.asText? = none) : Escapes s d requested archive
  | tooNew {listed : Text} {bytes : Bytes} (file : d.readFile (.ofText listed) = .ok bytes)
    (fault : Zip.Archive.ofBytes bytes = .error .tooNew) : Escapes s d requested (.text listed)
  | directoryName {listed : Text} {bytes : Bytes} (file : d.readFile (.ofText listed) = .ok bytes)
    (fault : Zip.Archive.ofBytes bytes = .error .undecodableName) :
    Escapes s d requested (.text listed)
  | indexContent {archive : Value} {x : Dependency} {a : Zip.Archive} {m : Zip.Member}
    {fault : Zip.MemberFault} (opened : openedArchive d archive = .ok x)
    (zip : x.archive? = some a) (consulted : s.usePrecomputed = true ∧ requested ≠ [])
    (member : a.member? s.outputPath = some m) (content : a.content m = .error fault)
    (unforeseen : fault.Unforeseen) : Escapes s d requested archive
  | entry {archive : Value} {x : Dependency} {a : Zip.Archive} {front rest : List Zip.Member}
    {m : Zip.Member} {index : Option Text} (opened : openedArchive d archive = .ok x)
    (zip : x.archive? = some a) (consulted : x.index? s requested = .ok index)
    (served : x.isServed s requested = false) (members : a.members = front ++ m :: rest)
    (before : ∀ m' ∈ front, (x.read a m').isOk = true) (stray : a.Stray m) :
    Escapes s d requested archive

end

namespace Dependency

variable {x x' : Dependency} {a : Zip.Archive} {m : Zip.Member} {d : Disk} {s : Settings}
  {requested : List Text}

theorem memberFailure_unexpected_iff {fault : Zip.MemberFault} :
    (x.memberFailure m fault).isExpected = false ↔ fault.Unforeseen := by
  constructor
  · intro h
    cases fault with
    | unreadable => cases h
    | undecodableName => exact .headerName
    | misplaced => cases h
    | outOfRange => exact .outOfRange
    | system text => cases h
    | unpacker text => exact .unpacker text
  · rintro (_ | _ | text) <;> rfl

theorem headerOf_unexpected_iff {name : Text} {bytes : Bytes} :
    (∃ e, Harvest.headerOf name bytes = .error e ∧ e.isExpected = false) ↔
      ClassFile.readHeader bytes = .error .undecodable := by
  unfold Harvest.headerOf
  cases ClassFile.readHeader bytes with
  | ok header => simp
  | error fault =>
    cases fault <;>
      simp [Failure.ofHeaderFault, Failure.isExpected, Failure.isInputFailure]

variable [Zip.Library]

/-- The failure at which the reading of an opened archive stops. -/
def stop? (x : Dependency) (s : Settings) (requested : List Text) : Option Failure :=
  match x.index? s requested with
  | .error e => some e
  | .ok _ => if x.isServed s requested then none else x.harvest.failure

/-- A file that is no archive is expected, an archive with one of two faults is not. -/
theorem opened_unexpected_iff : (∃ e, x.opened d = .error e ∧ e.isExpected = false) ↔
    ∃ bytes, d.readFile x.path = .ok bytes ∧
      (Zip.Archive.ofBytes bytes = .error .tooNew ∨
        Zip.Archive.ofBytes bytes = .error .undecodableName) := by
  cases hfile : d.isFile x.path with
  | error fault =>
    obtain ⟨rfl, hlookup⟩ := Disk.isFile_eq_error hfile
    simp [opened, hfile, Failure.isExpected, Failure.isInputFailure, Disk.readFile, hlookup]
  | ok isFile =>
    cases isFile with
    | false =>
      have hread : ∀ bytes, d.readFile x.path ≠ .ok bytes := by
        intro bytes hread
        rw [Disk.isFile_of_lookup (Disk.lookup_of_readFile hread)] at hfile
        cases hfile
      simp [opened, hfile, Failure.isExpected, Failure.isInputFailure, hread]
    | true =>
      obtain ⟨bytes, hlookup⟩ := Disk.isFile_eq_true.1 hfile
      simp only [opened, hfile, Disk.readFile_of_lookup hlookup]
      cases hbytes : Zip.Archive.ofBytes bytes with
      | ok a => simp [hbytes]
      | error fault => cases fault <;> simp [hbytes, Failure.isExpected, Failure.isInputFailure]

theorem content_unexpected_iff : (∃ e, x.content a m = .error e ∧ e.isExpected = false) ↔
    ∃ fault, a.content m = .error fault ∧ fault.Unforeseen := by
  unfold content
  cases a.content m with
  | ok bytes => simp
  | error fault => simp [memberFailure_unexpected_iff]

/-- The reading of classes stops at a stray member with a failure that is not expected, and at no
other. -/
theorem read_unexpected_iff :
    (∃ e, x.read a m = .error e ∧ e.isExpected = false) ↔ a.Stray m := by
  unfold read
  by_cases hname : Zip.Library.namesRequired = true ∧ m.name = []
  · obtain ⟨hrequired, hnil⟩ := hname
    rw [if_pos (by rw [hrequired, hnil]; rfl)]
    exact iff_of_true ⟨_, rfl, rfl⟩ (.nameless hrequired hnil)
  · rw [if_neg (by rwa [Bool.and_eq_true, List.isEmpty_iff])]
    cases hpath : ClassName.isClassPath m.name with
    | false =>
      refine iff_of_false (by simp) ?_
      rintro (⟨hrequired, hnil⟩ | ⟨hclass, _, _⟩ | ⟨hclass, _, _⟩)
      · exact hname ⟨hrequired, hnil⟩
      · rw [hpath] at hclass
        cases hclass
      · rw [hpath] at hclass
        cases hclass
    | true =>
      simp only [Bool.not_true, Bool.false_eq_true, if_false]
      cases hcontent : x.content a m with
      | error e =>
        have hfault : e.isExpected = false ↔ ∃ fault, a.content m = .error fault ∧
            fault.Unforeseen := by
          simpa [hcontent] using content_unexpected_iff (x := x) (a := a) (m := m)
        simp only [Except.error.injEq, exists_eq_left', hfault]
        refine ⟨fun ⟨_, hm, hunforeseen⟩ => .content hpath hm hunforeseen, ?_⟩
        rintro (⟨hrequired, hnil⟩ | ⟨_, hm, hunforeseen⟩ | ⟨_, hok, _⟩)
        · exact absurd ⟨hrequired, hnil⟩ hname
        · exact ⟨_, hm, hunforeseen⟩
        · simp [content, hok] at hcontent
      | ok bytes =>
        have hbytes : a.content m = .ok bytes := by
          unfold content at hcontent
          split at hcontent <;> cases hcontent
          assumption
        refine headerOf_unexpected_iff.trans ⟨.classText hpath hbytes, ?_⟩
        rintro (⟨hrequired, hnil⟩ | ⟨_, hm, _⟩ | ⟨_, hok, hheader⟩)
        · exact absurd ⟨hrequired, hnil⟩ hname
        · rw [hbytes] at hm
          cases hm
        · rw [hbytes] at hok
          cases hok
          exact hheader

theorem text?_unexpected_iff {entry : Text} (hopen : x.archive? = some a) :
    (∃ e, x.text? entry = .error e ∧ e.isExpected = false) ↔
      ∃ m, a.member? entry = some m ∧ ∃ fault, a.content m = .error fault ∧
        fault.Unforeseen := by
  simp only [text?, archive, hopen]
  cases a.member? entry with
  | none => simp
  | some m =>
    simp only [Option.some.injEq, exists_eq_left', ← content_unexpected_iff (x := x)]
    cases x.content a m <;> simp

theorem index?_unexpected_iff (hopen : x.archive? = some a) :
    (∃ e, x.index? s requested = .error e ∧ e.isExpected = false) ↔
      (s.usePrecomputed = true ∧ requested ≠ []) ∧
        ∃ m, a.member? s.outputPath = some m ∧ ∃ fault, a.content m = .error fault ∧
          fault.Unforeseen := by
  unfold index?
  cases s.usePrecomputed with
  | false => simp
  | true =>
    cases requested with
    | nil => simp
    | cons base rest => simpa using text?_unexpected_iff hopen

theorem harvest_unexpected_iff (hopen : x.archive? = some a) :
    (∃ e, x.harvest.failure = some e ∧ e.isExpected = false) ↔
      ∃ front m rest, a.members = front ++ m :: rest ∧
        (∀ m' ∈ front, (x.read a m').isOk = true) ∧ a.Stray m := by
  simp only [harvest_of_opened hopen, Harvest.failure_collect, ← read_unexpected_iff (x := x)]
  constructor
  · rintro ⟨e, ⟨front, m, rest, hmembers, hfront, hm⟩, he⟩
    exact ⟨front, m, rest, hmembers, hfront, e, hm, he⟩
  · rintro ⟨front, m, rest, hmembers, hfront, e, hm, he⟩
    exact ⟨e, ⟨front, m, rest, hmembers, hfront, hm⟩, he⟩

theorem stop?_unexpected_iff : (∃ e, x.stop? s requested = some e ∧ e.isExpected = false) ↔
    (∃ e, x.index? s requested = .error e ∧ e.isExpected = false) ∨
      (∃ index, x.index? s requested = .ok index) ∧ x.isServed s requested = false ∧
        ∃ e, x.harvest.failure = some e ∧ e.isExpected = false := by
  unfold stop?
  cases x.index? s requested with
  | error e => simp
  | ok index => cases x.isServed s requested <;> simp

end Dependency

/-! ## How a scan ends -/

section

variable [Zip.Library]

/-- The failure at which the scan of an archive stops, whether the archive is skipped for it or
not. -/
def stopOf? (s : Settings) (d : Disk) (requested : List Text) (archive : Value) : Option Failure :=
  match openedArchive d archive with
  | .error e => some e
  | .ok x => x.stop? s requested

variable {s : Settings} {d : Disk} {requested : List Text} {archive : Value} {x : Dependency}

theorem stopOf?_of_error {e : Failure} (h : openedArchive d archive = .error e) :
    stopOf? s d requested archive = some e := by
  rw [stopOf?, h]

theorem stopOf?_of_opened (h : openedArchive d archive = .ok x) :
    stopOf? s d requested archive = x.stop? s requested := by
  rw [stopOf?, h]

/-- What escapes a scan stops it. -/
theorem Escapes.stops (h : Escapes s d requested archive) :
    ∃ e, stopOf? s d requested archive = some e ∧ e.isExpected = false := by
  have hlisted : ∀ {listed bytes}, d.readFile (.ofText listed) = .ok bytes →
      (Zip.Archive.ofBytes bytes = .error .tooNew ∨
        Zip.Archive.ofBytes bytes = .error .undecodableName) →
      ∃ e, stopOf? s d requested (.text listed) = some e ∧ e.isExpected = false := by
    intro listed bytes hfile hfault
    obtain ⟨e, hopened, he⟩ := Dependency.opened_unexpected_iff
      (x := { path := .ofText listed }).2 ⟨bytes, hfile, hfault⟩
    exact ⟨e, stopOf?_of_error hopened, he⟩
  cases h with
  | @notText archive hvalue =>
    refine ⟨.notAPath, stopOf?_of_error ?_, rfl⟩
    unfold openedArchive
    split
    · cases hvalue
    · rfl
  | tooNew hfile hfault => exact hlisted hfile (.inl hfault)
  | directoryName hfile hfault => exact hlisted hfile (.inr hfault)
  | indexContent hopened hopen hconsulted hmember hcontent hunforeseen =>
    rw [stopOf?_of_opened hopened, Dependency.stop?_unexpected_iff]
    exact .inl ((Dependency.index?_unexpected_iff hopen).2
      ⟨hconsulted, _, hmember, _, hcontent, hunforeseen⟩)
  | entry hopened hopen hindex hserved hmembers hfront hstray =>
    rw [stopOf?_of_opened hopened, Dependency.stop?_unexpected_iff]
    exact .inr ⟨⟨_, hindex⟩, hserved,
      (Dependency.harvest_unexpected_iff hopen).2 ⟨_, _, _, hmembers, hfront, hstray⟩⟩

/-- A scan stops with a failure that is not expected exactly where it meets something that escapes
it. -/
theorem stopOf?_unexpected_iff : (∃ e, stopOf? s d requested archive = some e ∧
    e.isExpected = false) ↔ Escapes s d requested archive := by
  refine ⟨fun h => ?_, Escapes.stops⟩
  cases htext : archive.asText? with
  | none => exact .notText htext
  | some listed =>
    obtain rfl := Value.asText?_eq_some.1 htext
    cases hopened : openedArchive d (.text listed) with
    | error e =>
      rw [stopOf?_of_error hopened] at h
      obtain ⟨_, ⟨⟩, he⟩ := h
      obtain ⟨bytes, hfile, hfault | hfault⟩ :=
        Dependency.opened_unexpected_iff.1 ⟨e, hopened, he⟩
      · exact .tooNew hfile hfault
      · exact .directoryName hfile hfault
    | ok x =>
      obtain ⟨_, a, hopen⟩ := Dependency.opened_eq_ok hopened
      rw [stopOf?_of_opened hopened, Dependency.stop?_unexpected_iff] at h
      rcases h with h | ⟨⟨index, hindex⟩, hserved, h⟩
      · obtain ⟨hconsulted, m, hmember, fault, hcontent, hunforeseen⟩ :=
          (Dependency.index?_unexpected_iff hopen).1 h
        exact .indexContent hopened hopen hconsulted hmember hcontent hunforeseen
      · obtain ⟨front, m, rest, hmembers, hfront, hstray⟩ :=
          (Dependency.harvest_unexpected_iff hopen).1 h
        exact .entry hopened hopen hindex hserved hmembers hfront hstray

/-- The scan of an archive ends in one of the ways in which it should: the path is listed as served
by an index that covers the requested bases, or as skipped for a failure to open or read it, or
neither, with all its classes read; or a class is malformed. -/
inductive ScanContained (c : BuildContext) (s : Settings) (d : Disk) (archive : Value) : Prop
  | served {listed : Text} {x : Dependency} {c' : BuildContext} (value : archive = .text listed)
    (opened : openedArchive d archive = .ok x) (covers : x.isServed s c.requested = true)
    (scan : c.scanArchive s d archive = (c', none)) (served : c'.served = c.served ++ [listed])
    (skipped : c'.skipped = c.skipped)
  | skipped {listed : Text} {e : Failure} {c' : BuildContext} (value : archive = .text listed)
    (stop : stopOf? s d c.requested archive = some e) (input : e.isInputFailure = true)
    (scan : c.scanArchive s d archive = (c', none)) (served : c'.served = c.served)
    (skipped : c'.skipped = c.skipped ++ [listed])
  | scanned {x : Dependency} {c' : BuildContext} (opened : openedArchive d archive = .ok x)
    (whole : x.harvest.failure = none) (scan : c.scanArchive s d archive = (c', none))
    (served : c'.served = c.served) (skipped : c'.skipped = c.skipped)
    (headers : c'.headers = (c.headers.addAll x.harvest.headers x.label).1)
  | malformed {c' : BuildContext} {fault : ClassFile.FormatFault}
    (scan : c.scanArchive s d archive = (c', some (.malformedClass fault)))

end

namespace BuildContext

section

variable [Zip.Library]

variable {c : BuildContext} {s : Settings} {d : Disk} {archive : Value} {listed : Text}
  {x : Dependency}

/-- Reading an archive ends at its failure. Without one it has listed the archive as served or added
its classes. -/
theorem read_ends (c : BuildContext) (s : Settings) (x : Dependency) (listed : Text) :
    ∃ c', c.read s x listed = (c', x.stop? s c.requested) ∧ c'.skipped = c.skipped ∧
      (x.stop? s c.requested = none ∧ x.isServed s c.requested = true ∧
          c'.served = c.served ++ [listed] ∨
        c'.served = c.served ∧ (x.stop? s c.requested = none → x.harvest.failure = none ∧
          c'.headers = (c.headers.addAll x.harvest.headers x.label).1)) := by
  unfold Dependency.stop? Dependency.isServed
  cases hi : x.index? s c.requested with
  | error e =>
    rw [read_of_error listed hi]
    exact ⟨c, rfl, rfl, .inr ⟨rfl, fun h => by cases h⟩⟩
  | ok index =>
    cases index with
    | none =>
      obtain ⟨notes, hread⟩ := read_of_none listed hi
      rw [hread]
      exact ⟨_, rfl, rfl, .inr ⟨rfl, fun hwhole => ⟨hwhole, rfl⟩⟩⟩
    | some text =>
      obtain ⟨notes, hread⟩ := read_of_some listed hi
      rw [hread, gather_fst]
      dsimp only
      split
      · next hcovers => exact ⟨_, rfl, rfl, .inl ⟨rfl, hcovers, rfl⟩⟩
      · exact ⟨_, rfl, rfl, .inr ⟨rfl, fun hwhole => ⟨hwhole, rfl⟩⟩⟩

/-- The scan of a listed path comes to where it stops, and skips the archive if that is expected of
an archive. -/
theorem scanArchive_ends (c : BuildContext) (s : Settings) (d : Disk) (listed : Text) :
    ∃ c', c.scanArchive s d (.text listed) =
        skipIfUnreadable listed (c', stopOf? s d c.requested (.text listed)) ∧
      c'.skipped = c.skipped ∧
      (stopOf? s d c.requested (.text listed) = none ∧ c'.served = c.served ++ [listed] ∧
          (∃ x, openedArchive d (.text listed) = .ok x ∧ x.isServed s c.requested = true) ∨
        c'.served = c.served ∧ (stopOf? s d c.requested (.text listed) = none →
          ∃ x, openedArchive d (.text listed) = .ok x ∧ x.harvest.failure = none ∧
            c'.headers = (c.headers.addAll x.harvest.headers x.label).1)) := by
  cases hopened : openedArchive d (.text listed) with
  | error e =>
    rw [stopOf?_of_error hopened, scanArchive_of_unopened hopened]
    exact ⟨c, rfl, rfl, .inr ⟨rfl, fun h => by cases h⟩⟩
  | ok x =>
    rw [stopOf?_of_opened hopened, scanArchive_text hopened]
    obtain ⟨c', hread, hskipped, ⟨hstop, hcovers, hserved⟩ | ⟨hserved, hscanned⟩⟩ :=
      read_ends c s x listed
    · rw [hread]
      exact ⟨c', rfl, hskipped, .inl ⟨hstop, hserved, x, rfl, hcovers⟩⟩
    · rw [hread]
      exact ⟨c', rfl, hskipped, .inr ⟨hserved, fun hstop => ⟨x, rfl, hscanned hstop⟩⟩⟩

theorem scanContained_of_standing {e : Failure} (h : (c.scanArchive s d archive).2 = some e) :
    ScanContained c s d archive ↔ ∃ fault, e = .malformedClass fault := by
  constructor
  · rintro (⟨_, _, _, hscan, _, _⟩ | ⟨_, _, _, hscan, _, _⟩ | ⟨_, _, hscan, _, _, _⟩ |
      @⟨_, fault, hscan⟩)
    all_goals
      rw [hscan] at h
      cases h
    exact ⟨fault, rfl⟩
  · rintro ⟨fault, rfl⟩
    exact .malformed (Prod.ext rfl h)

theorem not_scanContained {e : Failure} (h : (c.scanArchive s d archive).2 = some e)
    (he : ∀ fault, e ≠ .malformedClass fault) : ¬ScanContained c s d archive := by
  intro hcontained
  obtain ⟨fault, rfl⟩ := (scanContained_of_standing h).1 hcontained
  exact he fault rfl

theorem scanContained_iff : ScanContained c s d archive ↔
    ∀ e, stopOf? s d c.requested archive = some e → e.isExpected = true := by
  -- what is no text stops the scan before there is a path that could be skipped
  cases htext : archive.asText? with
  | none =>
    have hstanding : (c.scanArchive s d archive).2 = some .notAPath := by
      unfold scanArchive
      split
      · cases htext
      · rfl
    have hescapes : Escapes s d c.requested archive := .notText htext
    obtain ⟨e, hstop, he⟩ := hescapes.stops
    rw [scanContained_of_standing hstanding]
    refine iff_of_false (fun ⟨_, h⟩ => by cases h) fun h => ?_
    rw [h e hstop] at he
    cases he
  | some listed =>
    obtain rfl := Value.asText?_eq_some.1 htext
    obtain ⟨c', hscan, hskipped, hends⟩ := scanArchive_ends c s d listed
    cases hstop : stopOf? s d c.requested (.text listed) with
    | none =>
      rw [hstop] at hscan hends
      refine iff_of_true ?_ fun e h => by cases h
      rcases hends with ⟨_, hserved, x, hopened, hcovers⟩ | ⟨hserved, hscanned⟩
      · exact .served rfl hopened hcovers hscan hserved hskipped
      · obtain ⟨x, hopened, hwhole, hheaders⟩ := hscanned rfl
        exact .scanned hopened hwhole hscan hserved hskipped hheaders
    | some e =>
      rw [hstop] at hscan hends
      obtain ⟨hnone, _, _⟩ | ⟨hserved, _⟩ := hends
      · cases hnone
      simp only [Option.some.injEq, forall_eq', Failure.isExpected_iff]
      unfold skipIfUnreadable at hscan
      dsimp only at hscan
      split at hscan
      · next hinput =>
        refine iff_of_true (.skipped rfl hstop hinput hscan hserved ?_) (.inl hinput)
        dsimp only [warn]
        rw [hskipped]
      · next hinput =>
        rw [scanContained_of_standing (congrArg Prod.snd hscan), or_iff_right hinput]

/-- The scan of an archive ends in one of the ways in which it should unless it meets one of the
things that escape it. -/
theorem scanArchive_contained_iff (c : BuildContext) (s : Settings) (d : Disk) (archive : Value) :
    ScanContained c s d archive ↔ ¬Escapes s d c.requested archive := by
  rw [scanContained_iff, ← stopOf?_unexpected_iff]
  simp

end

/-! ## Scans that escape -/

/-- A class of an archive. -/
def smallMember : Zip.StoredMember := ⟨"l/M.class", ClassFile.childOf "a/B" 33, 0⟩

/-- A disk whose archive holds a member that asks for version 6.4 of the format. -/
def tooNewDisk : Disk :=
  smallDisk [] [("x", (Zip.pack [smallMember]).set (smallMember.record.length + 6) 64)]

/-- A disk whose archive holds a class with a byte that is no text in the name of its superclass. -/
def classTextDisk : Disk :=
  smallDisk [] [("x", Zip.pack [⟨"l/M.class", (ClassFile.childOf "a/B" 33).set 13 0xFF, 0⟩])]

/-- A disk whose archive holds a member without a name. -/
def namelessDisk : Disk := smallDisk [] [("x", Zip.pack [⟨[], [], 0⟩])]

/-- A disk whose archive holds a class at the last offset that 64 bits can say. -/
def outOfRangeDisk : Disk :=
  let extra := [1, 0, 8, 0] ++ List.replicate 8 0xFF
  let directory := (smallMember.entry Zip.wideMark).set 30 12 ++ extra
  smallDisk [] [("x", Zip.assemble smallMember.record directory 1)]

/-- A disk whose archive holds a class that is packed by method 14, with a first byte of options
that the method does not have. -/
def optionsDisk : Disk :=
  let m : Zip.StoredMember := ⟨"l/M.class", [9, 4, 5, 0, 0xFF, 0, 0, 1, 0, 1, 2, 3], 0⟩
  smallDisk [] [("x", (Zip.pack [m]).set (m.record.length + 10) 14)]

/-- A library of a later release with an unpacker for method 14. It fails in a way of its own where
the first byte of the options is out of their range. -/
@[reducible] def laterLibrary : Zip.Library where
  namesRequired := false
  endChecked := false
  namesInExtra := false
  unpack method bytes :=
    if method = 14 ∧ 9 * 5 * 5 ≤ (bytes.getD 4 0).toNat then
      .error (.foreign "Invalid or unsupported options")
    else .error .damaged

/-- Six scans that end otherwise than they should, of listed values of accepted settings. The one
of a member without a name ends as it should with a library that does not ask for names. -/
theorem scanArchive_escapes :
    let c : BuildContext := { requested := ["a/B"] }
    let unlisting : Settings := { smallSettings with archives := [.null] }
    (smallSettings.fault? = none ∧ unlisting.fault? = none) ∧
    (c.scanArchive smallSettings tooNewDisk (.text "x")).2 = some .archiveTooNew ∧
    ¬ScanContained c smallSettings tooNewDisk (.text "x") ∧
    ¬ScanContained c smallSettings classTextDisk (.text "x") ∧
    ¬ScanContained c smallSettings outOfRangeDisk (.text "x") ∧
    ¬ScanContained c unlisting tooNewDisk .null ∧
    ¬@ScanContained laterLibrary c smallSettings optionsDisk (.text "x") ∧
    ¬ScanContained c smallSettings namelessDisk (.text "x") ∧
    @ScanContained laterLibrary c smallSettings namelessDisk (.text "x") := by
  intro c unlisting
  have htooNew : (c.scanArchive smallSettings tooNewDisk (.text "x")).2 =
      some .archiveTooNew := by decide +kernel
  have hclassText : (c.scanArchive smallSettings classTextDisk (.text "x")).2 =
      some .undecodable := by decide +kernel
  have houtOfRange : (c.scanArchive smallSettings outOfRangeDisk (.text "x")).2 =
      some (.entryUnreadable "l/M.class" .outOfRange) := by decide +kernel
  have hnull : (c.scanArchive unlisting tooNewDisk .null).2 = some .notAPath := rfl
  have hoptions : (@scanArchive laterLibrary c smallSettings optionsDisk (.text "x")).2 =
      some (.entryUnreadable "l/M.class" (.unpacker "Invalid or unsupported options")) := by
    decide +kernel
  have hnameless : (c.scanArchive smallSettings namelessDisk (.text "x")).2 =
      some (.namelessEntry ("x" : Text)) := by decide +kernel
  refine ⟨by decide, htooNew, not_scanContained htooNew nofun, not_scanContained hclassText nofun,
    not_scanContained houtOfRange nofun, not_scanContained hnull nofun,
    @not_scanContained laterLibrary _ _ _ _ _ hoptions nofun, not_scanContained hnameless nofun, ?_⟩
  have hstop : @stopOf? laterLibrary smallSettings namelessDisk c.requested (.text "x") = none := by
    decide +kernel
  rw [@scanContained_iff laterLibrary, hstop]
  exact nofun

end BuildContext

end SubclassIndex
