import SubclassIndex.Proofs.Build.ReadableSources
import SubclassIndex.Proofs.Build.SmallDisk
import SubclassIndex.Proofs.Hierarchy.Verdicts
import SubclassIndex.Proofs.Index.RoundTrip

/-!
# Trusting the indices of archives

Let the index that an archive carries be the one that is built from its own classes
(`SelfIndexed`). A build that uses such indices leaves out the classes of these archives, and their
names may be missing as links of chains that begin elsewhere. `build_precomputed_iff` says exactly
when the rows are still those of a build that reads all classes, and `builtRows_differ` shows two
builds in which they are not: one in which a chain is cut, and one with a name that no index can
hold.
-/

namespace SubclassIndex

open ClassName

/-- The settings with indices used or not. -/
def Settings.withPrecomputed (s : Settings) (b : Bool) : Settings := { s with usePrecomputed := b }

/-- Whether a build comes to its archives: a base is requested, and the classes directory exists and
can be read. -/
structure Settings.HasModule (s : Settings) (d : Disk) : Prop where
  bases : s.baseClasses ≠ []
  directory : d.isDirectory s.classesPath = .ok true
  classes : ((⟨s.classesPath⟩ : ClassDirectory).harvest d).failure = none

section

variable [Zip.Library]

namespace Dependency

/-- Whether an archive carries an index. -/
def hasIndex (x : Dependency) (s : Settings) : Bool :=
  match x.text? s.outputPath with
  | .ok (some _) => true
  | _ => false

/-- The classes of an archive alone. -/
def store (x : Dependency) : HeaderStore := .ofSources [x.source]

/-- What is known where only the classes of an archive are. -/
def ownContext (x : Dependency) (s : Settings) : BuildContext where
  requested := s.requestedBases
  headers := x.store

/-- The index that is built from the classes of an archive alone. -/
def ownIndex (x : Dependency) (s : Settings) : Text :=
  Index.render (x.ownContext s).resolve.2 s.shape

end Dependency

/-- The classes of all sources. -/
def allClasses (s : Settings) (d : Disk) (xs : List Dependency) : HeaderStore :=
  .ofSources (allSources s d xs)

/-- The classes of the directory and of the archives without an index. -/
def unindexedClasses (s : Settings) (d : Disk) (xs : List Dependency) : HeaderStore :=
  .ofSources (allSources s d (xs.filter fun x => !x.hasIndex s))

/-- The settings are accepted, all archives can be read, and each that carries an index carries that
of its own classes, which holds plain names without dots. -/
structure SelfIndexed (s : Settings) (d : Disk) (xs : List Dependency) : Prop where
  accepted : s.fault? = none
  archives : s.archives.mapM (openedArchive d) = .ok xs
  classes : ∀ x ∈ xs, x.harvest.failure = none
  index : ∀ x ∈ xs, ∃ index, x.text? s.outputPath = .ok index
  own : ∀ x ∈ xs, ∀ text, x.text? s.outputPath = .ok (some text) → text = x.ownIndex s
  bases : ∀ base ∈ s.requestedBases, Plain base
  names : ∀ x ∈ xs, x.hasIndex s = true → ∀ base ∈ s.requestedBases,
    ∀ name ∈ (descendants x.store base ∅).1, Plain name ∧ CodePoint.ofChar '.' ∉ name

variable {s : Settings} {d : Disk} {xs : List Dependency} {x : Dependency} {base name : Text}

/-! ## The index of an archive -/

namespace Dependency

theorem hasIndex_iff :
    x.hasIndex s = true ↔ ∃ text, x.text? s.outputPath = .ok (some text) := by
  unfold hasIndex
  split
  · next text ht => exact iff_of_true rfl ⟨text, ht⟩
  · next hno => exact iff_of_false Bool.false_ne_true fun ⟨text, ht⟩ => hno text ht

theorem resolve_ownContext (x : Dependency) (s : Settings) :
    (x.ownContext s).resolve.2 = (x.ownContext s).rows := by
  obtain ⟨notes, h⟩ := (x.ownContext s).resolve_eq
  rw [h]

theorem mem_implementations_ownContext :
    name ∈ (x.ownContext s).implementations base ↔ name ∈ (descendants x.store base ∅).1 := by
  rw [BuildContext.implementations, NameSet.mem_union]
  exact or_iff_right (NameSet.not_mem_empty name)

theorem keys_rows_ownContext (x : Dependency) (s : Settings) :
    (x.ownContext s).rows.keys = s.requestedBases :=
  BuildContext.keys_rows Settings.nodup_requestedBases

theorem plainRows_ownContext (hbases : ∀ base ∈ s.requestedBases, Plain base)
    (hnames : ∀ base ∈ s.requestedBases, ∀ name ∈ (descendants x.store base ∅).1,
      Plain name ∧ CodePoint.ofChar '.' ∉ name) : Index.PlainRows (x.ownContext s).rows := by
  have hmem : ∀ row ∈ (x.ownContext s).rows.entries, row.1 ∈ s.requestedBases :=
    fun row hrow => keys_rows_ownContext x s ▸ List.mem_map_of_mem hrow
  constructor
  · intro row hrow
    refine ⟨hbases _ (hmem row hrow), ?_⟩
    obtain ⟨base, _, heq⟩ := List.mem_map.1 (List.mem_eraseDups.1 (hmem row hrow))
    exact heq ▸ not_mem_internal
  · intro row hrow name hn
    have hget := Table.mem_entries_iff.1 hrow
    rw [BuildContext.get?_rows (hmem row hrow), Option.some.injEq] at hget
    rw [← hget] at hn
    exact hnames _ (hmem row hrow) name (mem_implementations_ownContext.1 hn)

end Dependency

namespace SelfIndexed

theorem index?_precomputed (hm : s.HasModule d) :
    x.index? (s.withPrecomputed true) s.requestedBases = x.text? s.outputPath := by
  have hempty : s.requestedBases.isEmpty = false := Bool.eq_false_iff.2 fun he =>
    Settings.requestedBases_ne_nil hm.bases (List.isEmpty_iff.1 he)
  simp [Dependency.index?, Settings.withPrecomputed, hempty]

/-- The index of an archive lists what descends from a base among its own classes. -/
theorem mem_listedFor (h : SelfIndexed s d xs) (hx : x ∈ xs) (hi : x.hasIndex s = true)
    (hb : base ∈ s.requestedBases) : name ∈ Index.listedFor s.shape (x.ownIndex s) base ↔
      name ∈ (descendants x.store base ∅).1 := by
  have hplain := Dependency.plainRows_ownContext h.bases (h.names x hx hi)
  rw [Dependency.ownIndex, Dependency.resolve_ownContext, Index.mem_listedFor_render hplain]
  · rw [BuildContext.get?_rows (c := x.ownContext s) hb]
    simp only [Option.some.injEq, exists_eq_left']
    exact Dependency.mem_implementations_ownContext
  · rwa [Dependency.keys_rows_ownContext]
  · rw [Dependency.keys_rows_ownContext]
    exact Settings.length_requestedBases_le h.accepted

theorem isServed (h : SelfIndexed s d xs) (hm : s.HasModule d) (hx : x ∈ xs) :
    x.isServed (s.withPrecomputed true) s.requestedBases = x.hasIndex s := by
  rw [Dependency.isServed, index?_precomputed hm]
  cases ht : x.text? s.outputPath with
  | error e => rw [Dependency.hasIndex, ht]
  | ok index =>
    cases index with
    | none => rw [Dependency.hasIndex, ht]
    | some text =>
      have hi : x.hasIndex s = true := Dependency.hasIndex_iff.2 ⟨text, ht⟩
      have hplain := Dependency.plainRows_ownContext h.bases (h.names x hx hi)
      rw [hi, h.own x hx text ht, Dependency.ownIndex, Dependency.resolve_ownContext]
      refine Index.covers_render hplain fun base hb => ?_
      rwa [Dependency.keys_rows_ownContext]

theorem lists_iff (h : SelfIndexed s d xs) (hm : s.HasModule d) (hx : x ∈ xs)
    (hb : base ∈ s.requestedBases) :
    x.Lists (s.withPrecomputed true) s.requestedBases base name ↔
      x.hasIndex s = true ∧ name ∈ (descendants x.store base ∅).1 := by
  rw [Dependency.Lists, index?_precomputed hm]
  constructor
  · rintro ⟨text, ht, hname⟩
    have hi : x.hasIndex s = true := Dependency.hasIndex_iff.2 ⟨text, ht⟩
    rw [h.own x hx text ht] at hname
    exact ⟨hi, (h.mem_listedFor hx hi hb).1 hname⟩
  · rintro ⟨hi, hname⟩
    obtain ⟨text, ht⟩ := Dependency.hasIndex_iff.1 hi
    refine ⟨text, ht, ?_⟩
    rw [h.own x hx text ht]
    exact (h.mem_listedFor hx hi hb).2 hname

/-! ## The two builds -/

/-- All can be read, whether indices are used or not. -/
theorem readableSources (h : SelfIndexed s d xs) (hm : s.HasModule d) (b : Bool) :
    ReadableSources (s.withPrecomputed b) d xs where
  accepted := h.accepted
  bases := hm.bases
  directory := hm.directory
  classes := hm.classes
  archives := h.archives
  readable := fun x hx => by
    refine ⟨?_, fun _ => h.classes x hx⟩
    cases b with
    | false => exact ⟨none, rfl⟩
    | true =>
      obtain ⟨index, hi⟩ := h.index x hx
      exact ⟨index, (index?_precomputed hm).trans hi⟩

theorem knownClasses_precomputed (h : SelfIndexed s d xs) (hm : s.HasModule d) :
    knownClasses (s.withPrecomputed true) d xs = unindexedClasses s d xs := by
  have hscanned : scannedAmong (s.withPrecomputed true) s.requestedBases xs =
      xs.filter fun x => !x.hasIndex s :=
    List.filter_congr fun x hx => congrArg not (h.isServed hm hx)
  exact congrArg (fun ys => HeaderStore.ofSources (allSources s d ys)) hscanned

theorem knownClasses_all (s : Settings) (d : Disk) (xs : List Dependency) :
    knownClasses (s.withPrecomputed false) d xs = allClasses s d xs := by
  have hall : scannedAmong (s.withPrecomputed false) s.requestedBases xs = xs :=
    List.filter_eq_self.2 fun _ _ => rfl
  exact congrArg (fun ys => HeaderStore.ofSources (allSources s d ys)) hall

end SelfIndexed

/-- Whether the same classes descend from a base if the archives with an index are left out and what
descends within each of them alone is added. -/
def DescentKept (s : Settings) (d : Disk) (xs : List Dependency) (base : Text) : Prop :=
  ∀ name, name ∈ (descendants (allClasses s d xs) base ∅).1 ↔
    name ∈ (descendants (unindexedClasses s d xs) base ∅).1 ∨
      ∃ x ∈ xs, x.hasIndex s = true ∧ name ∈ (descendants x.store base ∅).1

theorem source_subset_allSources (hx : x ∈ xs) : [x.source] ⊆ allSources s d xs := by
  intro y hy
  rw [List.mem_singleton.1 hy]
  exact List.mem_cons_of_mem _ (List.mem_map_of_mem hx)

theorem allSources_filter_subset (p : Dependency → Bool) :
    allSources s d (xs.filter p) ⊆ allSources s d xs :=
  List.cons_subset_cons _ (List.map_subset _ List.filter_sublist.subset)

/-- Where sources agree and no class is too far from the base, descent is kept if no chain is cut:
each class that is linked to the base is so without the archives with an index or within one of
them. -/
theorem descentKept_iff (hagree : HeaderStore.SourcesAgree (allSources s d xs))
    (hshallow : Shallow (allClasses s d xs) base) :
    DescentKept s d xs base ↔ ∀ name, Linked (allClasses s d xs) base name →
      Linked (unindexedClasses s d xs) base name ∨
        ∃ x ∈ xs, x.hasIndex s = true ∧ Linked x.store base name := by
  have hunindexed : Shallow (unindexedClasses s d xs) base :=
    hshallow.of_subset hagree (allSources_filter_subset _)
  have hstore : ∀ x ∈ xs, Shallow x.store base :=
    fun x hx => hshallow.of_subset hagree (source_subset_allSources hx)
  have hparts : ∀ name, (name ∈ (descendants (unindexedClasses s d xs) base ∅).1 ∨
        ∃ x ∈ xs, x.hasIndex s = true ∧ name ∈ (descendants x.store base ∅).1) ↔
      (Linked (unindexedClasses s d xs) base name ∨
        ∃ x ∈ xs, x.hasIndex s = true ∧ Linked x.store base name) := by
    intro name
    rw [mem_descendants_iff hunindexed]
    refine or_congr_right (exists_congr fun x => and_congr_right fun hx => ?_)
    rw [mem_descendants_iff (hstore x hx)]
  refine forall_congr' fun name => ?_
  rw [mem_descendants_iff hshallow, hparts]
  refine ⟨Iff.mp, fun h => ⟨h, ?_⟩⟩
  rintro (hlinked | ⟨x, hx, _, hlinked⟩)
  · exact hlinked.of_subset hagree (allSources_filter_subset _)
  · exact hlinked.of_subset hagree (source_subset_allSources hx)

theorem build_descentKept_iff (h : SelfIndexed s d xs) (hm : s.HasModule d) :
    ∃ trusting reading : BuildResult,
    (build (s.withPrecomputed true) d).value = .ok (some trusting) ∧
    (build (s.withPrecomputed false) d).value = .ok (some reading) ∧
    (trusting.rows = reading.rows ↔ ∀ base ∈ s.requestedBases, DescentKept s d xs base) := by
  obtain ⟨trusting, ht, _, hkeys, hrows⟩ := build_of_readable (h.readableSources hm true)
  obtain ⟨reading, hr, _, hkeys', hrows'⟩ := build_of_readable (h.readableSources hm false)
  refine ⟨trusting, reading, ht, hr, ?_⟩
  change trusting.rows.keys = s.requestedBases at hkeys
  change reading.rows.keys = s.requestedBases at hkeys'
  rw [h.knownClasses_precomputed hm] at hrows
  rw [SelfIndexed.knownClasses_all] at hrows'
  have hfound : ∀ base ∈ s.requestedBases, ∃ found found' : NameSet,
      trusting.rows.get? base = some found.names ∧ reading.rows.get? base = some found'.names ∧
      (∀ name, name ∈ found ↔ name ∈ (descendants (unindexedClasses s d xs) base ∅).1 ∨
        ∃ x ∈ xs, x.hasIndex s = true ∧ name ∈ (descendants x.store base ∅).1) ∧
      ∀ name, name ∈ found' ↔ name ∈ (descendants (allClasses s d xs) base ∅).1 := by
    intro base hb
    obtain ⟨found, hget, hfound⟩ := hrows base hb
    obtain ⟨found', hget', hfound'⟩ := hrows' base hb
    refine ⟨found, found', hget, hget', fun name => ?_, fun name => ?_⟩
    · rw [hfound, or_comm]
      exact or_congr_right (exists_congr fun x => and_congr_right fun hx => h.lists_iff hm hx hb)
    · refine (hfound' name).trans (or_iff_right ?_)
      rintro ⟨x, _, text, hi, _⟩
      cases hi
  constructor
  -- equal rows hold equal sets, because a row is the list of its set
  · intro heq base hb name
    obtain ⟨found, found', hget, hget', hmem, hmem'⟩ := hfound base hb
    rw [heq, hget', Option.some.injEq] at hget
    rw [← hmem, ← hmem', NameSet.mem_def, NameSet.mem_def, hget]
  · intro hkept
    refine Table.ext_get? (hkeys.trans hkeys'.symm) fun base hb => ?_
    rw [hkeys] at hb
    obtain ⟨found, found', hget, hget', hmem, hmem'⟩ := hfound base hb
    rw [hget, hget', NameSet.ext_mem fun name =>
      (hmem name).trans (((hkept base hb) name).symm.trans (hmem' name).symm)]

theorem collect_of_failure {c : BuildContext} {classes : ClassDirectory} {e : Failure}
    (h : (classes.harvest d).failure = some e) (s : Settings) : c.collect s d classes =
      ((c.absorb (classes.harvest d) classes.label).1, some e) := by
  have habsorb : c.absorb (classes.harvest d) classes.label =
      ((c.absorb (classes.harvest d) classes.label).1, some e) := by
    rw [← h]
    rfl
  unfold BuildContext.collect
  rw [habsorb]

/-- A build that does not come to its archives ends without asking for their indices. -/
theorem build_of_not_hasModule (h : ¬s.HasModule d) (b : Bool) :
    (build (s.withPrecomputed b) d).value = (build s d).value := by
  have hpath : (s.withPrecomputed b).classesPath = s.classesPath := rfl
  have hbases : (s.withPrecomputed b).requestedBases = s.requestedBases := rfl
  unfold build
  simp only [hpath, hbases]
  cases hthere : (⟨s.classesPath⟩ : ClassDirectory).isThere d with
  | error e => rfl
  | ok isThere =>
    cases isThere with
    | false => rfl
    | true =>
      by_cases hempty : s.requestedBases.isEmpty = true
      · simp only [hempty, if_true]
      · cases hf : ((⟨s.classesPath⟩ : ClassDirectory).harvest d).failure with
        | some e => simp only [collect_of_failure hf]
        | none =>
          refine absurd ⟨fun hnil => hempty ?_, ?_, hf⟩ h
          · rw [Settings.requestedBases, hnil]
            rfl
          · exact ClassDirectory.isThere_eq_true.1 hthere

/-- A build that trusts the indices of archives and one that reads all classes have the same rows
exactly if descent from each requested base is kept. Where sources agree and no class is too far
from a base, that is to say that no chain is cut. -/
theorem build_precomputed_iff (h : SelfIndexed s d xs) :
    (¬s.HasModule d →
      (build (s.withPrecomputed true) d).value = (build (s.withPrecomputed false) d).value) ∧
    (s.HasModule d → ∃ trusting reading : BuildResult,
      (build (s.withPrecomputed true) d).value = .ok (some trusting) ∧
      (build (s.withPrecomputed false) d).value = .ok (some reading) ∧
      (trusting.rows = reading.rows ↔ ∀ base ∈ s.requestedBases, DescentKept s d xs base) ∧
      (HeaderStore.SourcesAgree (allSources s d xs) →
        (∀ base ∈ s.requestedBases, Shallow (allClasses s d xs) base) →
        (trusting.rows = reading.rows ↔ ∀ base ∈ s.requestedBases, ∀ name,
          Linked (allClasses s d xs) base name → Linked (unindexedClasses s d xs) base name ∨
            ∃ x ∈ xs, x.hasIndex s = true ∧ Linked x.store base name))) := by
  refine ⟨fun hm => ?_, fun hm => ?_⟩
  · rw [build_of_not_hasModule hm, build_of_not_hasModule hm]
  · obtain ⟨trusting, reading, ht, hr, hiff⟩ := build_descentKept_iff h hm
    refine ⟨trusting, reading, ht, hr, hiff, fun hagree hshallow => hiff.trans ?_⟩
    exact forall_congr' fun base => forall_congr' fun hb =>
      descentKept_iff hagree (hshallow base hb)

end

/-! ## A chain that is cut -/

/-- A class whose superclass is in an archive with an index. -/
def linkDisk : Disk :=
  smallDisk [("Leaf.class", ClassFile.childOf "l/M" 33)]
    [("x", Zip.pack [⟨"l/M.class", ClassFile.childOf "a/B" 33, 0⟩,
      ⟨"i", ("a.B=l.M\n" : Text).flatMap Utf8.bytesOf, 0⟩])]

/-- An archive with a class whose name has a comma, beside an empty directory. -/
def commaDisk : Disk :=
  smallDisk [] [("x", Zip.pack [⟨"M,N.class", ClassFile.childOf "a/B" 33, 0⟩,
    ⟨"i", ("a.B=M,N\n" : Text).flatMap Utf8.bytesOf, 0⟩])]

/-- The rows of a build, if it ends with any. -/
def builtRows [Zip.Library] (s : Settings) (d : Disk) : Option (List (Text × List Text)) :=
  (build s d).value.toOption.join.map fun r => r.rows.entries

theorem selfIndexed_linkDisk :
    SelfIndexed smallSettings linkDisk (archivesOn smallSettings linkDisk) := by
  have hown : ∀ x ∈ archivesOn smallSettings linkDisk,
      (x.text? smallSettings.outputPath).toOption = some (some (x.ownIndex smallSettings)) := by
    decide +kernel
  refine ⟨by decide +kernel, mapM_openedArchive (by decide +kernel), by decide +kernel,
    fun x hx => ?_, fun x hx text ht => ?_, by decide +kernel, by decide +kernel⟩
  · have hx := hown x hx
    cases ht : x.text? smallSettings.outputPath with
    | error e =>
      rw [ht] at hx
      cases hx
    | ok index => exact ⟨index, rfl⟩
  · have hx := hown x hx
    rw [ht] at hx
    exact Option.some.inj (Option.some.inj hx)

theorem hasModule_linkDisk : smallSettings.HasModule linkDisk := by
  have hread : ReadableSources smallSettings linkDisk (archivesOn smallSettings linkDisk) :=
    readableSources_of_checks (by decide +kernel)
  exact ⟨hread.bases, hread.directory, hread.classes⟩

theorem build_precomputed_iff_linkDisk :
    SelfIndexed smallSettings linkDisk (archivesOn smallSettings linkDisk) ∧
    ∃ trusting reading : BuildResult,
      (build (smallSettings.withPrecomputed true) linkDisk).value = .ok (some trusting) ∧
      (build (smallSettings.withPrecomputed false) linkDisk).value = .ok (some reading) ∧
      (trusting.rows = reading.rows ↔ ∀ base ∈ smallSettings.requestedBases,
        DescentKept smallSettings linkDisk (archivesOn smallSettings linkDisk) base) := by
  obtain ⟨trusting, reading, ht, hr, hiff, _⟩ :=
    (build_precomputed_iff selfIndexed_linkDisk).2 hasModule_linkDisk
  exact ⟨selfIndexed_linkDisk, trusting, reading, ht, hr, hiff⟩

/-- Without the classes of the archive the class that extends one of them is lost, and a name with a
comma is two names once it is read. -/
theorem builtRows_differ :
    (∀ d ∈ [linkDisk, commaDisk],
      ReadableSources (smallSettings.withPrecomputed false) d (archivesOn smallSettings d) ∧
      ∀ x ∈ archivesOn smallSettings d,
        (x.text? smallSettings.outputPath).toOption = some (some (x.ownIndex smallSettings))) ∧
    builtRows (smallSettings.withPrecomputed false) linkDisk =
      some [(("a/B" : Text), ([("Leaf" : Text), ("l/M" : Text)] : List Text))] ∧
    builtRows (smallSettings.withPrecomputed true) linkDisk =
      some [(("a/B" : Text), ([("l/M" : Text)] : List Text))] ∧
    builtRows (smallSettings.withPrecomputed false) commaDisk =
      some [(("a/B" : Text), ([("M,N" : Text)] : List Text))] ∧
    builtRows (smallSettings.withPrecomputed true) commaDisk =
      some [(("a/B" : Text), ([("M" : Text), ("N" : Text)] : List Text))] := by
  refine ⟨fun d hd => ?_, ?_, ?_, ?_, ?_⟩
  · rcases List.mem_cons.1 hd with rfl | hd
    · exact ⟨readableSources_of_checks (by decide +kernel), by decide +kernel⟩
    · rw [List.mem_singleton.1 hd]
      exact ⟨readableSources_of_checks (by decide +kernel), by decide +kernel⟩
  all_goals decide +kernel

end SubclassIndex
