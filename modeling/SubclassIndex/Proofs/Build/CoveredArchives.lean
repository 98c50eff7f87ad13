import SubclassIndex.Proofs.Build.Collected
import SubclassIndex.Proofs.Build.ContainedFailures

/-!
# Which archives are served

An archive is listed as served exactly if an index is consulted in it that covers the requested
bases, whatever else happens before or after (`BuildContext.served_scanArchives`). Under accepted
settings that means what the word promises: each requested base is a key of the index, or the index
is flat and there is no base but the one that it is read for (`Dependency.isServed_iff`).
-/

namespace SubclassIndex

open Document

variable [Zip.Library]

variable {s : Settings} {d : Disk} {c : BuildContext} {x : Dependency} {archive : Value}
  {archives : List Value} {listed : Text} {requested : List Text} {r : BuildResult}

/-- An archive with an index that has a row for each requested base, or a flat one for the only
base that is requested. -/
inductive Dependency.Covers (x : Dependency) (s : Settings) : Prop
  | keyed {text : Text} : s.shape = .properties → x.text? s.outputPath = .ok (some text) →
    (∀ base ∈ s.requestedBases, ∃ key value, (key, value) ∈ (Properties.read text).entries ∧
      ClassName.internal key.strip = base) → Covers x s
  | flat {text base : Text} : s.shape = .flat → x.text? s.outputPath = .ok (some text) →
    s.requestedBases = [base] → Covers x s

/-- A listed archive that is there and covers the requested bases, where indices are to be used. -/
structure CoveredArchive (s : Settings) (d : Disk) (listed : Text) : Prop where
  member : .text listed ∈ s.archives
  trusted : s.usePrecomputed = true
  bases : s.requestedBases ≠ []
  covers : ∃ x, openedArchive d (.text listed) = .ok x ∧ x.Covers s

/-! ## Coverage -/

theorem Dependency.index?_eq_some_iff {text : Text} :
    x.index? s requested = .ok (some text) ↔
      s.usePrecomputed = true ∧ requested ≠ [] ∧ x.text? s.outputPath = .ok (some text) := by
  unfold index?
  cases s.usePrecomputed <;> cases requested <;> simp

theorem Dependency.isServed_eq_true_iff : x.isServed s requested = true ↔
    ∃ text, x.index? s requested = .ok (some text) ∧
      Index.covers s.shape requested text = true := by
  unfold isServed
  constructor
  · intro h
    split at h
    · next text hindex => exact ⟨text, hindex, h⟩
    · cases h
  · rintro ⟨text, hindex, hcovers⟩
    rw [hindex]
    exact hcovers

/-- Accepted settings trust an index only where it covers the requested bases. -/
theorem Dependency.isServed_iff (haccepted : s.fault? = none) :
    x.isServed s s.requestedBases = true ↔
      s.usePrecomputed = true ∧ s.requestedBases ≠ [] ∧ x.Covers s := by
  simp only [isServed_eq_true_iff, index?_eq_some_iff]
  constructor
  · rintro ⟨text, ⟨huse, hbases, htext⟩, hcovers⟩
    refine ⟨huse, hbases, ?_⟩
    cases hshape : s.shape with
    | properties =>
      rw [hshape] at hcovers
      refine .keyed hshape htext fun base hbase => ?_
      obtain ⟨key, value, hget, hkey⟩ := Index.covers_properties_iff.1 hcovers base hbase
      exact ⟨key, value, Table.mem_entries_iff.2 hget, hkey⟩
    | flat =>
      -- a flat index names no base, but accepted settings leave only one to read it for
      have hone : s.requestedBases.length = 1 :=
        Nat.le_antisymm (Settings.length_requestedBases_le haccepted hshape)
          (List.length_pos_iff.2 hbases)
      obtain ⟨base, hbase⟩ := List.length_eq_one_iff.1 hone
      exact .flat hshape htext hbase
  · rintro ⟨huse, hbases, hcovers⟩
    cases hcovers with
    | keyed hshape htext hrows =>
      refine ⟨_, ⟨huse, hbases, htext⟩, ?_⟩
      rw [hshape]
      refine Index.covers_properties_iff.2 fun base hbase => ?_
      obtain ⟨key, value, hmem, hkey⟩ := hrows base hbase
      exact ⟨key, value, Table.mem_entries_iff.1 hmem, hkey⟩
    | flat hshape htext hbase =>
      refine ⟨_, ⟨huse, hbases, htext⟩, ?_⟩
      rw [hshape]
      rfl

/-! ## Scans -/

namespace BuildContext

/-- What the scan of an archive adds to the served ones. -/
def servedBy (s : Settings) (d : Disk) (requested : List Text) (archive : Value) : List Text :=
  match openedArchive d archive with
  | .ok x => if x.isServed s requested then archive.asText?.toList else []
  | .error _ => []

theorem mem_servedBy : listed ∈ servedBy s d requested archive ↔ archive = .text listed ∧
    ∃ x, openedArchive d archive = .ok x ∧ x.isServed s requested = true := by
  unfold servedBy
  cases openedArchive d archive with
  | error e => simp
  | ok x => simp [Value.asText?_eq_some, and_comm]

theorem served_read (c : BuildContext) (s : Settings) (x : Dependency) (listed : Text) :
    (c.read s x listed).1.served =
      c.served ++ if x.isServed s c.requested then [listed] else [] := by
  unfold Dependency.isServed
  cases hi : x.index? s c.requested with
  | error e =>
    rw [read_of_error listed hi]
    simp
  | ok index =>
    cases index with
    | none =>
      obtain ⟨notes, hread⟩ := read_of_none listed hi
      rw [hread]
      simp [withSource]
    | some text =>
      obtain ⟨notes, hread⟩ := read_of_some listed hi
      rw [hread, gather_fst]
      dsimp only
      split
      · rfl
      · exact (List.append_nil _).symm

theorem served_scanArchive (c : BuildContext) (s : Settings) (d : Disk) (archive : Value) :
    (c.scanArchive s d archive).1.served = c.served ++ servedBy s d c.requested archive := by
  unfold servedBy
  cases ho : openedArchive d archive with
  | error e =>
    obtain ⟨skipped, notes, hscan⟩ := scanArchive_fst_of_unopened (c := c) (s := s) ho
    rw [hscan]
    exact (List.append_nil _).symm
  | ok x =>
    obtain ⟨listed, rfl, hscan⟩ := scanArchive_of_opened (c := c) (s := s) ho
    obtain ⟨skipped, notes, hskip⟩ := skipIfUnreadable_fst listed (c.read s x listed)
    rw [hscan, hskip]
    exact served_read c s x listed

/-- The archives up to the one at which a build stops, or all of them, are served as each of them is
by itself. -/
theorem served_scanArchives (c : BuildContext) (s : Settings) (d : Disk) (archives : List Value) :
    ∃ front, front <+: archives ∧ ((c.scanArchives s d archives).2 = none → front = archives) ∧
      (c.scanArchives s d archives).1.served =
        c.served ++ front.flatMap (servedBy s d c.requested) := by
  induction archives generalizing c with
  | nil => exact ⟨[], List.prefix_rfl, fun _ => rfl, (List.append_nil _).symm⟩
  | cons archive archives ih =>
    have hserved := served_scanArchive c s d archive
    have hrequested := (gained_scanArchive c s d archive).requested
    unfold scanArchives
    rcases hscan : c.scanArchive s d archive with ⟨c', _ | e⟩
    · rw [hscan] at hserved hrequested
      obtain ⟨front, hfront, hall, heq⟩ := ih c'
      refine ⟨archive :: front, List.cons_prefix_cons.2 ⟨rfl, hfront⟩, ?_, ?_⟩
      · intro hnone
        rw [hall hnone]
      · dsimp only
        rw [heq, hserved, hrequested, List.flatMap_cons, List.append_assoc]
    · rw [hscan] at hserved
      refine ⟨[archive], List.cons_prefix_cons.2 ⟨rfl, List.nil_prefix⟩, ?_, ?_⟩
      · intro hnone
        cases hnone
      · rw [List.flatMap_singleton]
        exact hserved

theorem served_collect (c : BuildContext) (s : Settings) (d : Disk) (classes : ClassDirectory) :
    ∃ front, front <+: s.archives ∧ ((c.collect s d classes).2 = none → front = s.archives) ∧
      (c.collect s d classes).1.served = c.served ++ front.flatMap (servedBy s d c.requested) := by
  have habsorb : ((c.absorb (classes.harvest d) classes.label).1.served = c.served ∧
      (c.absorb (classes.harvest d) classes.label).1.requested = c.requested) := ⟨rfl, rfl⟩
  unfold collect
  rcases hown : c.absorb (classes.harvest d) classes.label with ⟨own, _ | e⟩
  · rw [hown] at habsorb
    obtain ⟨front, hfront, hall, heq⟩ := served_scanArchives own s d s.archives
    rw [habsorb.1, habsorb.2] at heq
    refine ⟨front, hfront, ?_⟩
    dsimp only
    rcases hscan : own.scanArchives s d s.archives with ⟨c', _ | e⟩
    · rw [hscan] at hall heq
      exact ⟨hall, heq⟩
    · rw [hscan] at heq
      exact ⟨nofun, heq⟩
  · rw [hown] at habsorb
    refine ⟨[], List.nil_prefix, nofun, ?_⟩
    rw [List.flatMap_nil, List.append_nil]
    exact habsorb.1

end BuildContext

/-! ## Builds -/

/-- Some front of the archives is listed as served where it is covered, all of them if the build
comes to its end. -/
theorem exists_served_collectedOn (haccepted : s.fault? = none) (d : Disk) :
    ∃ front, front <+: s.archives ∧
      ((BuildContext.collect { requested := s.requestedBases } s d ⟨s.classesPath⟩).2 = none →
        front = s.archives) ∧
      ∀ listed, listed ∈ (collectedOn s d).served ↔
        .text listed ∈ front ∧ CoveredArchive s d listed := by
  obtain ⟨front, hfront, hall, hserved⟩ := BuildContext.served_collect
    { requested := s.requestedBases } s d ⟨s.classesPath⟩
  refine ⟨front, hfront, hall, ?_⟩
  intro listed
  unfold collectedOn
  rw [hserved, List.nil_append, List.mem_flatMap]
  constructor
  · rintro ⟨archive, harchive, hlisted⟩
    obtain ⟨rfl, x, ho, hs⟩ := BuildContext.mem_servedBy.1 hlisted
    obtain ⟨huse, hbases, hcovers⟩ := (Dependency.isServed_iff haccepted).1 hs
    exact ⟨harchive, hfront.subset harchive, huse, hbases, x, ho, hcovers⟩
  · rintro ⟨harchive, -, huse, hbases, x, ho, hcovers⟩
    have hs := (Dependency.isServed_iff haccepted).2 ⟨huse, hbases, hcovers⟩
    exact ⟨_, harchive, BuildContext.mem_servedBy.2 ⟨rfl, x, ho, hs⟩⟩

theorem covered_of_mem_served (haccepted : s.fault? = none)
    (h : listed ∈ (collectedOn s d).served) : CoveredArchive s d listed := by
  obtain ⟨_, _, _, hserved⟩ := exists_served_collectedOn haccepted d
  exact ((hserved listed).1 h).2

/-- A build that ends with a result has served exactly the archives that are covered. -/
theorem mem_served_of_build (haccepted : s.fault? = none)
    (h : (build s d).value = .ok (some r)) :
    listed ∈ r.served ↔ CoveredArchive s d listed := by
  obtain ⟨-, ⟨hnil, rfl⟩ | ⟨-, hcollect, rfl⟩⟩ := build_eq_some h
  · exact ⟨nofun, fun hcovered => absurd hnil hcovered.bases⟩
  · obtain ⟨front, -, hall, hserved⟩ := exists_served_collectedOn haccepted d
    rw [hcollect] at hall
    have hfront := hall rfl
    refine (hserved listed).trans ⟨And.right, ?_⟩
    intro hcovered
    exact ⟨hfront ▸ hcovered.member, hcovered⟩

end SubclassIndex
