import SubclassIndex.Build.Scan
import SubclassIndex.Proofs.Hierarchy.HeaderStoreLemmas
import SubclassIndex.Proofs.Index.EmbeddedLemmas

/-!
# What reading an archive comes to

`Dependency.index?` is the text of the index that is consulted in an archive, if any is. It alone
decides how a context changes when the archive is read: the three lemmas `BuildContext.read_of_*`
say so for an index that cannot be had, for no index and for an index, and everything that is
proved about a scan goes through them. Only the notes are left open.
-/

namespace SubclassIndex

open Document

section

variable [Zip.Library]

/-- The text of the index that is consulted in an archive. None is where indices are not to be
used, where no base is requested, and where the archive has none. -/
def Dependency.index? (x : Dependency) (s : Settings) (requested : List Text) :
    Except Failure (Option Text) :=
  if !s.usePrecomputed || requested.isEmpty then .ok none else x.text? s.outputPath

/-- Whether an archive is served from its own index. -/
def Dependency.isServed (x : Dependency) (s : Settings) (requested : List Text) : Bool :=
  match x.index? s requested with
  | .ok (some text) => Index.covers s.shape requested text
  | _ => false

/-- A name that the consulted index of an archive lists for a base. -/
def Dependency.Lists (x : Dependency) (s : Settings) (requested : List Text)
    (base name : Text) : Prop :=
  ∃ text, x.index? s requested = .ok (some text) ∧ name ∈ Index.listedFor s.shape text base

/-- What an archive supplies when its classes are read. -/
def Dependency.source (x : Dependency) : Source := ⟨x.label, x.harvest.headers⟩

/-- The archive that a value names, opened. -/
def openedArchive (d : Disk) : Value → Except Failure Dependency
  | .text listed => ({ path := .ofText listed } : Dependency).opened d
  | _ => .error .notAPath

end

namespace BuildContext

variable {c : BuildContext} {s : Settings} {d : Disk} {x : Dependency} {listed text : Text}
  {archive : Value} {e : Failure}

/-- A context that also has the headers of an archive. -/
def withSource (c : BuildContext) (x : Source) : BuildContext :=
  { c with headers := (c.headers.addAll x.headers x.label).1 }

@[simp] theorem withSource_embedded (c : BuildContext) (x : Source) :
    (c.withSource x).embedded = c.embedded := rfl

/-! ## Gathering -/

/-- Gathering touches only the rows gathered so far. -/
theorem gather_fst (c : BuildContext) (shape : Index.Shape) (text : Text) :
    (c.gather shape text).1 = { c with embedded := (c.gather shape text).1.embedded } := by
  unfold gather
  split <;> rfl

theorem gather_properties (c : BuildContext) (text : Text) : c.gather .properties text =
    ({ c with embedded := (Index.gatherKeyed text c.requested c.embedded).1 },
      Index.covers .properties c.requested text) := by
  rw [← Index.gatherKeyed_snd (g := c.embedded)]
  rfl

theorem gather_snd (c : BuildContext) (shape : Index.Shape) (text : Text) :
    (c.gather shape text).2 = Index.covers shape c.requested text := by
  cases shape with
  | properties => rw [gather_properties]
  | flat =>
    unfold gather
    split
    · rfl
    · rfl
    · contradiction

/-- Gathering adds the listed names to those of each base that the index is read for. -/
theorem mem_names_gather {shape : Index.Shape} {base name : Text} :
    name ∈ (c.gather shape text).1.embedded.names base ↔ name ∈ c.embedded.names base ∨
      base ∈ Index.basesRead shape c.requested ∧ name ∈ Index.listedFor shape text base := by
  cases shape with
  | properties =>
    rw [gather_properties]
    exact Index.mem_names_gatherKeyed
  | flat =>
    unfold gather Index.basesRead
    cases hr : c.requested with
    | nil => simp
    | cons base' rest =>
      refine Index.mem_names_gatherFlat.trans (or_congr_right ?_)
      simp [eq_comm]

/-- Skipping an archive touches only the notes and the archives skipped so far. -/
theorem skipIfUnreadable_fst (listed : Text) (p : Stepped) : ∃ skipped notes,
    (skipIfUnreadable listed p).1 = { p.1 with skipped, notes } := by
  rcases p with ⟨c, _ | e⟩
  · exact ⟨_, _, rfl⟩
  · unfold skipIfUnreadable
    dsimp only
    split <;> exact ⟨_, _, rfl⟩

variable [Zip.Library]

/-! ## Consulting and reading -/

theorem consult_of_error (h : x.index? s c.requested = .error e) : c.consult s x = .error e := by
  unfold Dependency.index? at h
  unfold consult
  split at h
  · cases h
  · next hu => rw [if_neg hu, h]

theorem consult_of_none (h : x.index? s c.requested = .ok none) :
    ∃ notes, c.consult s x = .ok ({ c with notes }, false) := by
  unfold Dependency.index? at h
  unfold consult
  split at h
  · next hu => exact ⟨c.notes, by rw [if_pos hu]⟩
  · next hu =>
    rw [if_neg hu, h]
    exact ⟨_, rfl⟩

theorem consult_of_some (h : x.index? s c.requested = .ok (some text)) :
    ∃ notes, c.consult s x =
      .ok ({ (c.gather s.shape text).1 with notes }, (c.gather s.shape text).2) := by
  unfold Dependency.index? at h
  unfold consult
  split at h
  · cases h
  · next hu =>
    rw [if_neg hu, h]
    simp only
    rcases c.gather s.shape text with ⟨c', complete⟩
    cases complete <;> exact ⟨_, rfl⟩

theorem read_of_error (listed : Text) (h : x.index? s c.requested = .error e) :
    c.read s x listed = (c, some e) := by
  rw [read, consult_of_error h]

theorem read_of_none (listed : Text) (h : x.index? s c.requested = .ok none) : ∃ notes,
    c.read s x listed = ({ c.withSource x.source with notes }, x.harvest.failure) := by
  obtain ⟨notes, hc⟩ := consult_of_none h
  rw [read, hc]
  exact ⟨_, rfl⟩

/-- An archive with an index is served from it or scanned on top of it. -/
theorem read_of_some (listed : Text) (h : x.index? s c.requested = .ok (some text)) : ∃ notes,
    c.read s x listed =
      if Index.covers s.shape c.requested text then
        ({ (c.gather s.shape text).1 with served := c.served ++ [listed], notes }, none)
      else
        ({ (c.gather s.shape text).1.withSource x.source with notes }, x.harvest.failure) := by
  obtain ⟨notes, hc⟩ := consult_of_some h
  rw [read, hc, gather_snd]
  cases Index.covers s.shape c.requested text with
  | true =>
    refine ⟨notes, ?_⟩
    rw [if_pos rfl, gather_fst]
  | false => exact ⟨_, rfl⟩

/-! ## Scanning -/

theorem scanArchive_of_opened (h : openedArchive d archive = .ok x) :
    ∃ listed, archive = .text listed ∧
      c.scanArchive s d archive = skipIfUnreadable listed (c.read s x listed) := by
  unfold openedArchive at h
  split at h
  · next listed =>
    refine ⟨listed, rfl, ?_⟩
    rw [scanArchive, h]
  · cases h

theorem scanArchive_of_unopened (h : openedArchive d (.text listed) = .error e) :
    c.scanArchive s d (.text listed) = skipIfUnreadable listed (c, some e) := by
  change ({ path := .ofText listed } : Dependency).opened d = .error e at h
  unfold scanArchive
  simp only [h]

theorem scanArchive_fst_of_unopened (h : openedArchive d archive = .error e) :
    ∃ skipped notes, (c.scanArchive s d archive).1 = { c with skipped, notes } := by
  cases archive with
  | scalar t =>
    cases t with
    | text listed =>
      have hscan := scanArchive_of_unopened (c := c) (s := s) h
      rw [Value.text] at hscan
      rw [hscan]
      exact skipIfUnreadable_fst listed (c, some e)
    | _ => exact ⟨_, _, rfl⟩
  | _ => exact ⟨_, _, rfl⟩

/-- What scanning an opened archive leaves behind, apart from what is said about the archive. -/
theorem scanArchive_fst_of_opened (h : openedArchive d archive = .ok x) :
    ∃ listed skipped notes, (c.scanArchive s d archive).1 =
      { (c.read s x listed).1 with skipped, notes } := by
  obtain ⟨listed, rfl, hscan⟩ := scanArchive_of_opened (c := c) (s := s) h
  obtain ⟨skipped, notes, hskip⟩ := skipIfUnreadable_fst listed (c.read s x listed)
  exact ⟨listed, skipped, notes, hscan ▸ hskip⟩

end BuildContext

end SubclassIndex
