import SubclassIndex.Proofs.Build.ScanLemmas
import SubclassIndex.Proofs.Build.SmallDisk

/-!
# What a skipped archive leaves behind

An archive is skipped when it fails while it is read, and what it gave until then stays. Skipping
leaves a context as it was exactly if all of that was known already
(`BuildContext.scanArchive_keeps_iff`), and `scanArchive_halfReadable` is an archive for which it
was not.
-/

namespace SubclassIndex

open Document

section

variable [Zip.Library]

/-- Whether a context knows everything that an archive gives until it fails: the rows of its index
for requested bases, and the names of its classes. -/
structure Dependency.KnownTo (x : Dependency) (s : Settings) (c : BuildContext) : Prop where
  rows : ∀ text, x.index? s c.requested = .ok (some text) → ∀ row ∈ Index.keyedRows text,
    row.1 ∈ c.requested → ∃ known, c.embedded.get? row.1 = some known ∧ ∀ name ∈ row.2, name ∈ known
  classes : ∀ index, x.index? s c.requested = .ok index →
    ∀ e ∈ x.harvest.headers, c.headers.contains e.1 = true

namespace BuildContext

variable {c : BuildContext} {s : Settings} {d : Disk} {archive : Value} {listed : Text}
  {x : Dependency} {text : Text} {e : Failure}

/-- An archive that is skipped was not served from its index. -/
theorem not_covers_of_skipped (ho : openedArchive d archive = .ok x)
    (hi : x.index? s c.requested = .ok (some text))
    (h : (c.scanArchive s d archive).1.skipped ≠ c.skipped) :
    Index.covers s.shape c.requested text = false := by
  obtain ⟨listed, rfl, hscan⟩ := scanArchive_of_opened (c := c) (s := s) ho
  obtain ⟨notes, hread⟩ := read_of_some listed hi
  cases hcov : Index.covers s.shape c.requested text with
  | false => rfl
  | true =>
    rw [hcov, if_pos rfl] at hread
    rw [hscan, hread, gather_fst] at h
    exact absurd rfl h

/-- Reading the classes of an archive on top of an index leaves a context as it was exactly if it
held the rows of the index and the names of the classes. -/
theorem read_keeps_iff (hi : x.index? s c.requested = .ok (some text))
    (hcov : Index.covers s.shape c.requested text = false) :
    ((c.read s x listed).1.headers = c.headers ∧ (c.read s x listed).1.embedded = c.embedded) ↔
      x.KnownTo s c := by
  -- a flat index always covers the requested base, so that this one has rows
  have hshape : s.shape = .properties := by
    cases hs : s.shape with
    | properties => rfl
    | flat =>
      rw [hs] at hcov
      cases hcov
  obtain ⟨notes, hread⟩ := read_of_some listed hi
  rw [hread, hcov, if_neg Bool.false_ne_true, hshape, gather_properties]
  change (c.headers.addAll x.harvest.headers x.label).1 = c.headers ∧
    (Index.gatherKeyed text c.requested c.embedded).1 = c.embedded ↔ _
  rw [HeaderStore.addAll_eq_self_iff, Index.gatherKeyed_eq_self_iff]
  constructor
  · rintro ⟨hclasses, hrows⟩
    refine ⟨fun text' hi' => ?_, fun _ _ => hclasses⟩
    cases hi.symm.trans hi'
    exact hrows
  · rintro ⟨hrows, hclasses⟩
    exact ⟨hclasses _ hi, hrows text hi⟩

/-- A scan that skips its archive leaves headers and rows as they were exactly if they hold all
that the archive gave until it failed. -/
theorem scanArchive_keeps_iff (h : (c.scanArchive s d archive).1.skipped ≠ c.skipped) :
    ((c.scanArchive s d archive).1.headers = c.headers ∧
      (c.scanArchive s d archive).1.embedded = c.embedded) ↔
    ∀ x, openedArchive d archive = .ok x → x.KnownTo s c := by
  cases ho : openedArchive d archive with
  | error e =>
    obtain ⟨_, _, hscan⟩ := scanArchive_fst_of_unopened (c := c) (s := s) ho
    rw [hscan]
    exact iff_of_true ⟨rfl, rfl⟩ fun x hx => by cases hx
  | ok x =>
    obtain ⟨listed, _, _, hscan⟩ := scanArchive_fst_of_opened (c := c) (s := s) ho
    simp only [Except.ok.injEq, forall_eq']
    cases hi : x.index? s c.requested with
    | error e =>
      rw [hscan, read_of_error listed hi]
      refine iff_of_true ⟨rfl, rfl⟩ ⟨fun _ h' => ?_, fun _ h' => ?_⟩ <;>
      · rw [hi] at h'
        cases h'
    | ok index =>
      cases index with
      | none =>
        obtain ⟨_, hread⟩ := read_of_none listed hi
        rw [hscan, hread]
        refine ⟨fun ⟨hc, _⟩ => ⟨fun _ h' => ?_, fun _ _ => ?_⟩, fun hk => ⟨?_, rfl⟩⟩
        · rw [hi] at h'
          cases h'
        · exact (HeaderStore.addAll_eq_self_iff ..).1 hc
        · exact (HeaderStore.addAll_eq_self_iff ..).2 (hk.classes none hi)
      | some text =>
        rw [hscan]
        exact read_keeps_iff hi (not_covers_of_skipped ho hi h)

end BuildContext

end

namespace BuildContext

/-! ## An archive that fails halfway -/

/-- A disk with an archive of two classes, of which only the first one can be read. -/
def halfReadable : Disk :=
  smallDisk [] [("x", Zip.pack [⟨"l/M.class", ClassFile.childOf "a/B" 33, 0⟩,
    ⟨"l/N.class", ClassFile.childOf "a/B" 33, 1⟩])]

/-- A context with the first class of that archive. -/
def knowingFirst : BuildContext where
  requested := ["a/B"]
  headers := .ofSources [⟨"c", [("l/M", ⟨33, none⟩)]⟩]

theorem scanArchive_keeps_halfReadable :
    let c := (knowingFirst.scanArchive smallSettings halfReadable (.text "x")).1
    c.skipped ≠ knowingFirst.skipped ∧
      c.headers = knowingFirst.headers ∧ c.embedded = knowingFirst.embedded ∧
      ∀ x, openedArchive halfReadable (.text "x") = .ok x →
        x.KnownTo smallSettings knowingFirst := by
  have h : (knowingFirst.scanArchive smallSettings halfReadable (.text "x")).1.skipped ≠
      knowingFirst.skipped := by decide +kernel
  have hkeep : (knowingFirst.scanArchive smallSettings halfReadable (.text "x")).1.headers =
        knowingFirst.headers ∧
      (knowingFirst.scanArchive smallSettings halfReadable (.text "x")).1.embedded =
        knowingFirst.embedded := by decide +kernel
  exact ⟨h, hkeep.1, hkeep.2, (scanArchive_keeps_iff h).1 hkeep⟩

/-- A context without classes is left with the first one. -/
theorem scanArchive_halfReadable :
    let c : BuildContext := { requested := ["a/B"] }
    let scanned := (c.scanArchive smallSettings halfReadable (.text "x")).1
    scanned.skipped = c.skipped ++ [("x" : Text)] ∧ scanned.headers ≠ c.headers ∧
      scanned.headers.header? "l/M" = some ⟨33, some "a/B"⟩ := by
  decide +kernel

end BuildContext

end SubclassIndex
